import Mathlib.Data.List.Chain
import SketchSolver.Expr.Formula

/-!
# The grammar of expression texts

`Written text f` says that a text writes a formula: it is a sequence of tokens, each behind a
gap, with any white space after the last one, and the grammar derives the formula from the
tokens. Nothing here refers to the lexer or to the parser.

A rule that repeats is a rule that recurs on its left, since all binary operators associate to
the left. In a derivation two words, that is numbers or names, never stand side by side
(`Derives.isChain`), so it does not matter that the spelling of a token may begin with that of
another one.

Tokens are spelled as the documentation has it: a number is a mantissa with digits on at least
one side of the point and an optional exponent, a name begins with a letter or an underscore,
and all other tokens are single characters. What may stand between tokens and what may stand
after the last one are two different things, a `gap` and any white space; so a text can end in
characters that may not separate its tokens.

A number stands for the nearest double of the decimal that it spells, and a minus sign is
never a part of it but an operator in front.

The grammar has four rules, and the formula that a rule derives is an index of `Derives` and
not its result. That a text writes at most one formula is thus a theorem, and comes with the
parser.
-/

namespace SketchSolver

/-! ## Tokens -/

/-- The characters that are tokens. -/
def Token.symbols : List Char := ['+', '-', '*', '/', '(', ')']

/-- One or more digits. -/
def Digits (ds : List Char) : Prop := ds ≠ [] ∧ ∀ c ∈ ds, c.isDigit = true

/-- `digits [. [digits]]` or `. digits`, from the digits before and after the point. -/
inductive Mantissa : (whole fraction text : List Char) → Prop where
  | whole {ds : List Char} (digits : Digits ds) : Mantissa ds [] ds
  | pointed {ds es : List Char} (digits : Digits ds) (more : ∀ c ∈ es, c.isDigit = true) :
    Mantissa ds es (ds ++ '.' :: es)
  | bare {es : List Char} (digits : Digits es) : Mantissa [] es ('.' :: es)

/-- The sign of an exponent and the factor that it stands for. -/
inductive ExponentSign : Int → List Char → Prop where
  | none : ExponentSign 1 []
  | plus : ExponentSign 1 ['+']
  | minus : ExponentSign (-1) ['-']

/-- Nothing, or a mark with an integer. -/
inductive Exponent : Int → List Char → Prop where
  | absent : Exponent 0 []
  | marked {mark : Char} {factor : Int} {sign ds : List Char} (isMark : mark = 'e' ∨ mark = 'E')
      (signed : ExponentSign factor sign) (digits : Digits ds) :
    Exponent (factor * Decimal.ofDigits ds) (mark :: (sign ++ ds))

/-- A token and a text that spells it. -/
inductive Spelled : Token → List Char → Prop where
  | number {whole fraction mantissa exponent : List Char} {e : Int}
      (digits : Mantissa whole fraction mantissa) (scale : Exponent e exponent) :
    Spelled (.number (Decimal.nearest (Decimal.ofDigits (whole ++ fraction)) (e - fraction.length)))
      (mantissa ++ exponent)
  | name {c : Char} {cs : List Char} (first : Token.isNameStart c = true)
      (more : ∀ d ∈ cs, Token.isNamePart d = true) :
    Spelled (.name (String.ofList (c :: cs))) (c :: cs)
  | symbol {c : Char} (known : c ∈ Token.symbols) : Spelled (.symbol c) [c]

/-- A text is a sequence of tokens, each behind a gap, and white space after the last one. -/
inductive Lexed : List Token → List Char → Prop where
  | done {cs : List Char} (blank : ∀ c ∈ cs, Text.isBlank c = true) : Lexed [] cs
  | token {t : Token} {ts : List Token} {gap word cs : List Char}
      (skipped : ∀ c ∈ gap, Text.isGap c = true) (spelled : Spelled t word) (rest : Lexed ts cs) :
    Lexed (t :: ts) (gap ++ word ++ cs)

/-! ## Derivations -/

/-- The rules of the grammar. -/
inductive Rule where
  | expression
  | term
  | unary
  | primary
  deriving DecidableEq, Repr

/-- The operators between the terms of an expression. -/
def additive : List (Char × BinaryOp) := [('+', .plus), ('-', .minus)]

/-- The operators between the factors of a term. -/
def multiplicative : List (Char × BinaryOp) := [('*', .times), ('/', .div)]

/-- A rule derives a formula from tokens. -/
inductive Derives : Rule → List Token → Formula → Prop where
  | number (v : Float) : Derives .primary [.number v] (.number v)
  | name (x : String) : Derives .primary [.name x] (.variable x)
  | call {ts : List Token} {a : Formula} (f : String) (argument : Derives .expression ts a) :
    Derives .primary (.name f :: .symbol '(' :: (ts ++ [.symbol ')'])) (.call f a)
  | group {ts : List Token} {a : Formula} (inner : Derives .expression ts a) :
    Derives .primary (.symbol '(' :: (ts ++ [.symbol ')'])) a
  | unsigned {ts : List Token} {a : Formula} (operand : Derives .primary ts a) : Derives .unary ts a
  | negate {ts : List Token} {a : Formula} (operand : Derives .unary ts a) :
    Derives .unary (.symbol '-' :: ts) (.negate a)
  | factor {ts : List Token} {a : Formula} (only : Derives .unary ts a) : Derives .term ts a
  | product {ts us : List Token} {a b : Formula} {c : Char} {op : BinaryOp}
      (known : (c, op) ∈ multiplicative) (left : Derives .term ts a) (right : Derives .unary us b) :
    Derives .term (ts ++ .symbol c :: us) (.binary op a b)
  | summand {ts : List Token} {a : Formula} (only : Derives .term ts a) : Derives .expression ts a
  | sum {ts us : List Token} {a b : Formula} {c : Char} {op : BinaryOp}
      (known : (c, op) ∈ additive) (left : Derives .expression ts a) (right : Derives .term us b) :
    Derives .expression (ts ++ .symbol c :: us) (.binary op a b)

/-- A text writes a formula. -/
def Written (text : List Char) (f : Formula) : Prop :=
  ∃ ts, Lexed ts text ∧ Derives .expression ts f

/-! ## What derivations consist of -/

/-- A token that the grammar can use. -/
def Token.Usable : Token → Prop
  | .number _ | .name _ => True
  | .symbol c => c ∈ symbols
  | .malformed _ => False

/-- One of two neighbours is a symbol. -/
def Token.Apart (t u : Token) : Prop := (∃ c, t = .symbol c) ∨ ∃ c, u = .symbol c

theorem mem_symbols_of_additive {c : Char} {op : BinaryOp} (known : (c, op) ∈ additive) :
    c ∈ Token.symbols := by
  simp only [additive, List.mem_cons, Prod.mk.injEq, List.not_mem_nil, or_false] at known
  rcases known with ⟨rfl, -⟩ | ⟨rfl, -⟩ <;> decide

theorem mem_symbols_of_multiplicative {c : Char} {op : BinaryOp}
    (known : (c, op) ∈ multiplicative) : c ∈ Token.symbols := by
  simp only [multiplicative, List.mem_cons, Prod.mk.injEq, List.not_mem_nil, or_false] at known
  rcases known with ⟨rfl, -⟩ | ⟨rfl, -⟩ <;> decide

/-- Two chains around a symbol are one chain. -/
theorem isChain_around_symbol {ts us : List Token} {c : Char} (left : ts.IsChain Token.Apart)
    (right : us.IsChain Token.Apart) : (ts ++ .symbol c :: us).IsChain Token.Apart := by
  refine List.isChain_append.mpr ⟨left, List.isChain_cons.mpr ⟨?_, right⟩, ?_⟩
  · intro u _
    exact Or.inl ⟨c, rfl⟩
  · intro t _ u first
    rw [List.head?_cons, Option.mem_some_iff] at first
    exact Or.inr ⟨c, first.symm⟩

namespace Derives

variable {r : Rule} {ts : List Token} {f : Formula}

/-- A derivation has no token that the grammar cannot use. -/
theorem usable (derived : Derives r ts f) : ∀ t ∈ ts, t.Usable := by
  induction derived with
  | number v | name x => simp [Token.Usable]
  | call f argument ih | group inner ih | negate operand ih =>
    simpa [or_imp, forall_and, Token.Usable, Token.symbols] using ih
  | unsigned operand ih | factor only ih | summand only ih => exact ih
  | product known left right ihl ihr =>
    simpa [or_imp, forall_and, Token.Usable, mem_symbols_of_multiplicative known] using ⟨ihl, ihr⟩
  | sum known left right ihl ihr =>
    simpa [or_imp, forall_and, Token.Usable, mem_symbols_of_additive known] using ⟨ihl, ihr⟩

theorem ne_nil (derived : Derives r ts f) : ts ≠ [] := by
  induction derived with
  | number v | name x | call f argument ih | group inner ih | negate operand ih => simp
  | unsigned operand ih | factor only ih | summand only ih => exact ih
  | product known left right ihl ihr | sum known left right ihl ihr => simp

/-- **Two words never stand side by side.** -/
theorem isChain (derived : Derives r ts f) : ts.IsChain Token.Apart := by
  induction derived with
  | number v | name x => exact List.IsChain.singleton _
  | call f argument ih =>
    exact isChain_around_symbol (List.IsChain.singleton _)
      (isChain_around_symbol ih List.IsChain.nil)
  | group inner ih =>
    exact isChain_around_symbol List.IsChain.nil (isChain_around_symbol ih List.IsChain.nil)
  | unsigned operand ih | factor only ih | summand only ih => exact ih
  | negate operand ih => exact isChain_around_symbol List.IsChain.nil ih
  | product known left right ihl ihr | sum known left right ihl ihr =>
    exact isChain_around_symbol ihl ihr

end Derives

end SketchSolver
