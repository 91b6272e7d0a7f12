import SketchSolver.Expr.Printer
import SketchSolver.Proofs.Decimal.Layout
import SketchSolver.Proofs.Expr.Names

/-!
# Reading what was written

The text of an expression is read as the expression itself, except that a signed constant
comes back as the negation of its opposite (`Expr.parse_text`). Texts have no signed numbers:
the sign in front of one is an operator.

Whatever an expression is, its text derives as an operand, the rule `unary` of the grammar,
since operators with two operands bring their own parentheses. So the texts of operands are
put together without regard to precedence (`WritesOperand`).

A text is a list of characters, and what is known about it has to be known in every place
where it may be put. `Cuts` says of a word that in front of any other text it can be cut into
given tokens, as the grammar cuts and not as the lexer does. It composes, and the shape of the
induction is then that of the printer: a number or a name is one token; a call, a negation and
an operator add symbols and spaces around the texts of their operands.

Three things are needed of an expression. Its constants are finite, because the texts of other
doubles are names. The names of its parameters are names that the grammar knows, and looking
one up leads back to the parameter, which fails where two parameters have the same name. A
parameter may have the name of a function.

Which expression comes back is `unsigned`. It has the same values and the same parameters, and
a node more for each signed constant. Without signed constants it is the expression itself.
-/

namespace SketchSolver

open Decimal (Signed)

/-- A name that the grammar knows. -/
def Identifier (x : String) : Prop :=
  ∃ c cs, x.toList = c :: cs ∧ Token.isNameStart c = true ∧ cs.all Token.isNamePart = true

theorem Identifier.spelled {x : String} (identifier : Identifier x) :
    Spelled (.name x) x.toList := by
  obtain ⟨c, cs, text, first, more⟩ := identifier
  have spelled := Spelled.name first (List.all_eq_true.mp more)
  rwa [← text, String.ofList_toList] at spelled

namespace Expr

/-- The constants at the leaves from left to right. -/
def consts {α : Type} : Expr α → List α
  | .param _ => []
  | .const v => [v]
  | .unary _ a => a.consts
  | .binary _ a b => a.consts ++ b.consts

/-- The expression with each signed constant as the negation of its opposite. -/
def unsigned : Expr Float → Expr Float
  | .param p => .param p
  | .const v => if Signed v then .unary .negate (.const (-v)) else .const v
  | .unary op a => .unary op a.unsigned
  | .binary op a b => .binary op a.unsigned b.unsigned

end Expr

/-! ## Texts in front of other texts -/

/-- In front of any other text, a text can be cut into the given tokens.

The next text may begin with a letter or a digit, so the lexer need not cut here. It does if the
tokens derive a formula, and that is all that `Formula.parse_ok_iff` asks for. -/
def Cuts (word : List Char) (ts : List Token) : Prop :=
  ∀ us cs, Lexed us cs → Lexed (ts ++ us) (word ++ cs)

namespace Cuts

variable {v w : List Char} {ts us : List Token}

/-- The spelling of a token can be cut into it. -/
theorem of_spelled {t : Token} (spelled : Spelled t w) : Cuts w [t] :=
  fun _ _ rest => @Lexed.token _ _ [] _ _ (fun _ mem => absurd mem List.not_mem_nil) spelled rest

theorem of_symbol {c : Char} (known : c ∈ Token.symbols) : Cuts [c] [.symbol c] :=
  of_spelled (.symbol known)

theorem space : Cuts [' '] [] := by
  intro us cs rest
  cases rest with
  | done blank =>
    refine .done fun c mem => ?_
    rcases List.mem_cons.mp mem with rfl | mem
    · rfl
    · exact blank c mem
  | @token t ts gap word cs skipped spelled rest =>
    refine @Lexed.token _ _ (' ' :: gap) _ _ (fun c mem => ?_) spelled rest
    rcases List.mem_cons.mp mem with rfl | mem
    · rfl
    · exact skipped c mem

theorem append (first : Cuts v ts) (second : Cuts w us) : Cuts (v ++ w) (ts ++ us) := by
  intro rs cs rest
  rw [List.append_assoc, List.append_assoc]
  exact first _ _ (second _ _ rest)

theorem parentheses (cuts : Cuts w ts) :
    Cuts ('(' :: (w ++ [')'])) (.symbol '(' :: (ts ++ [.symbol ')'])) :=
  (of_symbol (by decide)).append (cuts.append (of_symbol (by decide)))

/-- A text that can be cut into tokens is a sequence of them. -/
theorem lexed (cuts : Cuts w ts) : Lexed ts w := by
  have := cuts [] [] (.done fun _ mem => absurd mem List.not_mem_nil)
  rwa [List.append_nil, List.append_nil] at this

end Cuts

/-! ## Operands -/

/-- An operand derives as an expression. -/
theorem Derives.expression_of_unary {ts : List Token} {f : Formula}
    (derived : Derives .unary ts f) : Derives .expression ts f :=
  .summand (.factor derived)

/-- A text writes an expression as an operand. -/
def WritesOperand (lookup : String → Option Handle) (text : List Char) (e : Expr Float) : Prop :=
  ∃ ts f, Cuts text ts ∧ Derives .unary ts f ∧ Denotes lookup f e

namespace WritesOperand

variable {lookup : String → Option Handle} {v w : List Char} {d e : Expr Float}

theorem number {x : Float} (spelled : Spelled (.number x) w) :
    WritesOperand lookup w (.const x) :=
  ⟨_, _, .of_spelled spelled, .unsigned (.number x), .number x⟩

/-- A name writes the parameter that it is looked up as. -/
theorem name {x : String} {p : Handle} (identifier : Identifier x) (found : lookup x = some p) :
    WritesOperand lookup x.toList (.param p) :=
  ⟨_, _, .of_spelled identifier.spelled, .unsigned (.name x), .name found⟩

/-- A minus sign in front negates an operand. -/
theorem negate (operand : WritesOperand lookup w e) :
    WritesOperand lookup ('-' :: w) (.unary .negate e) := by
  obtain ⟨ts, f, cuts, derived, denotes⟩ := operand
  exact ⟨_, _, (Cuts.of_symbol (by decide)).append cuts, .negate derived, .negate denotes⟩

theorem group (operand : WritesOperand lookup w e) :
    WritesOperand lookup ('(' :: (w ++ [')'])) e := by
  obtain ⟨ts, f, cuts, derived, denotes⟩ := operand
  exact ⟨_, _, cuts.parentheses, .unsigned (.group derived.expression_of_unary), denotes⟩

/-- The name of a function with an operand in parentheses writes its value there. -/
theorem call {g : String} {op : UnaryOp} (known : (g, op) ∈ functions) (identifier : Identifier g)
    (operand : WritesOperand lookup w e) :
    WritesOperand lookup (g.toList ++ '(' :: (w ++ [')'])) (.unary op e) := by
  obtain ⟨ts, f, cuts, derived, denotes⟩ := operand
  exact ⟨_, _, (Cuts.of_spelled identifier.spelled).append cuts.parentheses,
    .unsigned (.call g derived.expression_of_unary), .call known denotes⟩

/-- Two operands with an operator between them, in parentheses. -/
theorem binary {op : BinaryOp} (left : WritesOperand lookup v d)
    (right : WritesOperand lookup w e) :
    WritesOperand lookup ('(' :: (v ++ ' ' :: (op.text.toList ++ ' ' :: w) ++ [')']))
      (.binary op d e) := by
  obtain ⟨ts, f, cutsLeft, derivedLeft, denotesLeft⟩ := left
  obtain ⟨us, g, cutsRight, derivedRight, denotesRight⟩ := right
  have symbol : ∃ c, op.text.toList = [c] ∧ ((c, op) ∈ additive ∨ (c, op) ∈ multiplicative) := by
    cases op
    · exact ⟨'+', by decide, by decide⟩
    · exact ⟨'-', by decide, by decide⟩
    · exact ⟨'*', by decide, by decide⟩
    · exact ⟨'/', by decide, by decide⟩
  obtain ⟨c, text, known⟩ := symbol
  have derived : Derives .expression (ts ++ .symbol c :: us) (.binary op f g) := by
    rcases known with known | known
    · exact .sum known derivedLeft.expression_of_unary (.factor derivedRight)
    · exact .summand (.product known (.factor derivedLeft) derivedRight)
  have isSymbol : c ∈ Token.symbols :=
    known.elim mem_symbols_of_additive mem_symbols_of_multiplicative
  have cuts : Cuts (v ++ ' ' :: ([c] ++ ' ' :: w)) (ts ++ .symbol c :: us) :=
    cutsLeft.append (Cuts.space.append ((Cuts.of_symbol isSymbol).append
      (Cuts.space.append cutsRight)))
  rw [text]
  exact ⟨_, _, cuts.parentheses, .unsigned (.group derived),
    .binary op denotesLeft denotesRight⟩

end WritesOperand

namespace Expr

variable {lookup : String → Option Handle} {s : Store Float} {e : Expr Float}

/-- The functions are called by the names that are written. -/
theorem text_of_function {op : UnaryOp} (function : op ≠ .negate) :
    (op.text, op) ∈ functions ∧ Identifier op.text := by
  cases op with
  | negate => exact absurd rfl function
  | sqrt => exact ⟨by decide, 's', ['q', 'r', 't'], by decide, by decide, by decide⟩
  | square => exact ⟨by decide, 's', ['q'], by decide, by decide, by decide⟩
  | sin => exact ⟨by decide, 's', ['i', 'n'], by decide, by decide, by decide⟩
  | cos => exact ⟨by decide, 'c', ['o', 's'], by decide, by decide, by decide⟩

/-- The characters of a text in parentheses. -/
theorem toList_parentheses (t : String) :
    ("(" ++ t ++ ")").toList = '(' :: (t.toList ++ [')']) := by
  rw [String.toList_append, String.toList_append, List.append_assoc]
  rfl

/-- The text of a finite double writes the constant without its sign. -/
theorem writesOperand_const {v : Float} (finite : v.isFinite = true) :
    WritesOperand lookup (text s (.const v)).toList (unsigned (.const v)) := by
  unfold text unsigned numberText
  by_cases signed : Signed v
  · have opposite := Decimal.spelled_shortPositional textSpecial (Decimal.isFinite_neg finite)
      (Decimal.not_signed_neg finite signed)
    have negation : WritesOperand lookup ("-" ++ numberText (-v)).toList
        (.unary .negate (.const (-v))) := by
      rw [String.toList_append]
      exact (WritesOperand.number opposite).negate
    rw [if_pos signed, Decimal.shortPositional_of_signed textSpecial finite signed]
    split
    next =>
      rw [toList_parentheses]
      exact negation.group
    next => exact negation
  · rw [if_neg signed, if_neg fun less => signed (Or.inl less)]
    exact .number (Decimal.spelled_shortPositional textSpecial finite signed)

/-- **The text of an expression writes it as an operand**, its signed constants being negations. -/
theorem writesOperand_text (finite : ∀ v ∈ e.consts, v.isFinite = true)
    (named : ∀ p ∈ e.params, Identifier (s.get p).symbol)
    (found : ∀ p ∈ e.params, lookup (s.get p).symbol = some p) :
    WritesOperand lookup (e.text s).toList e.unsigned := by
  -- an operator closes its text with a parenthesis, so every subtree is an operand again
  induction e with
  | param p => exact .name (named p (by simp [params])) (found p (by simp [params]))
  | const v => exact writesOperand_const (finite v (by simp [consts]))
  | unary op a ih =>
    have operand := ih finite named found
    have shape : (text s (.unary op a)).toList =
        op.text.toList ++ '(' :: ((a.text s).toList ++ [')']) := by
      rw [text, String.append_assoc, String.append_assoc, String.toList_append,
        ← String.append_assoc, toList_parentheses]
    rw [shape]
    -- the sign is an operator of the grammar, and all others are called
    by_cases sign : op = .negate
    · rw [sign]
      exact operand.group.negate
    · obtain ⟨known, identifier⟩ := text_of_function sign
      exact operand.call known identifier
  | binary op a b iha ihb =>
    rw [consts, List.forall_mem_append] at finite
    rw [params, List.forall_mem_append] at named found
    have left := iha finite.1 named.1 found.1
    have right := ihb finite.2 named.2 found.2
    have shape : (text s (.binary op a b)).toList =
        '(' :: ((a.text s).toList ++ ' ' :: (op.text.toList ++ ' ' :: (b.text s).toList) ++
          [')']) := by
      rw [text]
      simp
    rw [shape]
    exact left.binary right

/-! ## Expressions without signed constants -/

theorem eval_unsigned (finite : ∀ v ∈ e.consts, v.isFinite = true) (env : Handle → Float) :
    e.unsigned.eval env = e.eval env := by
  induction e with
  | param p => rfl
  | const v =>
    rw [unsigned]
    split
    next => exact Decimal.neg_neg_of_isFinite (finite v List.mem_cons_self)
    next => rfl
  | unary op a ih => rw [unsigned, eval, eval, ih finite]
  | binary op a b iha ihb =>
    rw [consts, List.forall_mem_append] at finite
    rw [unsigned, eval, eval, iha finite.1, ihb finite.2]

theorem nodes_unsigned (e : Expr Float) :
    e.unsigned.nodes = e.nodes + e.consts.countP (Signed ·) := by
  induction e with
  | param p => rfl
  | const v =>
    rw [unsigned, consts, List.countP_singleton]
    by_cases signed : Signed v
    · rw [if_pos signed, decide_eq_true signed]
      rfl
    · rw [if_neg signed, decide_eq_false signed]
      rfl
  | unary op a ih =>
    rw [unsigned, nodes, nodes, consts, ih]
    omega
  | binary op a b iha ihb =>
    rw [unsigned, nodes, nodes, consts, iha, ihb, List.countP_append]
    omega

theorem params_unsigned (e : Expr Float) : e.unsigned.params = e.params := by
  induction e with
  | param p => rfl
  | const v =>
    rw [unsigned]
    split <;> rfl
  | unary op a ih => rw [unsigned, params, params, ih]
  | binary op a b iha ihb => rw [unsigned, params, params, iha, ihb]

/-- No constant is signed any more. -/
theorem consts_unsigned (finite : ∀ v ∈ e.consts, v.isFinite = true) :
    ∀ v ∈ e.unsigned.consts, v.isFinite = true ∧ ¬Signed v := by
  induction e with
  | param p => exact fun v mem => absurd mem List.not_mem_nil
  | const v =>
    rw [consts, List.forall_mem_singleton] at finite
    rw [unsigned]
    split
    next signed =>
      exact List.forall_mem_singleton.mpr
        ⟨Decimal.isFinite_neg finite, Decimal.not_signed_neg finite signed⟩
    next notSigned => exact List.forall_mem_singleton.mpr ⟨finite, notSigned⟩
  | unary op a ih => exact ih finite
  | binary op a b iha ihb =>
    rw [consts, List.forall_mem_append] at finite
    rw [unsigned, consts, List.forall_mem_append]
    exact ⟨iha finite.1, ihb finite.2⟩

/-- Without signed constants nothing changes. -/
theorem unsigned_eq_self (none : ∀ v ∈ e.consts, ¬Signed v) : e.unsigned = e := by
  induction e with
  | param p => rfl
  | const v => rw [unsigned, if_neg (none v List.mem_cons_self)]
  | unary op a ih => rw [unsigned, ih none]
  | binary op a b iha ihb =>
    rw [consts, List.forall_mem_append] at none
    rw [unsigned, iha none.1, ihb none.2]

/-! ## Reading the text of an expression -/

/-- The text is read as the expression without its signed constants. -/
theorem parseWith_text (finite : ∀ v ∈ e.consts, v.isFinite = true)
    (named : ∀ p ∈ e.params, Identifier (s.get p).symbol)
    (found : ∀ p ∈ e.params, lookup (s.get p).symbol = some p) :
    parseWith lookup (e.text s) = .ok e.unsigned := by
  obtain ⟨ts, f, cuts, derived, denotes⟩ := writesOperand_text finite named found
  have parsed := Formula.parse_ok_iff.mpr
    ⟨ts, cuts.lexed, derived.expression_of_unary⟩
  unfold parseWith
  rw [parsed]
  exact Formula.resolve_of_denotes denotes

/-- **Reading undoes writing**, up to the signs of constants. The text of an expression over named
parameters is read as the expression in which each constant below zero, and each negative zero, is
the negation of its opposite. Its values are the same, it has one more node for each such
constant, and it is itself read back as it is. -/
theorem parse_text (s : Store Float) (params : List Handle) (e : Expr Float)
    (finite : ∀ v ∈ e.consts, v.isFinite = true)
    (named : ∀ p ∈ e.params, Identifier (s.get p).symbol)
    (found : ∀ p ∈ e.params, s.bySymbol? params (s.get p).symbol = some p) :
    parse s params (e.text s) = .ok e.unsigned ∧
    (∀ env, e.unsigned.eval env = e.eval env) ∧
    e.unsigned.nodes = e.nodes + e.consts.countP (fun v => v < 0 ∨ v = -0) ∧
    parse s params (e.unsigned.text s) = .ok e.unsigned := by
  have remaining := consts_unsigned finite
  have again : parse s params (e.unsigned.text s) = .ok e.unsigned.unsigned := by
    refine parseWith_text (fun v mem => (remaining v mem).1) ?_ ?_
    · rw [params_unsigned]
      exact named
    · rw [params_unsigned]
      exact found
  rw [unsigned_eq_self fun v mem => (remaining v mem).2] at again
  exact ⟨parseWith_text finite named found, eval_unsigned finite, nodes_unsigned e, again⟩

/-- A parameter with the name of a function. -/
def sqrtParam : Store Float := ⟨#[{ value := 4, symbol := "sqrt" }]⟩

/-- A call on a parameter with the name of the function, beside a product of signed constants. -/
def rootOfParam : Expr Float :=
  (param ⟨0⟩).sqrt - .const (-2) * .const (-0)

/-- The parameter is told from the function, and signed constants come back as negations. -/
theorem parse_text_rootOfParam :
    (∀ v ∈ rootOfParam.consts, v.isFinite = true) ∧
    (∀ p ∈ rootOfParam.params, Identifier (sqrtParam.get p).symbol) ∧
    (∀ p ∈ rootOfParam.params,
      sqrtParam.bySymbol? [⟨0⟩] (sqrtParam.get p).symbol = some p) ∧
    parse sqrtParam [⟨0⟩] (rootOfParam.text sqrtParam) =
      .ok ((param ⟨0⟩).sqrt - (const 2).negate * (const 0).negate) ∧
    rootOfParam.unsigned.nodes = rootOfParam.nodes + 2 := by
  have finite : ∀ v ∈ rootOfParam.consts, v.isFinite = true := by
    show ∀ v ∈ [(-2 : Float), -0], v.isFinite = true
    decide
  have named : ∀ p ∈ rootOfParam.params, Identifier (sqrtParam.get p).symbol := by
    intro p mem
    rw [List.mem_singleton.mp mem]
    exact ⟨'s', ['q', 'r', 't'], by decide, by decide, by decide⟩
  have found : ∀ p ∈ rootOfParam.params,
      sqrtParam.bySymbol? [⟨0⟩] (sqrtParam.get p).symbol = some p := by
    intro p mem
    rw [List.mem_singleton.mp mem]
    rfl
  obtain ⟨read, -, nodes, -⟩ := parse_text sqrtParam [⟨0⟩] rootOfParam finite named found
  have unsigned : rootOfParam.unsigned =
      (param ⟨0⟩).sqrt - (const 2).negate * (const 0).negate := rfl
  rw [unsigned] at read
  exact ⟨finite, named, found, read, nodes⟩

end Expr

end SketchSolver
