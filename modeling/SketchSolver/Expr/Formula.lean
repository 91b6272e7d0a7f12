import SketchSolver.Expr.Basic
import SketchSolver.Expr.Token

/-!
# Formulas

A `Formula` is an expression text before its names are resolved. The grammar is

    expression := term (('+' | '-') term)*
    term       := unary (('*' | '/') unary)*
    unary      := '-' unary | primary
    primary    := number | name '(' expression ')' | name | '(' expression ')'

with all binary operators associating to the left. `Formula.parse` reads it from the lexemes of
a text.

Correspondence with the program:
- `Formula` is its `Ast`, and the rules are `expr_parser`, `term`, `unary` and `primary`, with
  `additive_op` and `multiplicative_op` for what may go on. The loops of the first two are
  `moreTerms` and `moreFactors`, which carry what is read so far.
- The rules call each other on shorter and shorter texts there; here they have fuel, and
  `enoughFuel` is more than any text can use.
- A failure tells where another character was wanted: at the beginning of a `primary` that none of
  its alternatives fits, or where a parenthesis should have closed.
- After the formula any white space may stand, also such as may not stand inside it; what comes
  otherwise is quoted with the gap in front.
-/

namespace SketchSolver

/-- An expression text before its names are resolved. -/
inductive Formula where
  | number (v : Float)
  | variable (name : String)
  | negate (a : Formula)
  | binary (op : BinaryOp) (a b : Formula)
  | call (name : String) (a : Formula)
  deriving Repr

/-- Why a text is no formula. -/
inductive SyntaxError where
  /-- Another character was needed where the rest of the text begins. -/
  | unexpected (rest : List Char)
  /-- The rest of the text begins with a point that belongs to no number. -/
  | noDigits (rest : List Char)
  /-- The rest of the text begins with a number whose exponent mark has no digits. -/
  | noExponent (rest : List Char)
  /-- The text goes on after a complete formula. -/
  | trailing (rest : List Char)
  deriving DecidableEq, Repr

namespace Formula

/-- The text from the first character of the next lexeme. -/
def restAt : List Lexeme → List Char
  | [] => []
  | l :: _ => l.start

/-- A piece of formula and the lexemes after it. -/
abbrev Step (τ : Type) := Except SyntaxError (τ × List Lexeme)

/-- The lexemes after a symbol that has to come next. -/
def expect (c : Char) (ts : List Lexeme) : Except SyntaxError (List Lexeme) :=
  match ts with
  | ⟨.symbol d, _, _⟩ :: r => if d = c then .ok r else .error (.unexpected (restAt ts))
  | ts => .error (.unexpected (restAt ts))

/-- The operator of a sum that comes next, if one does. -/
def additive? : List Lexeme → Option (BinaryOp × List Lexeme)
  | ⟨.symbol '+', _, _⟩ :: r => some (.plus, r)
  | ⟨.symbol '-', _, _⟩ :: r => some (.minus, r)
  | _ => none

/-- The operator of a product that comes next, if one does. -/
def multiplicative? : List Lexeme → Option (BinaryOp × List Lexeme)
  | ⟨.symbol '*', _, _⟩ :: r => some (.times, r)
  | ⟨.symbol '/', _, _⟩ :: r => some (.div, r)
  | _ => none

mutual

/-- A sum. -/
def expression : Nat → List Lexeme → Step Formula
  | 0, ts => .error (.unexpected (restAt ts))
  | fuel + 1, ts =>
    match term fuel ts with
    | .ok (a, rest) => moreTerms fuel a rest
    | .error e => .error e

/-- What may follow the first terms of a sum. -/
def moreTerms : Nat → Formula → List Lexeme → Step Formula
  | 0, _, ts => .error (.unexpected (restAt ts))
  | fuel + 1, a, ts =>
    match additive? ts with
    | some (op, rest) =>
      match term fuel rest with
      | .ok (b, rest) => moreTerms fuel (.binary op a b) rest
      | .error e => .error e
    | none => .ok (a, ts)

/-- A product. -/
def term : Nat → List Lexeme → Step Formula
  | 0, ts => .error (.unexpected (restAt ts))
  | fuel + 1, ts =>
    match unary fuel ts with
    | .ok (a, rest) => moreFactors fuel a rest
    | .error e => .error e

/-- What may follow the first factors of a product. -/
def moreFactors : Nat → Formula → List Lexeme → Step Formula
  | 0, _, ts => .error (.unexpected (restAt ts))
  | fuel + 1, a, ts =>
    match multiplicative? ts with
    | some (op, rest) =>
      match unary fuel rest with
      | .ok (b, rest) => moreFactors fuel (.binary op a b) rest
      | .error e => .error e
    | none => .ok (a, ts)

/-- A factor with its signs. -/
def unary : Nat → List Lexeme → Step Formula
  | 0, ts => .error (.unexpected (restAt ts))
  | fuel + 1, ts =>
    match ts with
    | ⟨.symbol '-', _, _⟩ :: rest =>
      match unary fuel rest with
      | .ok (a, rest) => .ok (.negate a, rest)
      | .error e => .error e
    | ts => primary fuel ts

/-- A number, a variable, a call, or a formula in parentheses. A name is a call iff a parenthesis
comes next. -/
def primary : Nat → List Lexeme → Step Formula
  | 0, ts => .error (.unexpected (restAt ts))
  | fuel + 1, ts =>
    match ts with
    | ⟨.number v, _, _⟩ :: rest => .ok (.number v, rest)
    | ⟨.malformed .noDigits, _, start⟩ :: _ => .error (.noDigits start)
    | ⟨.malformed .noExponent, _, start⟩ :: _ => .error (.noExponent start)
    | ⟨.name f, _, _⟩ :: ⟨.symbol '(', _, _⟩ :: rest =>
      match parenthesized fuel rest with
      | .ok (a, rest) => .ok (.call f a, rest)
      | .error e => .error e
    | ⟨.name x, _, _⟩ :: rest => .ok (.variable x, rest)
    | ⟨.symbol '(', _, _⟩ :: rest => parenthesized fuel rest
    | ts => .error (.unexpected (restAt ts))

/-- A formula and the parenthesis that closes it. -/
def parenthesized : Nat → List Lexeme → Step Formula
  | 0, ts => .error (.unexpected (restAt ts))
  | fuel + 1, ts =>
    match expression fuel ts with
    | .ok (a, rest) =>
      match expect ')' rest with
      | .ok rest => .ok (a, rest)
      | .error e => .error e
    | .error e => .error e

end

/-- Steps enough for any formula of this many lexemes: no more than five rules stand between two
lexemes that are read one after the other. -/
def enoughFuel (lexemes : Nat) : Nat := 6 * (lexemes + 1)

/-- What is left of the text before a lexeme. -/
def textBefore (cs : List Char) (ts : List Lexeme) : List Char :=
  match ts with
  | [] => cs
  | l :: _ => l.before

/-- The formula that a text writes. -/
def parse (cs : List Char) : Except SyntaxError Formula :=
  let ts := Token.lex cs
  match expression (enoughFuel ts.length) ts with
  | .ok (a, rest) =>
    if (textBefore [] rest).all Text.isBlank then .ok a
    else .error (.trailing (textBefore [] rest))
  | .error e => .error e

end Formula

end SketchSolver
