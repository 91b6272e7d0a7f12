import SketchSolver.Json.Reading
import SketchSolver.Proofs.Expr.Grammar

/-!
# The grammar of JSON texts

`Writes text v` says that a text writes a value, with any white space around it. The rules are
those of JSON: a value is a literal name, a number, a string, or elements or members between
brackets, where an element is a value with any white space around it. Nothing here refers to
the reader.

A string is a list of pieces, each in one of its spellings (`Piece.Spelled`); what the pieces
stand for together is left to `characters?`, since an escape may be half of a pair. A string
with half a pair is a string according to the grammar, and it stands for no text. So the keys
of members and the contents of strings are optional texts.

A number keeps its digits as they are written. What it is worth depends on what is wanted, an
integer or a double, and is decided when it is used; the grammar says which digits there are.
No zero stands in front of other digits, and both a point and an exponent mark are followed by
a digit at least.

The rules are a single family `Node.Written`, indexed by what a part of the text is to be: a
value, a value with white space around it, some elements or some members. An induction over
texts thus has one case for each rule. White space belongs to the element that it surrounds,
except between empty brackets and around keys, so there is one way to distribute it.

Members are kept in the order of the text, and a key may come again. What this means is left
to the reader of records.
-/

namespace SketchSolver.Json

/-- White space only. -/
def Blank (cs : List Char) : Prop := ∀ c ∈ cs, isSpace c = true

/-! ## Strings -/

/-- A piece of a string and a spelling of it. -/
inductive Piece.Spelled : Piece → List Char → Prop where
  | plain {c : Char} (printable : 0x20 ≤ c.toNat) (notQuote : c ≠ '"') (notEscape : c ≠ '\\') :
    Spelled (.char c) [c]
  | short {e c : Char} (known : shortEscape? e = some c) : Spelled (.char c) ['\\', e]
  | unit {a b c d : Char} {w x y z : Nat} (first : hexDigit? a = some w)
      (second : hexDigit? b = some x) (third : hexDigit? c = some y)
      (fourth : hexDigit? d = some z) :
    Spelled (.unit (((w * 16 + x) * 16 + y) * 16 + z)) ['\\', 'u', a, b, c, d]

/-- The spellings of several pieces. -/
inductive Spelling : List Piece → List Char → Prop where
  | nil : Spelling [] []
  | cons {p : Piece} {ps : List Piece} {word cs : List Char} (first : p.Spelled word)
      (rest : Spelling ps cs) : Spelling (p :: ps) (word ++ cs)

/-- The text that pieces stand for, if no half of a pair is alone. -/
def textOf (ps : List Piece) : Text := (characters? ps).map String.ofList

/-- A string with its quotes. -/
inductive Quoted : Text → List Char → Prop where
  | mk {ps : List Piece} {cs : List Char} (spelling : Spelling ps cs) :
    Quoted (textOf ps) ('"' :: (cs ++ ['"']))

/-! ## Numbers -/

/-- The sign in front of a number. -/
def minus (negative : Bool) : List Char := if negative then ['-'] else []

/-- Nothing, or a point with digits. -/
inductive Fraction : Option (List Char) → List Char → Prop where
  | absent : Fraction none []
  | places {ds : List Char} (digits : Digits ds) : Fraction (some ds) ('.' :: ds)

/-- The sign of an exponent. -/
inductive PowerSign : Bool → List Char → Prop where
  | none : PowerSign false []
  | plus : PowerSign false ['+']
  | minus : PowerSign true ['-']

/-- Nothing, or a mark with an integer. -/
inductive Power : Option (Bool × List Char) → List Char → Prop where
  | absent : Power none []
  | marked {mark : Char} {negative : Bool} {sign ds : List Char} (isMark : mark = 'e' ∨ mark = 'E')
      (signed : PowerSign negative sign) (digits : Digits ds) :
    Power (some (negative, ds)) (mark :: (sign ++ ds))

/-- Digits of a natural number, of which the first is zero only if there is no other. -/
structure Whole (ds : List Char) : Prop where
  digits : Digits ds
  first : ds.head? = some '0' → ds.length = 1

/-- A number and its text. -/
inductive Number.Spelled : Number → List Char → Prop where
  | mk {negative : Bool} {whole f e : List Char} {fraction : Option (List Char)}
      {exponent : Option (Bool × List Char)} (digits : Whole whole) (places : Fraction fraction f)
      (power : Power exponent e) :
    Spelled ⟨negative, whole, fraction, exponent⟩ (minus negative ++ (whole ++ (f ++ e)))

/-! ## Values -/

/-- What a part of a text can be. -/
inductive Node where
  | value (v : Value)
  /-- A value with any white space around it. -/
  | element (v : Value)
  /-- One or more elements with commas between them. -/
  | elements (vs : List Value)
  /-- One or more members with commas between them. -/
  | members (ms : List (Text × Value))

/-- A part of a text and what it writes. -/
inductive Node.Written : Node → List Char → Prop where
  | null : Written (.value .null) ['n', 'u', 'l', 'l']
  | true : Written (.value (.bool true)) ['t', 'r', 'u', 'e']
  | false : Written (.value (.bool false)) ['f', 'a', 'l', 's', 'e']
  | number {n : Number} {cs : List Char} (spelled : n.Spelled cs) : Written (.value (.number n)) cs
  | string {t : Text} {cs : List Char} (quoted : Quoted t cs) : Written (.value (.string t)) cs
  | emptyArray {gap : List Char} (blank : Blank gap) :
    Written (.value (.array [])) ('[' :: (gap ++ [']']))
  | array {vs : List Value} {cs : List Char} (elements : Written (.elements vs) cs) :
    Written (.value (.array vs)) ('[' :: (cs ++ [']']))
  | emptyObject {gap : List Char} (blank : Blank gap) :
    Written (.value (.object [])) ('\x7b' :: (gap ++ ['\x7d']))
  | object {ms : List (Text × Value)} {cs : List Char} (members : Written (.members ms) cs) :
    Written (.value (.object ms)) ('\x7b' :: (cs ++ ['\x7d']))
  | element {v : Value} {gap cs gap' : List Char} (before : Blank gap)
      (value : Written (.value v) cs) (after : Blank gap') :
    Written (.element v) (gap ++ (cs ++ gap'))
  | lastElement {v : Value} {cs : List Char} (last : Written (.element v) cs) :
    Written (.elements [v]) cs
  | nextElement {v : Value} {vs : List Value} {cs es : List Char}
      (first : Written (.element v) cs) (rest : Written (.elements vs) es) :
    Written (.elements (v :: vs)) (cs ++ ',' :: es)
  | lastMember {t : Text} {v : Value} {gap ks gap' cs : List Char} (before : Blank gap)
      (key : Quoted t ks) (between : Blank gap') (last : Written (.element v) cs) :
    Written (.members [(t, v)]) (gap ++ (ks ++ (gap' ++ ':' :: cs)))
  | nextMember {t : Text} {v : Value} {ms : List (Text × Value)} {gap ks gap' cs es : List Char}
      (before : Blank gap) (key : Quoted t ks) (between : Blank gap')
      (first : Written (.element v) cs) (rest : Written (.members ms) es) :
    Written (.members ((t, v) :: ms)) (gap ++ (ks ++ (gap' ++ ':' :: (cs ++ ',' :: es))))

/-- A text writes a value. -/
def Writes (text : String) (v : Value) : Prop := (Node.element v).Written text.toList

end SketchSolver.Json
