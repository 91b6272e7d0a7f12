import SketchSolver.Decimal.Layout

/-!
# Writing JSON

Numbers have the fewest digits that read back. They are positional, always with a point, from
`10^(-5)` to below `10^16`, and scientific with a sign in the exponent outside. Values that are
no finite numbers become null.

The JSON library of the program writes doubles so. Its rule for a tie between two shortest
texts is not that of the display form of numbers: of two equally near ones the even one is taken
(`Tie.toEven`). `prettyObject` is its layout with one member a line, for an object without
objects in it.
-/

namespace SketchSolver.Json

/-- Whether the leading digit of a number stands where positional text is used. -/
def isPositional (leading : Int) : Bool := -5 ≤ leading && leading < 16

/-- Chosen digits as JSON. -/
def digitsText (d : Decimal.Digits) : String :=
  if isPositional d.leading then
    if 0 ≤ d.exponent then d.positional ++ ".0" else d.positional
  else d.scientific Decimal.signedExponent

/-- A double as JSON. -/
def floatText (x : Float) : String :=
  match Decimal.Binary.ofFloat x with
  | .nan | .infinite _ => "null"
  | .zero negative => Decimal.sign negative ++ "0.0"
  | .finite negative m q =>
    Decimal.sign negative ++ digitsText (Decimal.shortest .toEven m q).trimmed

/-- An object with one member a line. The members are pairs of a key and the text of its value. -/
def prettyObject (members : List (String × String)) : String :=
  "\x7b\n" ++ ",\n".intercalate (members.map fun (k, v) => "  \"" ++ k ++ "\": " ++ v) ++ "\n\x7d"

end SketchSolver.Json
