/-!
# JSON values

A value keeps what its text says, so the type that is wanted of it can be decided later: a
number keeps its digits, a string keeps whether its escapes make up well-formed text, and an
object keeps its members in order.

The library that the program reads JSON with decodes while it reads: each field takes from the
text the type that it wants. Here a text is first read as a `Value` and then decoded, which
needs a value to lose nothing on the way. Digits cannot become a double too early, since an
integer field refuses `1.0`; a half of a surrogate pair is an error in a string that is wanted
and none in one that is ignored.
-/

namespace SketchSolver.Json

/-- A number as it is written. -/
structure Number where
  negative : Bool
  /-- The digits before the point. -/
  whole : List Char
  /-- The digits after the point, if there is one. -/
  fraction : Option (List Char)
  /-- The sign and the digits of the exponent, if there is one. -/
  exponent : Option (Bool × List Char)
  deriving DecidableEq, Repr

/-- The text of a string, or none if an escape stands for half a surrogate pair. -/
abbrev Text := Option String

/-- A value as it is written. -/
inductive Value where
  | null
  | bool (b : Bool)
  | number (n : Number)
  | string (t : Text)
  | array (items : List Value)
  | object (members : List (Text × Value))
  deriving Repr

end SketchSolver.Json
