import SketchSolver.Json.Decoding
import SketchSolver.Json.Reading
import SketchSolver.Json.Writing
import SketchSolver.Settings

/-!
# Settings as text

Settings are read from JSON field by field; a field that is not given keeps its standard value.
They are written with all fields, one a line.

Correspondence with the program:
- `read?` and `write` are `from_json` and `to_json`. Both are derived from the declaration of the
  fields there and spelled out here: `setField?` says what type each field wants.
- An object may leave out any field, may have fields that are unknown, and may not have one
  twice. An array gives the fields in order and may end early.
- The derived reader takes a method by its name, or as an object with that name as its key.
- A failure has no content here, since its wording is the JSON library's.
-/

namespace SketchSolver.Settings

/-- The names of the fields, in order. -/
def fieldNames : List String :=
  ["max_unknowns", "max_iterations", "convergence_tolerance", "rough_tolerance",
    "pivot_threshold", "rank_threshold", "dragged_scale", "rank_method"]

/-- The position of a field. -/
def fieldIndex? (name : String) : Option Nat := fieldNames.findIdx? (· == name)

/-- The method that a value names: its name, or an object with its name as the key of a null. -/
def rankMethod? : Json.Value → Option RankMethod
  | .string (some name) => RankMethod.ofName? name
  | .object [(some name, .null)] => RankMethod.ofName? name
  | _ => none

/-- The settings with one field read from a value. -/
def setField? (c : Settings Float) (i : Nat) (v : Json.Value) : Option (Settings Float) :=
  match i with
  | 0 => v.toNat64?.map ({ c with maxUnknowns := · })
  | 1 => v.toNat64?.map ({ c with maxIterations := · })
  | 2 => v.toFloat?.map ({ c with convergenceTolerance := · })
  | 3 => v.toFloat?.map ({ c with roughTolerance := · })
  | 4 => v.toFloat?.map ({ c with pivotThreshold := · })
  | 5 => v.toFloat?.map ({ c with rankThreshold := · })
  | 6 => v.toFloat?.map ({ c with draggedScale := · })
  | 7 => (rankMethod? v).map ({ c with rankMethod := · })
  | _ => none

/-- The settings that a value writes. -/
def ofJson? : Json.Value → Option (Settings Float)
  | .object members => (Json.readMembers fieldIndex? setField? [] standard members).map (·.2)
  | .array items => (Json.readItems setField? 0 standard items).map (·.2)
  | _ => none

/-- The settings that a text writes. -/
def read? (text : String) : Option (Settings Float) := (Json.read? text).bind ofJson?

/-- The text of the settings. -/
def write (c : Settings Float) : String :=
  Json.prettyObject <| fieldNames.zip
    [toString c.maxUnknowns, toString c.maxIterations, Json.floatText c.convergenceTolerance,
      Json.floatText c.roughTolerance, Json.floatText c.pivotThreshold,
      Json.floatText c.rankThreshold, Json.floatText c.draggedScale,
      "\"" ++ c.rankMethod.name ++ "\""]

end SketchSolver.Settings
