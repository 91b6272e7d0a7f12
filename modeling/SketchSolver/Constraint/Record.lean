import SketchSolver.Constraint.Basic
import SketchSolver.Json.Decoding
import SketchSolver.Json.Reading

/-!
# Records of constraints

The form in which constraints are stored: the code of the kind, the entities, and the index of
the space. A record is written as JSON on one line; it is read from an object, where the space
may be missing, or from an array of the three fields.

Correspondence with the program:
- `Record` is its `ConstraintRecord`, `Constraint.record` is `record`, and `Constraint.ofRecord`
  is `from_record`. A code that no kind has fails before anything is asked of the sketch.
- Neither the id nor the decoration of a constraint is stored, so what is created from a record
  is a new constraint; the space is for the caller to honour.
- Reading and writing are derived from the declaration of the fields there and spelled out here:
  `setField?` says which type each field wants, a code of 32 bits and ids and indices of 64.
  Unknown fields are ignored, and a field that comes twice is an error.
-/

namespace SketchSolver

/-- The stored form of a constraint. -/
structure Record where
  kind : Nat
  entities : List EntityId
  space : Option Nat
  deriving DecidableEq, Repr

/-- The stored form of a constraint. -/
def Constraint.record (c : Constraint) : Record := ⟨c.kind.code, c.entities, c.space⟩

/-- A new constraint with the kind and the entities of a record. -/
def Constraint.ofRecord {α : Type} (sk : Sketch α) (r : Record) :
    Except (Failure α) (Constraint × Sketch α) :=
  match Kind.ofCode? r.kind with
  | some kind => create sk kind r.entities
  | none => .error (.unknownKind r.kind)

namespace Record

/-! ## Writing -/

/-- The text of a record. -/
def text (r : Record) : String :=
  let entities := ",".intercalate (r.entities.map fun e => toString e.number)
  let space := match r.space with
    | some i => toString i
    | none => "null"
  s!"\x7b\"kind\":{r.kind},\"entities\":[{entities}],\"space\":{space}\x7d"

/-- The text of several records. -/
def listText (rs : List Record) : String := "[" ++ ",".intercalate (rs.map text) ++ "]"

/-! ## Reading -/

/-- The names of the fields, in order. -/
def fieldNames : List String := ["kind", "entities", "space"]

/-- The entities that a value lists. -/
def entities? : Json.Value → Option (List EntityId)
  | .array items => items.mapM fun v => v.toNat64?.map EntityId.mk
  | _ => none

/-- The index that a value writes, or null. -/
def space? : Json.Value → Option (Option Nat)
  | .null => some none
  | v => v.toNat64?.map some

/-- The record with one field read from a value. -/
def setField? (r : Record) (i : Nat) (v : Json.Value) : Option Record :=
  match i with
  | 0 => v.toNat32?.map ({ r with kind := · })
  | 1 => (entities? v).map ({ r with entities := · })
  | 2 => (space? v).map ({ r with space := · })
  | _ => none

/-- The record before any field is read. -/
def blank : Record := ⟨0, [], none⟩

/-- The record that a value writes. -/
def ofJson? : Json.Value → Option Record
  | .object members => do
    let slot? (name : String) := fieldNames.findIdx? (· == name)
    let (seen, r) ← Json.readMembers slot? setField? [] blank members
    if seen.contains 0 && seen.contains 1 then some r else none
  | .array items => do
    let (count, r) ← Json.readItems setField? 0 blank items
    if count = fieldNames.length then some r else none
  | _ => none

/-- The record that a text writes. -/
def read? (text : String) : Option Record := (Json.read? text).bind ofJson?

/-- The records that a text lists. -/
def readList? (text : String) : Option (List Record) := do
  match ← Json.read? text with
  | .array items => items.mapM ofJson?
  | _ => none

end Record

end SketchSolver
