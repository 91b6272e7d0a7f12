import SketchSolver.Proofs.Json.Objects
import SketchSolver.Proofs.Json.Rereading
import SketchSolver.Proofs.Settings.Fields

/-!
# Settings that are written and read back

Settings are written with all their fields, so they are read back as what the texts of their
fields are read as (`read?_write_eq_some_iff`). Limits and methods always come back. A double
comes back as a double if and only if it is finite, and as itself if and only if its text is
read as itself; whether it is, is left to the reader of numbers (`Json.reread?`).

`read?_exact` puts this together with what any other text of an object is read as.

So whether settings survive is decided field by field, and for fields that are no doubles it is
decided once and for all. A limit is written in decimal digits and read as an integer of
sixty-four bits; it comes back if it fits, which is what `Fits` says and what the type of a
limit in the program guarantees. A method is written as its name.

For doubles there are two questions. Whether the text is read at all has a clear answer, since
a double that is not finite is written as something that is no number. Whether it is read as
the same double depends on the arithmetic of the reader, which rounds more than once; so the
equivalence is with this very question, for each of the five doubles.

The other half is about texts that were not written by the program. An object with any members
in any order, laid out in any way that JSON allows, is read as the standard settings with the
given fields replaced; a member that is not known changes nothing.
-/

namespace SketchSolver.Settings

namespace Field

/-- The text of the content of a field. -/
def text : Field → Settings Float → String
  | maxUnknowns, c => toString c.maxUnknowns
  | maxIterations, c => toString c.maxIterations
  | convergenceTolerance, c => Json.floatText c.convergenceTolerance
  | roughTolerance, c => Json.floatText c.roughTolerance
  | pivotThreshold, c => Json.floatText c.pivotThreshold
  | rankThreshold, c => Json.floatText c.rankThreshold
  | draggedScale, c => Json.floatText c.draggedScale
  | rankMethod, c => "\"" ++ c.rankMethod.name ++ "\""

/-- What the text of the content of a field is read as. -/
def reread? (f : Field) (c : Settings Float) : Option f.Content :=
  (Json.read? (f.text c)).bind f.read?

/-- A natural number is written in its digits. -/
theorem written_nat (n : Nat) :
    (Json.Node.value (.number ⟨false, Nat.toDigits 10 n, none, none⟩)).Written
      (toString n).toList := by
  rw [toList_toString]
  exact .number (Json.spelled_nat n)

/-- A natural number comes back if it fits sixty-four bits. -/
theorem reread?_nat (n : Nat) : (Json.read? (toString n)).bind Json.Value.toNat64? =
    if n < 2 ^ 64 then some n else none := by
  rw [Json.read?_of_value (written_nat n), Option.bind_some]
  show (if Decimal.ofDigits (Nat.toDigits 10 n) < _ then some (Decimal.ofDigits _) else none) = _
  rw [Decimal.ofDigits_toDigits]
  rfl

theorem exists_value (f : Field) (c : Settings Float) :
    ∃ v, (Json.Node.value v).Written (f.text c).toList := by
  cases f with
  | maxUnknowns => exact ⟨_, written_nat _⟩
  | maxIterations => exact ⟨_, written_nat _⟩
  | rankMethod =>
    have plain : Json.Plain c.rankMethod.name := by
      cases c.rankMethod
      decide
    refine ⟨.string (some c.rankMethod.name), .string ?_⟩
    rw [text, String.toList_append, String.toList_append]
    exact Json.quoted_of_plain plain
  | convergenceTolerance | roughTolerance | pivotThreshold | rankThreshold | draggedScale =>
    obtain ⟨v, written, -⟩ := Json.exists_value_floatText _
    exact ⟨v, written⟩

end Field

/-- Settings are written as the object of their fields. -/
theorem write_eq (c : Settings Float) :
    write c = Json.prettyObject (Field.all.map fun f => (f.name, f.text c)) := rfl

/-- The text of settings has one member for each field. -/
theorem exists_members (c : Settings Float) : ∃ (ms : Members) (value : Field → Json.Value),
    Json.read? (write c) = some (.object ms) ∧ Unambiguous ms ∧
      (∀ (f : Field) v, (some f.name, v) ∈ ms ↔ v = value f) ∧
      ∀ f : Field, f.read? (value f) = f.reread? c := by
  choose value written using fun f => Field.exists_value f c
  refine ⟨Field.all.map fun f => (some f.name, value f), value, ?_, ⟨?_, ?_⟩, fun f v => ?_, ?_⟩
  · rw [write_eq]
    refine Json.read?_of_value (Json.written_prettyObject (List.cons_ne_nil _ _) ?_ ?_)
    · exact fun f _ => by cases f <;> decide
    · exact fun f _ => written f
  · intro m mem
    obtain ⟨f, -, rfl⟩ := List.mem_map.mp mem
    exact Option.some_ne_none f.name
  · intro f
    rw [List.map_map]
    show (Field.all.map fun f => some f.name).count (some f.name) ≤ 1
    cases f <;> decide
  · rw [List.mem_map]
    constructor
    · rintro ⟨g, -, same⟩
      obtain ⟨name, rfl⟩ := Prod.mk.inj same
      by_contra ne
      exact Field.name_ne (fun eq => ne (by rw [eq])) (Option.some.inj name)
    · rintro rfl
      exact ⟨f, f.mem_all, rfl⟩
  · intro f
    unfold Field.reread?
    rw [Json.read?_of_value (written f)]
    rfl

variable {c r : Settings Float}

/-- The text of settings is read iff that of each field is. -/
theorem exists_read?_write_iff :
    (∃ r, read? (write c) = some r) ↔ ∀ f : Field, (f.reread? c).isSome = true := by
  obtain ⟨ms, value, read, clear, given, reread⟩ := exists_members c
  unfold read?
  rw [read, Option.bind_some, (ofJson?_object clear).1]
  constructor
  · intro typed f
    rw [← reread]
    exact typed f _ ((given f _).mpr rfl)
  · intro all f v mem
    rw [(given f v).mp mem, reread]
    exact all f

/-- **Settings are read back field by field.** -/
theorem read?_write_eq_some_iff :
    read? (write c) = some r ↔ ∀ f : Field, f.reread? c = some (f.get r) := by
  have replaced {d : Settings Float} (same : read? (write c) = some d) (f : Field) :
      f.reread? c = some (f.get d) := by
    obtain ⟨ms, value, read, clear, given, reread⟩ := exists_members c
    unfold read? at same
    rw [read, Option.bind_some] at same
    rw [← reread]
    exact ((ofJson?_object clear).2 d same f).1 _ ((given f _).mpr rfl)
  refine ⟨replaced, fun all => ?_⟩
  obtain ⟨d, same⟩ := exists_read?_write_iff.mpr fun f => by rw [all f]; rfl
  rw [same]
  refine congrArg some (Field.ext_get fun f => ?_)
  have := replaced same f
  rw [all f, Option.some.injEq] at this
  exact this.symm

/-- The fields that are doubles. -/
def doubles (c : Settings Float) : List Float :=
  [c.convergenceTolerance, c.roughTolerance, c.pivotThreshold, c.rankThreshold, c.draggedScale]

/-- The limits fit sixty-four bits. -/
structure Fits (c : Settings Float) : Prop where
  maxUnknowns : c.maxUnknowns < 2 ^ 64
  maxIterations : c.maxIterations < 2 ^ 64

theorem reread?_rankMethod (c : Settings Float) :
    Field.reread? .rankMethod c = some c.rankMethod := by
  have text : Field.text .rankMethod c = "\"GramSchmidt\"" := by
    unfold Field.text
    cases c.rankMethod
    rfl
  unfold Field.reread?
  rw [text]
  cases c.rankMethod
  decide

theorem reread?_maxUnknowns (fits : Fits c) :
    Field.reread? .maxUnknowns c = some c.maxUnknowns :=
  (Field.reread?_nat c.maxUnknowns).trans (if_pos fits.maxUnknowns)

theorem reread?_maxIterations (fits : Fits c) :
    Field.reread? .maxIterations c = some c.maxIterations :=
  (Field.reread?_nat c.maxIterations).trans (if_pos fits.maxIterations)

/-- Only the doubles are in question. -/
theorem forall_field_iff {P : (f : Field) → Option f.Content → Prop} (fits : Fits c)
    (some : ∀ f : Field, P f (some (f.get c))) : (∀ f, P f (f.reread? c)) ↔
      P .convergenceTolerance (Json.reread? c.convergenceTolerance) ∧
      P .roughTolerance (Json.reread? c.roughTolerance) ∧
      P .pivotThreshold (Json.reread? c.pivotThreshold) ∧
      P .rankThreshold (Json.reread? c.rankThreshold) ∧
      P .draggedScale (Json.reread? c.draggedScale) := by
  constructor
  · intro all
    exact ⟨all _, all _, all _, all _, all _⟩
  · rintro ⟨convergence, rough, pivot, rank, scale⟩ f
    cases f with
    | maxUnknowns => exact reread?_maxUnknowns fits ▸ some .maxUnknowns
    | maxIterations => exact reread?_maxIterations fits ▸ some .maxIterations
    | convergenceTolerance => exact convergence
    | roughTolerance => exact rough
    | pivotThreshold => exact pivot
    | rankThreshold => exact rank
    | draggedScale => exact scale
    | rankMethod => exact reread?_rankMethod c ▸ some .rankMethod

/-- **Settings are read back iff their doubles are finite.** -/
theorem exists_read?_write_iff_isFinite (fits : Fits c) :
    (∃ r, read? (write c) = some r) ↔ ∀ x ∈ c.doubles, x.isFinite = true := by
  rw [exists_read?_write_iff, forall_field_iff (P := fun _ x => x.isSome = true) fits fun _ => rfl]
  simp only [doubles, List.forall_mem_cons, Json.reread?_isSome_iff, List.not_mem_nil,
    false_implies, implies_true, and_true]

/-- **Settings are read back as themselves iff their doubles are.** -/
theorem read?_write_eq_self_iff (fits : Fits c) :
    read? (write c) = some c ↔ ∀ x ∈ c.doubles, Json.reread? x = some x := by
  rw [read?_write_eq_some_iff,
    forall_field_iff (P := fun f x => x = some (f.get c)) fits fun _ => rfl]
  simp only [doubles, List.forall_mem_cons, List.not_mem_nil, false_implies, implies_true, and_true]
  exact Iff.rfl

/-- **Settings survive their text exactly as far as their doubles do, and a text sets exactly the
fields that it gives.**

The text of settings is read if and only if their doubles are finite. It is read as the same
settings if and only if the text of each double is read as that double; so this is so for all
settings with finite doubles if all finite doubles come back.

A text that writes an object with each known key at most once is read if and only if their values
have the types of the fields. Then the settings are the standard ones with exactly those fields
replaced that are given, in whatever order, and with whatever else the object has. -/
theorem read?_exact :
    (∀ c : Settings Float, Fits c →
      ((∃ r, read? (write c) = some r) ↔ ∀ x ∈ c.doubles, x.isFinite = true) ∧
        (read? (write c) = some c ↔ ∀ x ∈ c.doubles, Json.reread? x = some x)) ∧
      ∀ text ms, Json.Writes text (.object ms) → Unambiguous ms →
        ((∃ r, read? text = some r) ↔ Typed ms) ∧
          ∀ r, read? text = some r → Replaces ms standard r := by
  refine ⟨fun c fits => ⟨exists_read?_write_iff_isFinite fits, read?_write_eq_self_iff fits⟩,
    fun text ms writes clear => ?_⟩
  unfold read?
  rw [Json.read?_of_writes writes]
  exact ofJson?_object clear

/-- The members of an object with an unknown key. -/
def someMembers : Members :=
  [(some "name", .array []), (some "max_iterations", .number ⟨false, ['2', '5'], none, none⟩)]

theorem mem_someMembers {f : Field} {v : Json.Value} (mem : (some f.name, v) ∈ someMembers) :
    f = .maxIterations ∧ v = .number ⟨false, ['2', '5'], none, none⟩ := by
  rcases List.mem_cons.mp mem with unknown | known
  · exact absurd (Option.some.inj (Prod.mk.inj unknown).1) (by cases f <;> decide)
  · obtain ⟨name, value⟩ := Prod.mk.inj (List.mem_singleton.mp known)
    refine ⟨?_, value⟩
    cases f <;> first | rfl | exact absurd (Option.some.inj name) (by decide)

theorem writes_someMembers :
    Json.Writes "\x7b \"name\": [], \"max_iterations\": 25 \x7d" (.object someMembers) := by
  have none : Json.Blank [] := Json.blank_of_all _ rfl
  have space : Json.Blank [' '] := Json.blank_of_all _ rfl
  have name := Json.quoted_of_plain (s := "name") (by decide)
  have iterations := Json.quoted_of_plain (s := "max_iterations") (by decide)
  have last := Json.Node.Written.lastMember space iterations none
    (.element space (.number (Json.spelled_nat 25)) space)
  have all := Json.Node.Written.nextMember space name none
    (.element space (.emptyArray none) none) last
  exact .element none (.object all) none

/-- The standard settings come back, and one field is replaced beside an unknown key. -/
theorem read?_exact_standard :
    Fits standard ∧ (∀ x ∈ standard.doubles, Json.reread? x = some x) ∧
      read? (write standard) = some standard ∧
      Unambiguous someMembers ∧ Typed someMembers ∧
      ∃ r, read? "\x7b \"name\": [], \"max_iterations\": 25 \x7d" = some r ∧
        r.maxIterations = 25 ∧ r.maxUnknowns = 1024 := by
  have fits : Fits standard := ⟨by decide, by decide⟩
  have doubles : ∀ x ∈ standard.doubles, Json.reread? x = some x := by decide +kernel
  have clear : Unambiguous someMembers := ⟨by decide, by intro f; cases f <;> decide⟩
  have typed : Typed someMembers := by
    intro f v mem
    obtain ⟨rfl, rfl⟩ := mem_someMembers mem
    rfl
  have ⟨read, replaces⟩ := read?_exact.2 _ someMembers writes_someMembers clear
  obtain ⟨r, given⟩ := read.mpr typed
  refine ⟨fits, doubles, (read?_exact.1 standard fits).2.mpr doubles, clear, typed, r, given,
    ?_, ?_⟩
  · have iterations := (replaces r given .maxIterations).1 _
      (List.mem_cons_of_mem _ List.mem_cons_self)
    exact (Option.some.inj iterations).symm
  · exact (replaces r given .maxUnknowns).2 fun v mem => by cases (mem_someMembers mem).1

end SketchSolver.Settings
