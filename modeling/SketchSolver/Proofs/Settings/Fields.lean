import SketchSolver.Proofs.Json.Grammar
import SketchSolver.SettingsText

/-!
# Fields of the settings

The members of an object set fields: `Field.name` is the key, `Field.read?` says which values
the field takes, and `Field.get` and `Field.set` are its content. Settings are read from
members whatever their order (`readMembers_spec`): a field that is given has the content that
its value writes, and all others stay. A value that is none for its field is refused
(`typed_of_readMembers`).

The fields differ in type, so `Field.Content` is a family of types, and reading, getting and
setting a field are functions over it. With them one theorem is about all fields at once, and
each law has eight cases that compute. The reader itself goes by positions, `setField?`; that
these are the fields in order is `setField?_index`, and after it positions do not occur.

A key that is no field's is ignored, with whatever value. The same key twice is an error if it
is a field's, even if both values are the same, and no error if it is not. `Unambiguous` is
the condition that the first does not happen, and that no key is half a pair of escapes, which
is an error as well. With it and `Typed`, which says that each value is one for its field, the
members are read (`ofJson?_object`).

`Replaces` determines the settings that are read: a record is known by its fields
(`ext_get`). So that members are read as some settings, and as which, is one equivalence.
-/

namespace SketchSolver.Settings

open Json (Text)

/-- The fields. -/
inductive Field where
  | maxUnknowns
  | maxIterations
  | convergenceTolerance
  | roughTolerance
  | pivotThreshold
  | rankThreshold
  | draggedScale
  | rankMethod
  deriving DecidableEq, Repr

namespace Field

/-- All fields, in the order in which they are written. -/
def all : List Field :=
  [maxUnknowns, maxIterations, convergenceTolerance, roughTolerance, pivotThreshold, rankThreshold,
    draggedScale, rankMethod]

/-- The key of a field. -/
def name : Field → String
  | maxUnknowns => "max_unknowns"
  | maxIterations => "max_iterations"
  | convergenceTolerance => "convergence_tolerance"
  | roughTolerance => "rough_tolerance"
  | pivotThreshold => "pivot_threshold"
  | rankThreshold => "rank_threshold"
  | draggedScale => "dragged_scale"
  | rankMethod => "rank_method"

/-- The position of a field. -/
def index : Field → Nat
  | maxUnknowns => 0
  | maxIterations => 1
  | convergenceTolerance => 2
  | roughTolerance => 3
  | pivotThreshold => 4
  | rankThreshold => 5
  | draggedScale => 6
  | rankMethod => 7

/-- What a field holds. -/
abbrev Content : Field → Type
  | maxUnknowns | maxIterations => Nat
  | convergenceTolerance | roughTolerance | pivotThreshold | rankThreshold | draggedScale => Float
  | rankMethod => RankMethod

/-- The content that a value writes, if it is of the type of the field. -/
def read? : (f : Field) → Json.Value → Option f.Content
  | maxUnknowns | maxIterations => Json.Value.toNat64?
  | convergenceTolerance | roughTolerance | pivotThreshold | rankThreshold | draggedScale =>
    Json.Value.toFloat?
  | rankMethod => rankMethod?

def get : (f : Field) → Settings Float → f.Content
  | maxUnknowns => Settings.maxUnknowns
  | maxIterations => Settings.maxIterations
  | convergenceTolerance => Settings.convergenceTolerance
  | roughTolerance => Settings.roughTolerance
  | pivotThreshold => Settings.pivotThreshold
  | rankThreshold => Settings.rankThreshold
  | draggedScale => Settings.draggedScale
  | rankMethod => Settings.rankMethod

def set : (f : Field) → Settings Float → f.Content → Settings Float
  | maxUnknowns => fun c x => { c with maxUnknowns := x }
  | maxIterations => fun c x => { c with maxIterations := x }
  | convergenceTolerance => fun c x => { c with convergenceTolerance := x }
  | roughTolerance => fun c x => { c with roughTolerance := x }
  | pivotThreshold => fun c x => { c with pivotThreshold := x }
  | rankThreshold => fun c x => { c with rankThreshold := x }
  | draggedScale => fun c x => { c with draggedScale := x }
  | rankMethod => fun c x => { c with rankMethod := x }

theorem mem_all (f : Field) : f ∈ all := by
  cases f <;> decide

theorem get_set (f : Field) (c : Settings Float) (x : f.Content) : f.get (f.set c x) = x := by
  cases f <;> rfl

theorem get_set_of_ne {f g : Field} (ne : g ≠ f) (c : Settings Float) (x : f.Content) :
    g.get (f.set c x) = g.get c := by
  cases f <;> cases g <;> first | rfl | exact absurd rfl ne

/-- Settings with the same fields are the same. -/
theorem ext_get {c d : Settings Float} (same : ∀ f : Field, f.get c = f.get d) : c = d := by
  obtain ⟨_, _, _, _, _, _, _, _⟩ := c
  obtain ⟨_, _, _, _, _, _, _, _⟩ := d
  cases same maxUnknowns
  cases same maxIterations
  cases same convergenceTolerance
  cases same roughTolerance
  cases same pivotThreshold
  cases same rankThreshold
  cases same draggedScale
  cases same rankMethod
  rfl

/-- Setting the field at a position is reading its value. -/
theorem setField?_index (f : Field) (c : Settings Float) (v : Json.Value) :
    setField? c f.index v = (f.read? v).map (f.set c) := by
  cases f <;> rfl

theorem index_injective {f g : Field} (same : f.index = g.index) : f = g := by
  cases f <;> cases g <;> first | rfl | cases same

/-- The key of a field leads to its position. -/
theorem fieldIndex?_name (f : Field) : fieldIndex? f.name = some f.index := by
  cases f <;> decide

theorem name_ne {f g : Field} (ne : g ≠ f) : g.name ≠ f.name := by
  intro same
  have := g.fieldIndex?_name
  rw [same, f.fieldIndex?_name, Option.some.injEq] at this
  exact ne (index_injective this.symm)

/-- The known keys are the names of the fields. -/
theorem exists_of_fieldIndex? {key : String} {i : Nat} (known : fieldIndex? key = some i) :
    ∃ f : Field, key = f.name ∧ i = f.index := by
  have indices : ∀ i : Fin all.length, all[i].index = i ∧ fieldNames[i]? = some all[i].name := by
    decide
  obtain ⟨bound, same, -⟩ := List.findIdx?_eq_some_iff_getElem.mp known
  obtain ⟨index, name⟩ := indices ⟨i, bound⟩
  rw [Fin.getElem?_fin, List.getElem?_eq_getElem bound, Option.some.injEq] at name
  exact ⟨all[i], by rw [← beq_iff_eq.mp same]; exact name, index.symm⟩

end Field

/-! ## Members -/

/-- The members of an object. -/
abbrev Members := List (Text × Json.Value)

/-- Settings `r` are settings `c` with the fields replaced that are given, and no others. -/
def Replaces (ms : Members) (c r : Settings Float) : Prop :=
  ∀ f : Field, (∀ v, (some f.name, v) ∈ ms → f.read? v = some (f.get r)) ∧
    ((∀ v, (some f.name, v) ∉ ms) → f.get r = f.get c)

/-- Every key is a text, and none is given twice that is a field's. -/
structure Unambiguous (ms : Members) : Prop where
  keys : ∀ m ∈ ms, m.1 ≠ none
  once : ∀ f : Field, (ms.map Prod.fst).count (some f.name) ≤ 1

/-- Every field that is given has a value of its type. -/
def Typed (ms : Members) : Prop :=
  ∀ f : Field, ∀ v, (some f.name, v) ∈ ms → (f.read? v).isSome = true

variable {ms : Members} {m : Text × Json.Value} {seen : List Nat} {c r : Settings Float}

/-- Fewer members are no more ambiguous. -/
theorem Unambiguous.tail (clear : Unambiguous (m :: ms)) : Unambiguous ms where
  keys m mem := clear.keys m (List.mem_cons_of_mem _ mem)
  once f := (List.count_le_count_cons).trans (clear.once f)

/-- A field that was given is not given again. -/
theorem Unambiguous.absent {f : Field} {v : Json.Value}
    (clear : Unambiguous ((some f.name, v) :: ms)) : ∀ w, (some f.name, w) ∉ ms := by
  intro w mem
  have once := clear.once f
  rw [List.map_cons, List.count_cons_self] at once
  have := List.count_pos_iff.mpr (List.mem_map_of_mem (f := Prod.fst) mem)
  dsimp only at this
  omega

theorem readMembers_unknown {key : String} {v : Json.Value} (unknown : fieldIndex? key = none) :
    Json.readMembers fieldIndex? setField? seen c ((some key, v) :: ms) =
      Json.readMembers fieldIndex? setField? seen c ms := by
  rw [Json.readMembers, unknown]

/-- A known key sets its field if the value is one for it. -/
theorem readMembers_field {f : Field} {v : Json.Value} (fresh : f.index ∉ seen) :
    Json.readMembers fieldIndex? setField? seen c ((some f.name, v) :: ms) =
      (f.read? v).bind fun x =>
        Json.readMembers fieldIndex? setField? (f.index :: seen) (f.set c x) ms := by
  rw [Json.readMembers, f.fieldIndex?_name]
  dsimp only
  rw [if_neg (by rwa [List.contains_iff_mem]), f.setField?_index]
  cases f.read? v <;> rfl

/-- A member with another key does not count. -/
theorem mem_cons_of_ne {key : String} {f : Field} {v w : Json.Value} (ne : key ≠ f.name) :
    (some f.name, w) ∈ (some key, v) :: ms ↔ (some f.name, w) ∈ ms := by
  rw [List.mem_cons, or_iff_right fun same => ne (Option.some.inj (congrArg Prod.fst same)).symm]

theorem ne_name {key : String} (unknown : fieldIndex? key = none) (f : Field) : key ≠ f.name := by
  rintro rfl
  rw [f.fieldIndex?_name] at unknown
  cases unknown

/-- **Members are read in any order.** What is given replaces what was there, and nothing else
does. -/
theorem readMembers_spec (clear : Unambiguous ms) (typed : Typed ms)
    (fresh : ∀ f : Field, f.index ∈ seen → ∀ v, (some f.name, v) ∉ ms) :
    ∃ seen' r, Json.readMembers fieldIndex? setField? seen c ms = some (seen', r) ∧
      Replaces ms c r := by
  induction ms generalizing seen c with
  | nil => exact ⟨seen, c, rfl, fun f => ⟨fun v mem => absurd mem List.not_mem_nil, fun _ => rfl⟩⟩
  | cons m ms ih =>
    obtain ⟨key?, v⟩ := m
    obtain ⟨key, rfl⟩ := Option.ne_none_iff_exists'.mp (clear.keys _ List.mem_cons_self)
    have typed' : Typed ms := fun f w mem => typed f w (List.mem_cons_of_mem _ mem)
    cases known : fieldIndex? key with
    | none =>
      rw [readMembers_unknown known]
      obtain ⟨seen', r, read, replaces⟩ := ih (c := c) clear.tail typed' fun f given w mem =>
        fresh f given w (List.mem_cons_of_mem _ mem)
      refine ⟨seen', r, read, fun f => ?_⟩
      simp only [mem_cons_of_ne (ne_name known f)]
      exact replaces f
    | some i =>
      obtain ⟨f, rfl, rfl⟩ := Field.exists_of_fieldIndex? known
      obtain ⟨x, content⟩ := Option.isSome_iff_exists.mp (typed f v List.mem_cons_self)
      rw [readMembers_field fun given => fresh f given v List.mem_cons_self, content,
        Option.bind_some]
      -- the field is given once, so its key does not come again
      have fresh' : ∀ g : Field, g.index ∈ f.index :: seen → ∀ w, (some g.name, w) ∉ ms := by
        intro g given w mem
        rcases List.mem_cons.mp given with same | earlier
        · exact clear.absent w (Field.index_injective same ▸ mem)
        · exact fresh g earlier w (List.mem_cons_of_mem _ mem)
      obtain ⟨seen', r, read, replaces⟩ := ih (c := f.set c x) clear.tail typed' fresh'
      refine ⟨seen', r, read, fun g => ?_⟩
      by_cases same : g = f
      · subst same
        refine ⟨fun w mem => ?_, fun none => absurd List.mem_cons_self (none v)⟩
        rcases List.mem_cons.mp mem with here | later
        · rw [(Prod.mk.inj here).2, content, (replaces g).2 clear.absent, g.get_set]
        · exact absurd later (clear.absent w)
      · simp only [mem_cons_of_ne (Field.name_ne same).symm]
        rw [← Field.get_set_of_ne same c x]
        exact replaces g

/-- A value that is none for its field is refused. -/
theorem typed_of_readMembers {seen' : List Nat}
    (read : Json.readMembers fieldIndex? setField? seen c ms = some (seen', r)) : Typed ms := by
  induction ms generalizing seen c with
  | nil => exact fun f v mem => absurd mem List.not_mem_nil
  | cons m ms ih =>
    obtain ⟨key?, v⟩ := m
    cases key? with
    | none => cases read
    | some key =>
      cases known : fieldIndex? key with
      | none =>
        rw [readMembers_unknown known] at read
        intro f w mem
        exact ih read f w ((mem_cons_of_ne (ne_name known f)).mp mem)
      | some i =>
        obtain ⟨f, rfl, rfl⟩ := Field.exists_of_fieldIndex? known
        by_cases given : f.index ∈ seen
        · rw [Json.readMembers, known] at read
          dsimp only at read
          rw [if_pos (List.contains_iff_mem.mpr given)] at read
          cases read
        · rw [readMembers_field given, Option.bind_eq_some_iff] at read
          obtain ⟨x, content, read⟩ := read
          intro g w mem
          rcases List.mem_cons.mp mem with here | later
          · obtain rfl : g = f := by
              by_contra ne
              exact Field.name_ne ne (Option.some.inj (Prod.mk.inj here).1)
            rw [(Prod.mk.inj here).2, content]
            rfl
          · exact ih read g w later

/-- **An object is read iff each field that is given has a value of its type**, and then exactly
those fields are replaced. -/
theorem ofJson?_object (clear : Unambiguous ms) :
    ((∃ r, ofJson? (.object ms) = some r) ↔ Typed ms) ∧
      ∀ r, ofJson? (.object ms) = some r → Replaces ms standard r := by
  have spec (typed : Typed ms) : ∃ seen r,
      Json.readMembers fieldIndex? setField? [] standard ms = some (seen, r) ∧
        Replaces ms standard r :=
    readMembers_spec clear typed fun f given => absurd given List.not_mem_nil
  have typed {r : Settings Float} (read : ofJson? (.object ms) = some r) : Typed ms := by
    rw [ofJson?, Option.map_eq_some_iff] at read
    obtain ⟨⟨seen, r⟩, read, -⟩ := read
    exact typed_of_readMembers read
  refine ⟨⟨fun ⟨r, read⟩ => typed read, fun typed => ?_⟩, fun r read => ?_⟩
  · obtain ⟨seen, r, read, -⟩ := spec typed
    exact ⟨r, by rw [ofJson?, read]; rfl⟩
  · obtain ⟨seen, r', read', replaces⟩ := spec (typed read)
    rw [ofJson?, read'] at read
    cases read
    exact replaces

end SketchSolver.Settings
