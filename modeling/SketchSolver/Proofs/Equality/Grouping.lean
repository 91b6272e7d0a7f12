import Mathlib
import SketchSolver.Proofs.Equality.Classes
import SketchSolver.Proofs.Equality.Merging

/-!
# What merging computes

`Equation.Binds` says that an equation is the difference of two parameters with two ids, in
either order. Merging fails exactly when two equations bind the same ids, and then tells the
first one that does so again (`FirstRepeat`) and leaves all parameters alone. Else the groups
are the classes of the equivalence that the equations generate (`Classifies`), and in each
group every listed member but the representative is eliminated in its favour (`Eliminates`).

The main statement is `merge_yields_classes`. It speaks of the set of bound pairs alone, so
neither the order of the equations nor the sizes of classes show in it.

An equation counts only if it is exactly a difference of two parameters, as a tree. One that
says the same in other words, a sum with a negation or a difference doubled, is no such
equation, and two equations that bind different pairs never count as repeated even if one
follows from others: three parameters may be equated in a circle. Only the same two ids twice
are refused, and the order of the two within the equation does not matter.

What is compared are ids. Two parameters with one id would be the same to merging; the
statements say so by speaking of ids throughout, and it is left to the list of parameters to
have each id once.

The definitions of this module are meant to be read without the program at hand. `Repeats`
and `FirstRepeat` go by the ids of equations, since the list has them in that order, and
`Classifies` has one field for each property that a partition into groups should have.
-/

namespace SketchSolver

open Relation (EqvGen)

variable {α : Type}

/-- The difference of two parameters is recognized, and nothing else is. -/
theorem Expr.paramDifference?_eq_some_iff {e : Expr α} {p q : Handle} :
    e.paramDifference? = some (p, q) ↔ e = (Expr.param p).minus (.param q) := by
  unfold paramDifference? minus
  split
  next => simp
  next other =>
    simp only [reduceCtorEq, false_iff]
    rintro rfl
    exact other p q rfl

/-- An expression is seen as a difference of parameters if it is one, as a tree. -/
theorem Expr.isSome_paramDifference?_iff {e : Expr α} :
    e.paramDifference?.isSome ↔ ∃ a b, e = (Expr.param a).minus (.param b) := by
  rw [Option.isSome_iff_exists]
  simp only [Prod.exists, Expr.paramDifference?_eq_some_iff]

variable [Zero α] {s : Store α} {equations : EquationList α} {e e' : Equation α} {x y : Int}

namespace Equation

/-- The equation is the difference of two parameters with these ids, in either order. -/
def Binds (s : Store α) (e : Equation α) (x y : Int) : Prop :=
  ∃ p q, e.expr = (Expr.param p).minus (.param q) ∧
    (s.id p = x ∧ s.id q = y ∨ s.id p = y ∧ s.id q = x)

/-- The equation binds two ids that one with a smaller id binds already. -/
def Repeats (s : Store α) (equations : EquationList α) (e : Equation α) : Prop :=
  ∃ e' ∈ equations.toList, e'.id < e.id ∧ ∃ x y, e'.Binds s x y ∧ e.Binds s x y

/-- The order of the two ids does not matter. -/
theorem Binds.symm (h : e.Binds s x y) : e.Binds s y x := by
  obtain ⟨p, q, eq, ids⟩ := h
  exact ⟨p, q, eq, ids.symm⟩

/-- The ids that an equation binds are found with the smaller one first. -/
theorem bound?_eq_some_iff : e.bound? s = some (x, y) ↔ x ≤ y ∧ e.Binds s x y := by
  unfold bound? Binds
  simp only [Option.map_eq_some_iff, Prod.exists, Prod.mk.injEq,
    Expr.paramDifference?_eq_some_iff]
  constructor
  · rintro ⟨p, q, eq, rfl, rfl⟩
    refine ⟨by omega, p, q, eq, ?_⟩
    rcases Int.le_total (s.id p) (s.id q) with le | le
    · exact Or.inl ⟨(Int.min_eq_left le).symm, (Int.max_eq_right le).symm⟩
    · exact Or.inr ⟨(Int.max_eq_left le).symm, (Int.min_eq_right le).symm⟩
  · rintro ⟨le, p, q, eq, ⟨rfl, rfl⟩ | ⟨rfl, rfl⟩⟩
    · exact ⟨p, q, eq, Int.min_eq_left le, Int.max_eq_right le⟩
    · exact ⟨p, q, eq, Int.min_eq_right le, Int.max_eq_left le⟩

/-- Two equations bind the same ids exactly when the same pair is found for both. -/
theorem bind_same_iff :
    (∃ x y, e'.Binds s x y ∧ e.Binds s x y) ↔
      ∃ pair, e'.bound? s = some pair ∧ e.bound? s = some pair := by
  constructor
  · rintro ⟨x, y, h', h⟩
    rcases Int.le_total x y with le | le
    · exact ⟨(x, y), bound?_eq_some_iff.mpr ⟨le, h'⟩, bound?_eq_some_iff.mpr ⟨le, h⟩⟩
    · exact ⟨(y, x), bound?_eq_some_iff.mpr ⟨le, h'.symm⟩, bound?_eq_some_iff.mpr ⟨le, h.symm⟩⟩
  · rintro ⟨⟨x, y⟩, h', h⟩
    exact ⟨x, y, (bound?_eq_some_iff.mp h').2, (bound?_eq_some_iff.mp h).2⟩

end Equation

namespace EqualGroup

open Equation (bound?_eq_some_iff bind_same_iff)

variable {t : Store α} {params : ParamList} {dragged : List Int} {groups : List EqualGroup}

/-! ## Pairs that come again -/

/-- What is collected without a failure has no pair twice. -/
theorem collect_nodup : ∀ {l : List (Equation α)} {pairs found : List (Int × Int)}
    {l' : List (Equation α)}, collect s pairs l = (.ok found, l') → pairs.Nodup → found.Nodup
  | [], pairs, found, l', h, nodup => by
    cases h
    exact nodup
  | e :: l, pairs, found, l', h, nodup => by
    unfold collect at h
    split at h
    next =>
      simp only [Prod.mk.injEq] at h
      exact collect_nodup (Prod.ext h.1 rfl) nodup
    next pair _ =>
      split at h
      next => simp at h
      next new =>
        simp only [Prod.mk.injEq] at h
        exact collect_nodup (Prod.ext h.1 rfl) (List.concat_eq_append ▸ nodup.concat new)

/-- Collecting fails at an equation that binds a pair again, and no pair comes twice before it. -/
theorem collect_error : ∀ {l : List (Equation α)} {pairs : List (Int × Int)} {r : Redundant}
    {l' : List (Equation α)}, collect s pairs l = (.error r, l') → pairs.Nodup →
    ∃ before e after, l = before ++ e :: after ∧ e.bound? s = some (r.first, r.second) ∧
      (r.first, r.second) ∈ pairs ++ before.filterMap (·.bound? s) ∧
      (pairs ++ before.filterMap (·.bound? s)).Nodup
  | [], pairs, r, l', h, _ => by simp [collect] at h
  | e :: l, pairs, r, l', h, nodup => by
    unfold collect at h
    split at h
    next unbound =>
      simp only [Prod.mk.injEq] at h
      obtain ⟨before, e', after, rfl, bound, again, rest⟩ := collect_error (Prod.ext h.1 rfl) nodup
      refine ⟨e :: before, e', after, rfl, bound, ?_⟩
      rw [List.filterMap_cons_none unbound]
      exact ⟨again, rest⟩
    next pair bound =>
      split at h
      next known =>
        simp only [Prod.mk.injEq, Except.error.injEq] at h
        obtain ⟨rfl, _⟩ := h
        exact ⟨[], e, l, rfl, bound, by simpa using known, by simpa using nodup⟩
      next new =>
        simp only [Prod.mk.injEq] at h
        obtain ⟨before, e', after, rfl, bound', again, rest⟩ :=
          collect_error (Prod.ext h.1 rfl) (List.concat_eq_append ▸ nodup.concat new)
        refine ⟨e :: before, e', after, rfl, bound', ?_⟩
        rw [List.filterMap_cons_some bound, List.append_cons]
        exact ⟨again, rest⟩

/-- No pair comes twice exactly when no two equations bind the same ids. -/
theorem nodup_bound_iff {l : List (Equation α)} (ordered : l.Pairwise fun e e' => e.id < e'.id) :
    (l.filterMap (·.bound? s)).Nodup ↔ ∀ e ∈ l, ∀ e' ∈ l, e.id < e'.id →
      ¬ ∃ x y, e.Binds s x y ∧ e'.Binds s x y := by
  rw [List.Nodup, List.pairwise_filterMap, IdList.pairwise_iff_of_ascending ordered]
  simp only [bind_same_iff]
  constructor
  · rintro differ e he e' he' lt ⟨pair, found, found'⟩
    exact differ e he e' he' lt pair found pair found' rfl
  · rintro differ e he e' he' lt pair found _ found' rfl
    exact differ e he e' he' lt ⟨pair, found, found'⟩

/-- The pair that is told, its smaller id first, is that of the first equation, by id, that binds
again what an earlier one binds. -/
structure FirstRepeat (s : Store α) (equations : EquationList α) (r : Redundant) : Prop where
  smaller : r.first ≤ r.second
  first : ∃ e ∈ equations.toList, e.Binds s r.first r.second ∧ e.Repeats s equations ∧
    ∀ e' ∈ equations.toList, e'.Repeats s equations → e.id ≤ e'.id

/-- The equation at which collecting fails is the first that repeats a pair. -/
theorem firstRepeat_of_collect {r : Redundant} {l' : List (Equation α)}
    (ordered : IdList.Sorted Equation.id equations)
    (failed : collect s [] equations.toList = (.error r, l')) : FirstRepeat s equations r := by
  obtain ⟨before, e, after, split, bound, again, nodup⟩ := collect_error failed List.nodup_nil
  rw [List.nil_append] at again nodup
  unfold IdList.Sorted at ordered
  rw [split, List.pairwise_append, List.pairwise_cons] at ordered
  obtain ⟨early, ⟨late, _⟩, across⟩ := ordered
  have mem_before : ∀ e' ∈ equations.toList, e'.id < e.id → e' ∈ before := by
    intro e' mem lt
    rw [split, List.mem_append, List.mem_cons] at mem
    rcases mem with mem | rfl | mem
    · exact mem
    · exact absurd lt (Int.lt_irrefl _)
    · have := late e' mem
      omega
  obtain ⟨e', mem', bound'⟩ := List.mem_filterMap.mp again
  obtain ⟨smaller, binds⟩ := bound?_eq_some_iff.mp bound
  refine ⟨smaller, e, by rw [split]; simp, binds, ⟨e', ?_, ?_, _, _,
    (bound?_eq_some_iff.mp bound').2, binds⟩, fun e₁ mem₁ repeats => Int.not_lt.mp fun lt => ?_⟩
  · rw [split]
    exact List.mem_append_left _ mem'
  · exact across e' mem' e List.mem_cons_self
  · -- both equations would stand before the first failure, where all pairs differ
    obtain ⟨e₂, mem₂, lt₂, same⟩ := repeats
    exact (nodup_bound_iff early).mp nodup e₂ (mem_before e₂ mem₂ (by omega)) e₁
      (mem_before e₁ mem₁ lt) lt₂ same

/-- Merging fails exactly when two equations bind the same ids. -/
theorem merge_error_iff (ordered : IdList.Sorted Equation.id equations) (params : ParamList)
    (dragged : List Int) :
    (∃ r, (merge s params equations dragged).1 = .error r) ↔
      ∃ e ∈ equations.toList, ∃ e' ∈ equations.toList, e.id ≠ e'.id ∧
        ∃ x y, e.Binds s x y ∧ e'.Binds s x y := by
  unfold merge
  cases collected : collect s [] equations.toList with
  | mk result l =>
    cases result with
    | error r =>
      obtain ⟨_, e, mem, _, ⟨e', mem', lt, x, y, binds', binds⟩, _⟩ :=
        firstRepeat_of_collect ordered collected
      exact ⟨fun _ => ⟨e, mem, e', mem', Int.ne_of_gt lt, x, y, binds, binds'⟩, fun _ => ⟨r, rfl⟩⟩
    | ok found =>
      have nodup := collect_nodup collected List.nodup_nil
      rw [(collect_ok collected).1, List.nil_append, nodup_bound_iff ordered] at nodup
      simp only [reduceCtorEq, exists_false, false_iff]
      rintro ⟨e, mem, e', mem', ne, x, y, binds, binds'⟩
      rcases Int.lt_or_gt_of_ne ne with lt | gt
      · exact nodup e mem e' mem' lt ⟨x, y, binds, binds'⟩
      · exact nodup e' mem' e mem gt ⟨x, y, binds', binds⟩

/-! ## Groups -/

/-- Some equation binds two ids. -/
def Bound (s : Store α) (equations : EquationList α) (x y : Int) : Prop :=
  ∃ e ∈ equations.toList, e.Binds s x y

/-- The groups are the classes of the bound ids, in the equivalence that the equations generate. -/
structure Classifies (s : Store α) (equations : EquationList α) (dragged : List Int)
    (groups : List EqualGroup) : Prop where
  /-- Two ids are in one group exactly when they are bound and related. -/
  classes : ∀ x y, (∃ g ∈ groups, x ∈ g.members ∧ y ∈ g.members) ↔
    (∃ z, Bound s equations x z) ∧ EqvGen (Bound s equations) x y
  /-- No id is in two groups, nor is a group listed twice. -/
  apart : groups.Pairwise fun g g' => ∀ x ∈ g.members, x ∉ g'.members
  ascending : ∀ g ∈ groups, g.members.Pairwise (· < ·)
  represented : ∀ g ∈ groups, g.representative ∈ g.members
  /-- A group with a dragged member is represented by a dragged one. -/
  dragged : ∀ g ∈ groups, (∃ x ∈ g.members, x ∈ dragged) → g.representative ∈ dragged

/-- The equivalence of the pairs found is that of the ids bound. -/
theorem eqvGen_paired_iff :
    EqvGen (Paired (equations.toList.filterMap (·.bound? s))) x y ↔
      EqvGen (Bound s equations) x y := by
  have paired : ∀ {x y}, Paired (equations.toList.filterMap (·.bound? s)) x y ↔
      x ≤ y ∧ Bound s equations x y := by
    intro x y
    unfold Paired Bound
    simp only [List.mem_filterMap, bound?_eq_some_iff]
    exact ⟨fun ⟨e, mem, le, binds⟩ => ⟨le, e, mem, binds⟩,
      fun ⟨le, e, mem, binds⟩ => ⟨e, mem, le, binds⟩⟩
  constructor
  · exact fun related => related.mono fun x y h => (paired.mp h).2
  · intro related
    refine (EqvGen.is_equivalence _).eqvGen_iff.mp (related.mono fun x y bound => ?_)
    rcases Int.le_total x y with le | le
    · exact .rel x y (paired.mpr ⟨le, bound⟩)
    · obtain ⟨e, mem, binds⟩ := bound
      exact (EqvGen.rel y x (paired.mpr ⟨le, e, mem, binds.symm⟩)).symm _ _

/-- An id comes in a pair exactly when an equation binds it. -/
theorem mentioned_iff :
    (∃ pair ∈ equations.toList.filterMap (·.bound? s), x = pair.1 ∨ x = pair.2) ↔
      ∃ z, Bound s equations x z := by
  simp only [List.mem_filterMap, Prod.exists]
  constructor
  · rintro ⟨a, b, ⟨e, mem, found⟩, rfl | rfl⟩
    · exact ⟨b, e, mem, (bound?_eq_some_iff.mp found).2⟩
    · exact ⟨a, e, mem, (bound?_eq_some_iff.mp found).2.symm⟩
  · rintro ⟨z, e, mem, binds⟩
    rcases Int.le_total x z with le | le
    · exact ⟨x, z, ⟨e, mem, bound?_eq_some_iff.mpr ⟨le, binds⟩⟩, Or.inl rfl⟩
    · exact ⟨z, x, ⟨e, mem, bound?_eq_some_iff.mpr ⟨le, binds.symm⟩⟩, Or.inr rfl⟩

/-- The groups that are made of the bound pairs are the classes of the equations. -/
theorem classifies_ofPairs (s : Store α) (equations : EquationList α) (dragged : List Int) :
    Classifies s equations dragged
      (ofPairs dragged (equations.toList.filterMap (·.bound? s))) where
  classes x y := by rw [mem_members_iff, mentioned_iff, eqvGen_paired_iff]
  apart := pairwise_ofPairs dragged _
  ascending _ hg := ascending_of_mem_ofPairs hg
  represented _ hg := representative_mem hg
  dragged _ hg := fun ⟨_, mem, held⟩ => representative_dragged hg mem held

/-! ## Parameters -/

/-- Every listed member of a group but its representative is eliminated in favour of that one, and
every other parameter is as before. -/
structure Eliminates (params : ParamList) (groups : List EqualGroup) (s t : Store α) : Prop where
  eliminated : ∀ g ∈ groups, ∀ k ∈ params.toList, s.id k ∈ g.members →
    s.id k ≠ g.representative → t.get k = (s.get k).eliminated g.representative
  kept : ∀ k, (∀ g ∈ groups, k ∈ params.toList → s.id k ∈ g.members →
    s.id k = g.representative) → t.get k = s.get k

/-- Applying the groups eliminates all members but the representatives. -/
theorem eliminates_ofPairs (listed : IdList.Sorted s.id params) (dragged : List Int)
    (pairs : List (Int × Int)) :
    Eliminates params (ofPairs dragged pairs) s
      ((ofPairs dragged pairs).foldl (apply params) s) where
  eliminated _ hg _ mem member ne := get_represented listed hg
    (fun _ hg' member' => ofPairs_disjoint hg' hg member' member) mem member ne
  kept _ passed := get_unrepresented listed passed

/-! ## Merging -/

/-- **Merging computes exactly the classes of equal parameters.** It fails if and only if two
equations bind the same ids, tells the first such pair, and changes no parameter then. -/
theorem merge_yields_classes (listed : IdList.Sorted s.id params)
    (ordered : IdList.Sorted Equation.id equations) (dragged : List Int) :
    ((∃ r, (merge s params equations dragged).1 = .error r) ↔
      ∃ e ∈ equations.toList, ∃ e' ∈ equations.toList, e.id ≠ e'.id ∧
        ∃ x y, e.Binds s x y ∧ e'.Binds s x y) ∧
    match merge s params equations dragged with
    | (.error r, _, t) => FirstRepeat s equations r ∧ t = s
    | (.ok groups, es, t) =>
      Classifies s equations dragged groups ∧ Eliminates params groups s t ∧
        es.toList = equations.toList.map (·.marked) := by
  refine ⟨merge_error_iff ordered params dragged, ?_⟩
  split
  next r es t merged =>
    unfold merge at merged
    split at merged
    next failed =>
      cases merged
      exact ⟨firstRepeat_of_collect ordered failed, rfl⟩
    next => simp at merged
  next groups es t merged =>
    obtain ⟨rfl, marked, rfl⟩ := merge_ok merged
    exact ⟨classifies_ofPairs s equations dragged, eliminates_ofPairs listed dragged _, marked⟩

/-- Four parameters. -/
def fourParams : Store Int :=
  ⟨#[{ id := 1, value := 0, symbol := "x" }, { id := 2, value := 5, symbol := "y" },
    { id := 3, value := 2, symbol := "z" }, { id := 4, value := 7, symbol := "r" }]⟩

/-- Two equations link three of the parameters, and a third one is no difference of two. -/
def linkedParams : EquationList Int :=
  ⟨#[{ id := 1, expr := (Expr.param ⟨0⟩).minus (.param ⟨1⟩) },
    { id := 2, expr := (Expr.param ⟨2⟩).minus (.param ⟨1⟩) },
    { id := 3, expr := (Expr.param ⟨3⟩).minus (.const 1) }]⟩

/-- Two equations in a chain make a group of three, represented by the one that is dragged. -/
theorem merge_linkedParams :
    IdList.Sorted fourParams.id ⟨#[⟨0⟩, ⟨1⟩, ⟨2⟩, ⟨3⟩]⟩ ∧
      IdList.Sorted Equation.id linkedParams ∧
      Classifies fourParams linkedParams [3] [⟨3, [1, 2, 3]⟩] := by
  have listed : IdList.Sorted fourParams.id ⟨#[⟨0⟩, ⟨1⟩, ⟨2⟩, ⟨3⟩]⟩ := by
    simp [IdList.Sorted, IdList.toList, fourParams, Store.id, Store.get]
  have ordered : IdList.Sorted Equation.id linkedParams := by
    simp [IdList.Sorted, IdList.toList, linkedParams]
  have spec := (merge_yields_classes listed ordered [3]).2
  have groups : (merge fourParams ⟨#[⟨0⟩, ⟨1⟩, ⟨2⟩, ⟨3⟩]⟩ linkedParams [3]).1 =
      .ok [⟨3, [1, 2, 3]⟩] := by rfl
  generalize merge fourParams _ linkedParams [3] = out at spec groups
  obtain ⟨_, es, t⟩ := out
  subst groups
  exact ⟨listed, ordered, spec.1⟩

end EqualGroup

end SketchSolver
