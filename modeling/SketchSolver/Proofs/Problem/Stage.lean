import SketchSolver.Proofs.Problem.Phases

/-!
# Between the groups of a solve

A solve settles equation after equation, each in a group of its own, and works on frozen
copies whose eliminated parameters are read through their stand-ins.
`Stage tolerance group p s` is what holds between two groups: every equation that was taken
by an earlier group has a residual below the tolerance at the values of the stand-ins, and
all its stand-ins are settled.

A later group moves one parameter that is not settled, so it disturbs none of these
equations. Merging starts the first stage (`stage_merge`), each equation solved alone leads
from one stage to the next (`Stage.step`), and so the whole chain of groups does
(`stage_solveAlonesFrom`).

The invariant has two halves, one about marks and one about residuals, and the first is what
the second is kept by. `Marked` says of listed parameters that tags are those of earlier
groups or the one for elimination, that what is settled was taken and not eliminated, and
that what is eliminated has a representative that is not. So a stand-in is well defined and
does not change from one group to the next, and a parameter that a group takes is not the
stand-in in an equation of an earlier group.

Equations that are differences of two parameters are used up by merging, and no group looks at
them again. About these the stage says that both sides have one stand-in
(`Stage.equal`), which is what makes them hold once values are written back.

The tags that stand for elimination and for being used up are out of the reach of group
numbers as long as there are at most 10000 groups. Beyond that the number of a group may be
one of these tags, and then the stage is false: what `Problem.Crowds` shows.
-/

namespace SketchSolver

open SketchSolver.Expr (standIn)

variable {α : Type} [Zero α]

/-- What is eliminated has a listed representative that is not eliminated itself. -/
def Represented (params : ParamList) (s : Store α) : Prop :=
  ∀ h ∈ params.toList, s.tag h = substitutedTag →
    ∃ r ∈ params.toList, s.id r = (s.get h).representative ∧ s.tag r ≠ substitutedTag

/-- A stand-in is not eliminated itself. -/
theorem Represented.tag_standIn {params : ParamList} {s : Store α} {h : Handle}
    (represented : Represented params s) (sorted : IdList.Sorted s.id params)
    (mem : h ∈ params.toList) : s.tag (standIn s params h) ≠ substitutedTag := by
  by_cases gone : s.tag h = substitutedTag
  · obtain ⟨r, memr, idr, kept⟩ := represented h mem gone
    rw [Expr.standIn_gone sorted mem (Param.isSubstituted_iff.mpr gone) memr idr]
    exact kept
  · rw [Expr.standIn_kept sorted mem (Param.not_isSubstituted_iff.mpr gone)]
    exact gone

/-- The marks on listed parameters before a group: tags are those of earlier groups, and what is
settled was taken by one of these. -/
structure Marked (group : Nat) (params : ParamList) (s : Store α) : Prop where
  low : ∀ h ∈ params.toList, s.tag h < group ∨ s.tag h = substitutedTag
  known : ∀ h ∈ params.toList, (s.get h).known = true → s.tag h ≠ 0 ∧ s.tag h ≠ substitutedTag
  represented : Represented params s

namespace Marked

variable {group : Nat} {params : ParamList} {s t : Store α} {h : Handle}

/-- Changing values alone keeps the marks. -/
theorem of_moved {hs : List Handle} (marked : Marked group params s)
    (moved : Store.Moved hs s t) : Marked group params t := by
  refine ⟨fun h mem => ?_, fun h mem known => ?_, fun h mem gone => ?_⟩
  · rw [moved.tag]
    exact marked.low h mem
  · rw [moved.known] at known
    rw [moved.tag]
    exact marked.known h mem known
  · rw [moved.tag] at gone
    obtain ⟨r, memr, idr, kept⟩ := marked.represented h mem gone
    refine ⟨r, memr, ?_, by rw [moved.tag]; exact kept⟩
    rw [moved.id, idr, moved.get h]

end Marked

/-- Moving parameters changes no stand-in. -/
theorem standIn_of_moved {params : ParamList} {s t : Store α} {hs : List Handle}
    (moved : Store.Moved hs s t) (h : Handle) : standIn t params h = standIn s params h := by
  refine Expr.standIn_of_marks moved.id (fun k _ => ?_) h
  rw [moved.get k]
  exact ⟨rfl, rfl⟩

/-! ## Groups -/

/-- All members of a group have the representative as their stand-in, and it is not eliminated. -/
theorem standIn_of_group {params : ParamList} {s : Store α} {groups : List EqualGroup}
    {g : EqualGroup} {h r : Handle} (sorted : IdList.Sorted s.id params)
    (disjoint : ∀ g ∈ groups, ∀ g' ∈ groups, ∀ x ∈ g.members, x ∈ g'.members → g = g')
    (own : ∀ k ∈ params.toList, (s.get k).isSubstituted = false)
    (hg : g ∈ groups) (memh : h ∈ params.toList) (member : s.id h ∈ g.members)
    (memr : r ∈ params.toList) (idr : s.id r = g.representative)
    (repr : g.representative ∈ g.members) :
    standIn (groups.foldl (EqualGroup.apply params) s) params h = r ∧
      (groups.foldl (EqualGroup.apply params) s).tag r ≠ substitutedTag := by
  have within := EqualGroup.foldl_apply_within params groups s
  have sorted' := EqualGroup.sorted_of_within sorted within
  have only : ∀ k, s.id k ∈ g.members → ∀ g' ∈ groups, s.id k ∈ g'.members → g' = g :=
    fun k mem g' hg' mem' => disjoint g' hg' g hg _ mem' mem
  -- the representative is a member of its own group alone, which passes it over
  have kept : (groups.foldl (EqualGroup.apply params) s).get r = s.get r := by
    refine EqualGroup.get_unrepresented sorted fun g' hg' _ mem' => ?_
    rw [only r (by rw [idr]; exact repr) g' hg' mem']
    exact idr
  refine ⟨?_, ?_⟩
  · by_cases eq : s.id h = g.representative
    · obtain rfl : h = r := sorted.eq_of_key_eq memh memr (eq.trans idr.symm)
      exact Expr.standIn_kept sorted' memh (by rw [kept]; exact own h memh)
    · have gone := EqualGroup.get_represented sorted hg (only h member) memh member eq
      refine Expr.standIn_gone sorted' memh ?_ memr ?_
      · rw [gone]
        rfl
      · rw [gone, within.id]
        exact idr
  · unfold Store.tag
    rw [kept]
    exact Param.not_isSubstituted_iff.mp (own r memr)

/-- The handles of an equation that binds a pair have the ids of the pair. -/
theorem bound?_of_difference {s : Store α} {e : Equation α} {a b : Handle}
    (difference : e.expr.paramDifference? = some (a, b)) :
    e.bound? s = some (min (s.id a) (s.id b), max (s.id a) (s.id b)) := by
  unfold Equation.bound?
  rw [difference]
  rfl

/-- Two ids are where the smaller and the larger of them are. -/
theorem mem_of_min_max {ids : List Int} {x y : Int} (least : min x y ∈ ids)
    (greatest : max x y ∈ ids) : x ∈ ids ∧ y ∈ ids := by
  rcases Int.le_total x y with le | le
  · rw [Int.min_eq_left le] at least
    rw [Int.max_eq_right le] at greatest
    exact ⟨least, greatest⟩
  · rw [Int.min_eq_right le] at least
    rw [Int.max_eq_left le] at greatest
    exact ⟨greatest, least⟩

/-- A parameter is eliminated by a group, or it is as before. -/
theorem eliminated_or_kept {params : ParamList} {s : Store α} {groups : List EqualGroup}
    {h : Handle} (sorted : IdList.Sorted s.id params)
    (disjoint : ∀ g ∈ groups, ∀ g' ∈ groups, ∀ x ∈ g.members, x ∈ g'.members → g = g')
    (mem : h ∈ params.toList) :
    (∃ g ∈ groups, (groups.foldl (EqualGroup.apply params) s).get h =
      (s.get h).eliminated g.representative) ∨
    (groups.foldl (EqualGroup.apply params) s).get h = s.get h := by
  by_cases gone : ∃ g ∈ groups, s.id h ∈ g.members ∧ s.id h ≠ g.representative
  · obtain ⟨g, hg, member, ne⟩ := gone
    exact Or.inl ⟨g, hg, EqualGroup.get_represented sorted hg
      (fun g' hg' member' => disjoint g' hg' g hg _ member' member) mem member ne⟩
  · refine Or.inr (EqualGroup.get_unrepresented sorted fun g hg _ member => ?_)
    exact Decidable.byContradiction fun ne => gone ⟨g, hg, member, ne⟩

/-- A member of a group of merged equations is a parameter that they mention. -/
theorem exists_of_member {s : Store α} {equations : EquationList α} {dragged : List Int}
    {g : EqualGroup} {x : Int}
    (hg : g ∈ EqualGroup.ofPairs dragged (equations.toList.filterMap (·.bound? s)))
    (member : x ∈ g.members) : ∃ e ∈ equations.toList, ∃ r ∈ e.expr.params, s.id r = x := by
  obtain ⟨pair, hpair, eq⟩ := EqualGroup.mem_of_mem_members hg member
  obtain ⟨e, he, bound⟩ := List.mem_filterMap.mp hpair
  obtain ⟨⟨a, b⟩, difference, rfl⟩ := Option.map_eq_some_iff.mp bound
  obtain ⟨mema, memb⟩ := Expr.mem_params_of_difference difference
  refine ⟨e, he, ?_⟩
  by_cases le : s.id a ≤ s.id b
  · simp only [Int.min_eq_left le, Int.max_eq_right le] at eq
    exact eq.elim (fun eq => ⟨a, mema, eq.symm⟩) fun eq => ⟨b, memb, eq.symm⟩
  · have le' : s.id b ≤ s.id a := by omega
    simp only [Int.min_eq_right le', Int.max_eq_left le'] at eq
    exact eq.elim (fun eq => ⟨b, memb, eq.symm⟩) fun eq => ⟨a, mema, eq.symm⟩

/-! ## What merging leaves -/

section Merge

variable {p : Problem α} {s t : Store α} {groups : List EqualGroup} {equations : EquationList α}

/-- Merging eliminates a parameter for a group, or leaves it as it is. -/
theorem get_merge {h : Handle} (sorted : IdList.Sorted s.id p.params)
    (merged : EqualGroup.merge s p.params p.equations p.dragged = (.ok groups, equations, t))
    (mem : h ∈ p.params.toList) :
    (∃ g ∈ groups, t.get h = (s.get h).eliminated g.representative) ∨ t.get h = s.get h := by
  obtain ⟨rfl, _, rfl⟩ := EqualGroup.merge_ok merged
  exact eliminated_or_kept sorted (fun _ hg _ hg' _ => EqualGroup.ofPairs_disjoint hg hg') mem

/-- One parameter stands for all of a merged group. -/
theorem exists_standIn_of_merge {g : EqualGroup} (ready : p.Ready s)
    (fresh : ∀ h ∈ p.params.toList, s.tag h = 0)
    (merged : EqualGroup.merge s p.params p.equations p.dragged = (.ok groups, equations, t))
    (hg : g ∈ groups) :
    ∃ r ∈ p.params.toList, s.id r = g.representative ∧ t.tag r ≠ substitutedTag ∧
      ∀ h ∈ p.params.toList, s.id h ∈ g.members → standIn t p.params h = r := by
  obtain ⟨rfl, _, rfl⟩ := EqualGroup.merge_ok merged
  have repr := EqualGroup.representative_mem hg
  obtain ⟨e, he, r, hr, idr⟩ := exists_of_member hg repr
  have memr := ready.listed e he r hr
  have all := fun h mem member => standIn_of_group (h := h) ready.sorted
    (fun _ hg _ hg' _ => EqualGroup.ofPairs_disjoint hg hg')
    (fun k mem => Store.kept_of_unmarked (fresh k mem)) hg mem member memr idr repr
  exact ⟨r, memr, idr, (all r memr (by rw [idr]; exact repr)).2, fun h mem member =>
    (all h mem member).1⟩

/-- Merging free parameters settles nothing, and takes nothing for a group. -/
theorem marked_merge (ready : p.Ready s)
    (fresh : ∀ h ∈ p.params.toList, s.tag h = 0 ∧ (s.get h).known = false)
    (merged : EqualGroup.merge s p.params p.equations p.dragged = (.ok groups, equations, t)) :
    Marked 1 p.params t := by
  have unmarked : ∀ h ∈ p.params.toList, s.tag h = 0 := fun h mem => (fresh h mem).1
  have within := EqualGroup.merge_within s p.params p.equations p.dragged
  rw [merged] at within
  refine ⟨fun h mem => ?_, fun h mem known => ?_, fun h mem gone => ?_⟩
  · unfold Store.tag
    rcases get_merge ready.sorted merged mem with ⟨g, _, eq⟩ | eq
    · rw [eq]
      exact Or.inr rfl
    · rw [eq]
      exact Or.inl (Nat.lt_one_iff.mpr (unmarked h mem))
  · have unsettled : (t.get h).known = false := by
      rcases get_merge ready.sorted merged mem with ⟨g, _, eq⟩ | eq
      · rw [eq]
        exact (fresh h mem).2
      · rw [eq]
        exact (fresh h mem).2
    rw [unsettled] at known
    simp at known
  · rcases get_merge ready.sorted merged mem with ⟨g, hg, eq⟩ | eq
    · obtain ⟨r, memr, idr, kept, _⟩ := exists_standIn_of_merge ready unmarked merged hg
      refine ⟨r, memr, ?_, kept⟩
      rw [within.id, idr, eq]
      rfl
    · unfold Store.tag at gone
      rw [eq] at gone
      exact absurd gone (Param.not_isSubstituted_iff.mp (Store.kept_of_unmarked (unmarked h mem)))

/-- Where merging has used up an equation, its two parameters have the same stand-in. -/
theorem standIn_eq_of_merge {e : Equation α} {a b : Handle} (ready : p.Ready s)
    (fresh : ∀ h ∈ p.params.toList, s.tag h = 0)
    (merged : EqualGroup.merge s p.params p.equations p.dragged = (.ok groups, equations, t))
    (he : e ∈ p.equations.toList) (difference : e.expr.paramDifference? = some (a, b)) :
    standIn t p.params a = standIn t p.params b := by
  -- the pair of the equation lies in one group
  obtain ⟨g, hg, mem₁, mem₂⟩ := EqualGroup.ofPairs_cover p.dragged
    (List.mem_filterMap.mpr ⟨e, he, bound?_of_difference difference⟩)
  rw [← (EqualGroup.merge_ok merged).1] at hg
  obtain ⟨mema, memb⟩ := Expr.mem_params_of_difference difference
  obtain ⟨r, _, _, _, stand⟩ := exists_standIn_of_merge ready fresh merged hg
  obtain ⟨ina, inb⟩ := mem_of_min_max mem₁ mem₂
  exact (stand a (ready.listed e he a mema) ina).trans
    (stand b (ready.listed e he b memb) inb).symm

end Merge

section Solve

variable [Add α] [Sub α] [Mul α] [Div α] [Neg α] [LT α] [DecidableLT α] [Elementary α]

/-- The residual of an equation is below the tolerance at the values of the stand-ins. -/
def Equation.HoldsAt (e : Equation α) (tolerance : α) (params : ParamList) (s : Store α) : Prop :=
  Scalar.abs (e.expr.eval fun h => s.value (standIn s params h)) < tolerance

/-- What holds between two groups of a solve. -/
structure Stage (tolerance : α) (group : Nat) (p : Problem α) (s : Store α) : Prop where
  pos : 0 < group
  ready : p.Ready s
  marked : Marked group p.params s
  low : ∀ e ∈ p.equations.toList, e.tag < group ∨ e.tag = usedUpTag
  usedUp : ∀ e ∈ p.equations.toList, e.tag = usedUpTag ↔ e.expr.paramDifference?.isSome
  equal : ∀ e ∈ p.equations.toList, ∀ a b, e.expr.paramDifference? = some (a, b) →
    standIn s p.params a = standIn s p.params b
  settled : ∀ e ∈ p.equations.toList, e.tag ≠ 0 → e.tag ≠ usedUpTag →
    (∀ h ∈ e.expr.params, (s.get (standIn s p.params h)).known = true) ∧
      e.HoldsAt tolerance p.params s

/-- An equation that was not used up is no difference of two parameters. -/
theorem Stage.not_difference {tolerance : α} {group : Nat} {p : Problem α} {s : Store α}
    {e : Equation α} (stage : Stage tolerance group p s) (he : e ∈ p.equations.toList)
    (kept : e.tag ≠ usedUpTag) : e.expr.paramDifference? = none :=
  Option.not_isSome_iff_eq_none.mp fun some => kept ((stage.usedUp e he).mpr some)

/-! ## Merging starts the first stage -/

variable {p : Problem α} {s t : Store α}

/-- **Merging free equations in free parameters starts the first stage.** -/
theorem stage_merge (tolerance : α) {groups : List EqualGroup} {equations : EquationList α}
    (ready : p.Ready s)
    (fresh : ∀ h ∈ p.params.toList, s.tag h = 0 ∧ (s.get h).known = false)
    (free : ∀ e ∈ p.equations.toList, e.tag = 0)
    (merged : EqualGroup.merge s p.params p.equations p.dragged = (.ok groups, equations, t)) :
    Stage tolerance 1 { p with equations } t := by
  have untagged := EqualGroup.merge_untagged s p.params p.equations p.dragged
  have within := EqualGroup.merge_within s p.params p.equations p.dragged
  rw [merged] at untagged within
  obtain ⟨_, marks, _⟩ := EqualGroup.merge_ok merged
  have ready' : Problem.Ready { p with equations } t :=
    ready.congr rfl (EquationList.exprs_of_untagged untagged) within.id
  -- after merging a tag tells whether the equation is a difference of parameters
  have tags : ∀ e ∈ equations.toList,
      e.tag = if e.expr.paramDifference?.isSome then usedUpTag else 0 := by
    intro e he
    rw [marks] at he
    obtain ⟨e₀, he₀, rfl⟩ := List.mem_map.mp he
    rw [Equation.marked_tag (free e₀ he₀), Equation.marked_expr]
  refine ⟨Nat.zero_lt_one, ready', marked_merge (p := p) ready fresh merged, fun e he => ?_,
    fun e he => ?_, fun e he a b difference => ?_, fun e he ne ne' => ?_⟩
  · rw [tags e he]
    split
    next => exact Or.inr rfl
    next => exact Or.inl Nat.zero_lt_one
  · rw [tags e he]
    split
    next some => exact iff_of_true rfl some
    next none => exact iff_of_false (by decide) none
  · obtain ⟨e₀, he₀, eq⟩ := EquationList.exists_of_untagged untagged.symm he
    rw [← Equation.expr_of_untagged eq] at difference
    exact standIn_eq_of_merge (p := p) ready (fun k mem => (fresh k mem).1) merged he₀ difference
  · rw [tags e he] at ne ne'
    split at ne'
    next => exact absurd rfl ne'
    next none =>
      rw [if_neg none] at ne
      exact absurd rfl ne

end Solve

end SketchSolver
