import SketchSolver.Proofs.Equality.ForestHistory
import SketchSolver.Proofs.Equality.PairGroups

/-!
# Groups as the classes of an equivalence

The roots of the forest depend on the order in which pairs are joined, and on the sizes that
classes have by then. Which ids share a root does not: two ids have the same root exactly when
the pairs relate them (`root_eq_iff`), in the equivalence that the pairs generate. So the
groups are the classes of the ids that pairs mention, whatever the order (`mem_members_iff`),
no id is listed twice (`pairwise_ofPairs`, `ascending_of_mem_ofPairs`), and a group with a
dragged member is represented by a dragged one (`representative_dragged`).

`Generated pairs f` is what joining pair after pair keeps. It puts together what the forest is
known to be after a union (`Represents`, a fact about forests) and which ids were entered
(`Joined`, a fact about pairs), and adds that the ids are listed in ascending order. Each of
the three is kept by its own lemma, so the step has nothing to prove but that they fit.

Two ids that no pair mentions are related only if they are equal, and each of them is a root
of its own in the forest. They are in no group, however, because a group is read off the ids
that were entered. So the statements about groups speak of mentioned ids, and the statement
about roots of all.

Nothing is said about which dragged member represents a group that has several. This depends
on roots, and so on the order of the pairs.
-/

namespace SketchSolver.EqualGroup

open Relation (EqvGen)
open Forest (Represents root_union root_root)

variable {pairs : List (Int × Int)} {f : Forest} {x y : Int}

/-- Two ids make one of the pairs. -/
def Paired (pairs : List (Int × Int)) (x y : Int) : Prop := (x, y) ∈ pairs

/-- The forest `f` relates the ids of `pairs`, and no others. -/
structure Generated (pairs : List (Int × Int)) (f : Forest) : Prop where
  joined : Joined pairs f
  represents : Represents (Paired pairs) f
  ascending : f.members.Pairwise (· < ·)

theorem generated_nil : Generated [] {} :=
  ⟨joined_nil, Forest.represents_empty.of_iff fun x y => by simp [Paired], List.Pairwise.nil⟩

/-- Joining one more pair relates its two ids. -/
theorem Generated.step (h : Generated pairs f) (a b : Int) :
    Generated (pairs ++ [(a, b)]) (((f.insert a).insert b).union a b) := by
  have entered := (h.represents.insert a).insert b
  obtain ⟨_, members, _⟩ := root_union entered.sound a b
  refine ⟨h.joined.step a b, (entered.union a b).of_iff ?_, ?_⟩
  · intro x y
    unfold Paired
    rw [List.mem_append, List.mem_singleton, Prod.mk.injEq]
  · rw [members]
    exact Ascending.pairwise_insert (Ascending.pairwise_insert h.ascending)

/-- Joining pair after pair. -/
theorem generated_foldl (pairs : List (Int × Int)) : ∀ (done : List (Int × Int)) (f : Forest),
    Generated done f →
    Generated (done ++ pairs)
      (pairs.foldl (fun f (a, b) => ((f.insert a).insert b).union a b) f) := by
  induction pairs with
  | nil =>
    intro done f h
    rw [List.append_nil]
    exact h
  | cons pair pairs ih =>
    intro done f h
    obtain ⟨a, b⟩ := pair
    rw [List.foldl_cons, List.append_cons]
    exact ih (done ++ [(a, b)]) _ (h.step a b)

/-- The forest of some pairs relates what they relate. -/
theorem generated_forest (pairs : List (Int × Int)) : Generated pairs (forest pairs) :=
  generated_foldl pairs [] {} generated_nil

/-- **Two ids share a root exactly when the pairs relate them.** -/
theorem root_eq_iff (pairs : List (Int × Int)) :
    (forest pairs).root x = (forest pairs).root y ↔ EqvGen (Paired pairs) x y :=
  (generated_forest pairs).represents.same x y

/-! ## The groups -/

variable {dragged : List Int} {g : EqualGroup}

/-- An id that is related to a mentioned one is mentioned too. -/
theorem mem_members_of_root (same : (forest pairs).root x = (forest pairs).root y)
    (mem : x ∈ (forest pairs).members) : y ∈ (forest pairs).members := by
  have joined := joined_forest pairs
  refine Decidable.byContradiction fun absent => absent ?_
  rw [← joined.alone y absent, ← same]
  exact joined.home x mem

/-- **Two ids are in one group exactly when pairs mention and relate them.** -/
theorem mem_members_iff (dragged : List Int) (pairs : List (Int × Int)) :
    (∃ g ∈ ofPairs dragged pairs, x ∈ g.members ∧ y ∈ g.members) ↔
      (∃ pair ∈ pairs, x = pair.1 ∨ x = pair.2) ∧ EqvGen (Paired pairs) x y := by
  have joined := joined_forest pairs
  constructor
  · rintro ⟨g, hg, hx, hy⟩
    obtain ⟨r, _, _, members, _⟩ := mem_ofPairs hg
    rw [members, List.mem_filter] at hx hy
    have same := (eq_of_beq hx.2).trans (eq_of_beq hy.2).symm
    exact ⟨(joined.mem x).mp hx.1, (root_eq_iff pairs).mp same⟩
  · rintro ⟨mentioned, related⟩
    have mem := (joined.mem x).mpr mentioned
    have same := (root_eq_iff pairs).mpr related
    refine ⟨_, List.mem_map.mpr ⟨_, mem_classes.mpr
      ⟨joined.home x mem, root_root joined.sound x, rfl⟩, rfl⟩, ?_, ?_⟩
    · exact List.mem_filter.mpr ⟨mem, beq_self_eq_true _⟩
    · exact List.mem_filter.mpr ⟨mem_members_of_root same mem, beq_iff_eq.mpr same.symm⟩

/-- The members of a group are listed in ascending order. -/
theorem ascending_of_mem_ofPairs (h : g ∈ ofPairs dragged pairs) :
    g.members.Pairwise (· < ·) := by
  obtain ⟨r, _, _, members, _⟩ := mem_ofPairs h
  rw [members]
  exact (generated_forest pairs).ascending.filter _

/-- The roots of the classes differ, and so no id is in two of them. -/
theorem pairwise_classes (nodup : f.members.Nodup) :
    f.classes.Pairwise fun c d => ∀ x ∈ c.2, x ∉ d.2 := by
  unfold Forest.classes
  simp only [List.filter_map, List.map_map, Function.comp_def, List.map_id']
  rw [List.pairwise_map]
  refine (nodup.filter _).imp fun {r r'} ne x hx hx' => ?_
  rw [List.mem_filter] at hx hx'
  exact ne ((eq_of_beq hx.2).symm.trans (eq_of_beq hx'.2))

/-- No id is in two groups, nor is a group listed twice. -/
theorem pairwise_ofPairs (dragged : List Int) (pairs : List (Int × Int)) :
    (ofPairs dragged pairs).Pairwise fun g g' => ∀ x ∈ g.members, x ∉ g'.members := by
  unfold ofPairs
  rw [List.pairwise_map]
  have nodup : (forest pairs).members.Nodup :=
    (generated_forest pairs).ascending.imp fun lt => Int.ne_of_lt lt
  exact pairwise_classes nodup

/-- The root represents its group when it is dragged, else the first dragged member does. -/
theorem representative_dragged (h : g ∈ ofPairs dragged pairs) (mem : x ∈ g.members)
    (held : x ∈ dragged) : g.representative ∈ dragged := by
  obtain ⟨r, _, _, _, eq⟩ := mem_ofPairs h
  rw [eq]
  unfold ofClass
  simp only
  split
  next root => exact root
  next =>
    cases found : g.members.find? (· ∈ dragged) with
    | none =>
      have := List.find?_eq_none.mp found x mem
      simp [held] at this
    | some y => simpa using List.find?_some found

end SketchSolver.EqualGroup
