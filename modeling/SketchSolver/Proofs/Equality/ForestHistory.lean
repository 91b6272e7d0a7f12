import Mathlib.Data.Finset.Card
import Mathlib.Logic.Relation
import SketchSolver.Proofs.Equality.ForestRoots

/-!
# Histories of a forest

Ids are entered, united and looked up in any order, also ids that were never entered.
`Represents R f` says what the forest `f` is then: without cycles, with two ids below one root
exactly when `R` generates their equivalence, and with the number of ids noted at the root of
every class (`Sized`). Each step keeps it (`Step.represents`), a union for the relation with
one more pair, and so it holds after every history (`represents_history`).

A look-up follows links that it changes on its way. `Climbs` is this loop without a bound on
its steps; it ends, and where `find` says (`climbs_iff`). The bound in `find` is the number of
links, and a sound forest never needs more steps than it has links. So the bound is not a
restriction, and what is proved about `find` holds of the loop that stops only at a root.

The size noted at a root is the number of all integers below it, entered or not; an id that
was never entered and never united is a class of one. What is noted for an id that is no root
is out of date and nobody reads it. `Sized` is therefore about roots alone, and keeping it
takes two facts about a union: the classes of the two roots are disjoint, and no other class
changes.

The relation is what histories are about from the outside, a list of pairs that were united.
Which root a class has depends on the history in all its detail, and no statement tells it;
all that can be said is that it is one of the class, and the same for all of it. The main
statement is `roots_after_history`.
-/

namespace SketchSolver.Forest

open Relation (EqvGen)

variable {f g : Forest} {p q r x y : Int} {R R' : Int → Int → Prop}

/-! ## The climb without a bound -/

/-- The climb from `p` in `f` ends at `r`, and leaves `g`. -/
inductive Climbs : Forest → Int → Int → Forest → Prop where
  | here {f : Forest} {p : Int} (top : f.parent p = p) : Climbs f p p f
  | up {f g : Forest} {p r : Int} (below : f.parent p ≠ p)
      (rest : Climbs (f.link p (f.parent (f.parent p))) (f.parent (f.parent p)) r g) :
      Climbs f p r g

theorem Climbs.unique {r' : Int} {g' : Forest} (h : Climbs f p r g) (h' : Climbs f p r' g') :
    r = r' ∧ g = g' := by
  induction h with
  | here top =>
    cases h' with
    | here => exact ⟨rfl, rfl⟩
    | up below => exact absurd top below
  | up below _ ih =>
    cases h' with
    | here top => exact absurd top below
    | up _ rest => exact ih rest

/-- With enough fuel the bound does not show. -/
theorem climbs_climb {rank : Int → Nat} : ∀ (fuel : Nat) (f : Forest) (p : Int), Ranked f rank →
    f.links.length < fuel + rank p → Climbs f p (climb fuel f p).1 (climb fuel f p).2 := by
  intro fuel
  induction fuel with
  | zero =>
    intro f p h enough
    have := h.bound p
    omega
  | succ fuel ih =>
    intro f p h enough
    unfold climb
    split
    next top => exact .here top
    next below =>
      obtain ⟨higher, ranked, _⟩ := h.halve below
      have length := h.length_link_of_below (q := f.parent (f.parent p)) below
      exact .up below (ih _ _ ranked (by omega))

/-- **The climb ends**, at the root that is found and with the forest that is left then. -/
theorem climbs_iff (h : Sound f) (p r : Int) (g : Forest) :
    Climbs f p r g ↔ f.find p = (r, g) := by
  obtain ⟨rank, ranked⟩ := h
  have ends : Climbs f p (f.find p).1 (f.find p).2 :=
    climbs_climb (f.links.length + 1) f p ranked (by omega)
  constructor
  · intro climbs
    obtain ⟨root, rest⟩ := ends.unique climbs
    exact Prod.ext root rest
  · intro found
    rw [found] at ends
    exact ends

/-! ## Sizes -/

/-- At every root the number of ids is noted that have this root. -/
def Sized (f : Forest) : Prop :=
  ∀ r, f.root r = r → ∃ ids : Finset Int, (∀ x, x ∈ ids ↔ f.root x = r) ∧ f.size r = ids.card

/-- An id is a root if it is its own. -/
theorem root_eq_self_of_top (h : Sound f) (top : f.parent r = r) : f.root r = r :=
  root_eq_of_leads h (.root top)

/-- Roots and sizes are all that matters. -/
theorem Sized.congr (sized : Sized f) (root : ∀ x, g.root x = f.root x)
    (sizes : g.sizes = f.sizes) : Sized g := by
  intro r top
  rw [root] at top
  obtain ⟨ids, mem, count⟩ := sized r top
  refine ⟨ids, ?_, ?_⟩
  · intro x
    rw [root]
    exact mem x
  · unfold size at count ⊢
    rw [sizes]
    exact count

/-- Joining adds up two sizes at the new root and leaves all others. -/
theorem size_join (f : Forest) (c r x : Int) :
    (f.join c r).size x = if x = r then f.size r + f.size c else f.size x := by
  unfold join
  show (((r, f.size r + f.size c) :: f.sizes).lookup x).getD 1 = _
  rw [List.lookup_cons]
  by_cases eq : x = r
  · rw [eq, beq_self_eq_true, if_pos rfl]
    rfl
  · rw [beq_eq_false_iff_ne.mpr eq, if_neg eq]
    rfl

/-- The sizes of two classes add up when they become one. -/
theorem Sized.join {c r : Int} (sound : Sound f) (sized : Sized f) (topC : f.parent c = c)
    (topR : f.parent r = r) (ne : c ≠ r) : Sized (f.join c r) := by
  obtain ⟨_, root⟩ := join_spec sound topC topR ne
  obtain ⟨idsC, memC, countC⟩ := sized c (root_eq_self_of_top sound topC)
  obtain ⟨idsR, memR, countR⟩ := sized r (root_eq_self_of_top sound topR)
  intro t top
  by_cases eq : t = r
  · subst eq
    -- the new root has the ids of both classes, which have none in common
    refine ⟨idsR ∪ idsC, ?_, ?_⟩
    · intro x
      rw [Finset.mem_union, memR, memC, root]
      by_cases inC : f.root x = c
      · simp [inC]
      · simp [inC]
    · have apart : Disjoint idsR idsC := by
        rw [Finset.disjoint_left]
        intro x inR inC
        exact ne (((memC x).mp inC).symm.trans ((memR x).mp inR))
      rw [size_join, if_pos rfl, Finset.card_union_of_disjoint apart, countR, countC]
  · -- any other class is as it was
    have other : f.root t ≠ c := by
      intro moved
      rw [root, if_pos moved] at top
      exact eq top.symm
    rw [root, if_neg other] at top
    obtain ⟨ids, mem, count⟩ := sized t top
    refine ⟨ids, ?_, ?_⟩
    · intro x
      rw [mem, root]
      by_cases inC : f.root x = c
      · rw [if_pos inC]
        constructor
        · intro inT
          exact absurd (top.trans (inT.symm.trans inC)) other
        · intro inT
          exact absurd inT.symm eq
      · rw [if_neg inC]
    · rw [size_join, if_neg eq]
      exact count

theorem Sized.union (sound : Sound f) (sized : Sized f) (p q : Int) : Sized (f.union p q) := by
  rcases union_cases sound p q with ⟨_, short⟩ | ⟨g, c, r, short, topC, topR, ne, _, union⟩
  · exact sized.congr (short.root sound) short.sizes
  · rw [union]
    exact (sized.congr (short.root sound) short.sizes).join short.sound topC topR ne

/-! ## What a forest represents -/

/-- The classes of the forest are those of the equivalence that a relation generates. -/
structure Represents (R : Int → Int → Prop) (f : Forest) : Prop where
  sound : Sound f
  same : ∀ x y, f.root x = f.root y ↔ EqvGen R x y
  sized : Sized f

/-- What is equal for related ids is equal throughout a class. -/
theorem eq_of_eqvGen {v : Int → Int} (agree : ∀ x y, R x y → v x = v y)
    (related : EqvGen R x y) : v x = v y :=
  (eq_equivalence.comap v).eqvGen_iff.mp (related.mono agree)

/-- In the empty forest every id is its own root. -/
theorem root_empty (x : Int) : ({} : Forest).root x = x := root_eq_self_of_top sound_empty rfl

/-- At first every id is a class of its own. -/
theorem represents_empty : Represents (fun _ _ => False) {} where
  sound := sound_empty
  same x y := by
    rw [root_empty, root_empty]
    constructor
    · intro eq
      exact eq ▸ .refl x
    · intro related
      exact eq_of_eqvGen (v := id) (fun _ _ none => none.elim) related
  sized r _ := by
    refine ⟨{r}, ?_, rfl⟩
    intro x
    rw [Finset.mem_singleton, root_empty]

namespace Represents

/-- It does not matter how the relation is written. -/
theorem of_iff (h : Represents R f) (iff : ∀ x y, R x y ↔ R' x y) : Represents R' f := by
  have eq : R = R' := funext fun x => funext fun y => propext (iff x y)
  exact eq ▸ h

/-- Where sizes and roots are the same, the same is represented. -/
theorem of_root (h : Represents R f) (sound : Sound g) (root : ∀ x, g.root x = f.root x)
    (sizes : g.sizes = f.sizes) : Represents R g := by
  refine ⟨sound, ?_, h.sized.congr root sizes⟩
  intro x y
  rw [root, root]
  exact h.same x y

theorem insert (h : Represents R f) (p : Int) : Represents R (f.insert p) :=
  h.of_root (sound_insert h.sound p) (root_insert h.sound p) rfl

theorem find (h : Represents R f) (p : Int) : Represents R (f.find p).2 := by
  obtain ⟨_, short⟩ := find_spec h.sound p
  exact h.of_root short.sound (short.root h.sound) short.sizes

/-- A union adds one pair to the relation. -/
theorem union (h : Represents R f) (p q : Int) :
    Represents (fun x y => R x y ∨ x = p ∧ y = q) (f.union p q) := by
  obtain ⟨sound, _, w, hw, root⟩ := root_union h.sound p q
  refine ⟨sound, ?_, h.sized.union h.sound p q⟩
  have old : ∀ {x y}, f.root x = f.root y → EqvGen (fun x y => R x y ∨ x = p ∧ y = q) x y := by
    intro x y eq
    exact ((h.same x y).mp eq).mono fun _ _ rel => Or.inl rel
  have new : EqvGen (fun x y => R x y ∨ x = p ∧ y = q) p q := .rel p q (Or.inr ⟨rfl, rfl⟩)
  have merged : ∀ {x}, f.root x = f.root p ∨ f.root x = f.root q →
      EqvGen (fun x y => R x y ∨ x = p ∧ y = q) x p := by
    intro x inside
    rcases inside with inP | inQ
    · exact old inP
    · exact (old inQ).trans _ _ _ (new.symm _ _)
  -- the common root is one of the two before, so it is below neither from the outside
  have apart : ∀ {x}, ¬(f.root x = f.root p ∨ f.root x = f.root q) → f.root x ≠ w := by
    intro x outside eq
    rcases hw with rfl | rfl
    · exact outside (Or.inl eq)
    · exact outside (Or.inr eq)
  intro x y
  rw [root, root]
  constructor
  · intro eq
    by_cases inX : f.root x = f.root p ∨ f.root x = f.root q
    · by_cases inY : f.root y = f.root p ∨ f.root y = f.root q
      · exact (merged inX).trans _ _ _ ((merged inY).symm _ _)
      · rw [if_pos inX, if_neg inY] at eq
        exact absurd eq.symm (apart inY)
    · by_cases inY : f.root y = f.root p ∨ f.root y = f.root q
      · rw [if_neg inX, if_pos inY] at eq
        exact absurd eq (apart inX)
      · rw [if_neg inX, if_neg inY] at eq
        exact old eq
  · refine eq_of_eqvGen (v := fun x => if f.root x = f.root p ∨ f.root x = f.root q then w else
      f.root x) ?_
    intro x y rel
    rcases rel with rel | ⟨rfl, rfl⟩
    · simp only [(h.same x y).mpr (.rel x y rel)]
    · simp only [true_or, or_true, if_true]

end Represents

/-! ## Histories -/

/-- What can be done to a forest. -/
inductive Step where
  | insert (p : Int)
  | union (p q : Int)
  | find (p : Int)

/-- The forest after a step. -/
def Step.apply (f : Forest) : Step → Forest
  | insert p => f.insert p
  | union p q => f.union p q
  | find p => (f.find p).2

/-- The forest after several steps from the empty one. -/
def history (steps : List Step) : Forest := steps.foldl Step.apply {}

/-- One step. -/
theorem Step.represents (h : Represents R f) (step : Step) :
    Represents (fun x y => R x y ∨ step = .union x y) (step.apply f) := by
  cases step with
  | insert p => exact (h.insert p).of_iff fun x y => by simp
  | union p q =>
    refine (h.union p q).of_iff ?_
    intro x y
    rw [Step.union.injEq, eq_comm (a := p), eq_comm (a := q)]
  | find p => exact (h.find p).of_iff fun x y => by simp

/-- Several steps. -/
theorem represents_foldl (steps : List Step) : ∀ {f : Forest} {R : Int → Int → Prop},
    Represents R f →
    Represents (fun x y => R x y ∨ Step.union x y ∈ steps) (steps.foldl Step.apply f) := by
  induction steps with
  | nil =>
    intro f R h
    exact h.of_iff fun x y => by simp
  | cons step steps ih =>
    intro f R h
    refine (ih (step.represents h)).of_iff ?_
    intro x y
    rw [List.mem_cons, or_assoc, eq_comm (a := step)]

/-- **A history of steps represents its unions.** -/
theorem represents_history (steps : List Step) :
    Represents (fun x y => Step.union x y ∈ steps) (history steps) :=
  (represents_foldl steps represents_empty).of_iff fun x y => by simp

/-- **After any history the forest knows the classes of its unions.** From every id the climb ends
at the root above it; two ids have the same root exactly when the unions relate them; a look-up
changes the root of no id; and at the root of a class of several ids their number is stored. -/
theorem roots_after_history (steps : List Step) :
    (∀ p, Climbs (history steps) p ((history steps).find p).1 ((history steps).find p).2 ∧
      Leads (history steps) p ((history steps).find p).1) ∧
    (∀ p q, ((history steps).find p).1 = ((history steps).find q).1 ↔
      EqvGen (fun x y => Step.union x y ∈ steps) p q) ∧
    (∀ p x, (((history steps).find p).2.find x).1 = ((history steps).find x).1) ∧
    ∀ p q, p ≠ q → ((history steps).find p).1 = ((history steps).find q).1 →
      ∃ ids : Finset Int,
        (∀ x, x ∈ ids ↔ ((history steps).find x).1 = ((history steps).find p).1) ∧
        (history steps).sizes.lookup ((history steps).find p).1 = some ids.card := by
  have h := represents_history steps
  refine ⟨?_, h.same, ?_, ?_⟩
  · intro p
    exact ⟨(climbs_iff h.sound p _ _).mpr rfl, leads_root h.sound p⟩
  · intro p x
    exact (find_spec h.sound p).2.root h.sound x
  · intro p q ne same
    obtain ⟨ids, mem, count⟩ := h.sized _ (root_root h.sound p)
    refine ⟨ids, mem, ?_⟩
    -- where nothing is stored the size counts as one, and this class has two ids
    have two : 1 < ids.card :=
      Finset.one_lt_card.mpr ⟨p, (mem p).mpr rfl, q, (mem q).mpr same.symm, ne⟩
    unfold size at count
    cases stored : (history steps).sizes.lookup ((history steps).root p) with
    | none =>
      rw [stored] at count
      simp only [Option.getD_none] at count
      omega
    | some n =>
      rw [stored] at count
      exact stored.trans (congrArg some count)

/-- Two pairs are united, and then a member of each. -/
example : (history [.union 1 2, .union 3 4, .union 1 3]).size 4 = 4 := by decide

end SketchSolver.Forest
