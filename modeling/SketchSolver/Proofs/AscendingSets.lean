import SketchSolver.Ascending

/-!
# Members of ascending lists

A set is kept as an ascending list, but which members it has does not depend on the order of
the list that one is inserted into (`mem_insert`), only on the order being one in which any
two elements can be told apart. Inserting keeps an ascending list ascending
(`pairwise_insert`), and which of two members is inserted first makes no difference
(`insert_comm`). A new member can be taken out again (`filter_insert`).

The elements are ids of several sorts, and all that is needed of their order comes as an
instance: it is transitive and asymmetric, and of two different elements one is smaller. Each
section asks for as much as its lemmas use.

Two ascending lists with the same members are equal. So a set that was built in one order and
a set that was built in another can be compared with equality, which is what the order is kept
for, and a statement about a state after two operations need not say in which order they came.
-/

namespace SketchSolver.Ascending

variable {β : Type} [LT β] [DecidableLT β]

theorem mem_insert [Std.Trichotomous (α := β) (· < ·)] {x y : β} {set : List β} :
    y ∈ insert x set ↔ y = x ∨ y ∈ set := by
  induction set with
  | nil => simp [insert]
  | cons z zs ih =>
    unfold insert
    split
    next => exact List.mem_cons
    next notBelow =>
      split
      next =>
        rw [List.mem_cons, List.mem_cons, ih]
        exact or_left_comm
      next notAbove =>
        obtain rfl : x = z := Std.Trichotomous.trichotomous x z notBelow notAbove
        rw [List.mem_cons]
        exact ⟨Or.inr, fun h => h.elim Or.inl id⟩

/-- Inserting one member after the other adds all of them. -/
theorem mem_foldl_insert [Std.Trichotomous (α := β) (· < ·)] {y : β} (xs : List β)
    (set : List β) :
    y ∈ xs.foldl (fun set x => insert x set) set ↔ y ∈ xs ∨ y ∈ set := by
  induction xs generalizing set with
  | nil => simp
  | cons x xs ih =>
    rw [List.foldl_cons, ih, mem_insert, List.mem_cons, or_assoc]
    exact or_left_comm

/-- A set made of a list has its items as members. -/
theorem mem_ofList [Std.Trichotomous (α := β) (· < ·)] {y : β} {xs : List β} :
    y ∈ ofList xs ↔ y ∈ xs := by
  unfold ofList
  rw [mem_foldl_insert]
  simp

/-- A new member that is taken out again leaves the set as it was. -/
theorem filter_insert [DecidableEq β] {x : β} {set : List β} (new : x ∉ set) :
    (insert x set).filter (· ≠ x) = set := by
  have others : set.filter (· ≠ x) = set := by
    refine List.filter_eq_self.mpr fun y mem => ?_
    have ne : y ≠ x := fun same => new (same ▸ mem)
    simpa using ne
  have skip : ∀ ys : List β, (x :: ys).filter (· ≠ x) = ys.filter (· ≠ x) := fun ys =>
    List.filter_cons_of_neg (by simp)
  induction set with
  | nil => exact skip []
  | cons y ys ih =>
    unfold insert
    split
    next => rw [skip, others]
    next =>
      split
      next =>
        have ne : y ≠ x := fun same => new (same ▸ List.mem_cons_self)
        have new' : x ∉ ys := fun mem => new (List.mem_cons_of_mem _ mem)
        rw [List.filter_cons_of_pos (by simpa using ne)] at others ⊢
        rw [ih new' (List.cons.inj others).2]
      next => exact others

/-- The new member comes after the smaller ones and before the larger ones. -/
theorem pairwise_insert [Trans (α := β) (· < ·) (· < ·) (· < ·)]
    [Std.Trichotomous (α := β) (· < ·)] {x : β} {set : List β}
    (ascending : set.Pairwise (· < ·)) : (insert x set).Pairwise (· < ·) := by
  induction set with
  | nil => exact List.pairwise_singleton _ x
  | cons z zs ih =>
    obtain ⟨first, rest⟩ := List.pairwise_cons.mp ascending
    unfold insert
    split
    next below =>
      refine List.pairwise_cons.mpr ⟨fun y hy => ?_, ascending⟩
      rcases List.mem_cons.mp hy with rfl | hy
      · exact below
      · exact Trans.trans below (first y hy)
    next =>
      split
      next above =>
        refine List.pairwise_cons.mpr ⟨fun y hy => ?_, ih rest⟩
        rcases mem_insert.mp hy with rfl | hy
        · exact above
        · exact first y hy
      next => exact ascending

theorem insert_cons_of_lt {x z : β} (below : x < z) (zs : List β) :
    insert x (z :: zs) = x :: z :: zs := by
  rw [insert, if_pos below]

/-- Of two elements one is smaller, or they are equal. -/
theorem lt_or_eq_or_gt [Std.Trichotomous (α := β) (· < ·)] (x y : β) : x < y ∨ x = y ∨ y < x := by
  by_cases below : x < y
  · exact Or.inl below
  · by_cases above : y < x
    · exact Or.inr (Or.inr above)
    · exact Or.inr (Or.inl (Std.Trichotomous.trichotomous x y below above))

section Order

variable [Std.Asymm (α := β) (· < ·)]

theorem insert_cons_of_gt {x z : β} (above : z < x) (zs : List β) :
    insert x (z :: zs) = z :: insert x zs := by
  rw [insert, if_neg (Std.Asymm.asymm z x above), if_pos above]

theorem insert_cons_self (z : β) (zs : List β) : insert z (z :: zs) = z :: zs := by
  have irrefl : ¬ z < z := fun lt => Std.Asymm.asymm z z lt lt
  rw [insert, if_neg irrefl, if_neg irrefl]

variable [Trans (α := β) (· < ·) (· < ·) (· < ·)] [Std.Trichotomous (α := β) (· < ·)]

/-- The smaller of two members may be inserted first or last. -/
theorem insert_comm_of_lt {x y : β} (lt : x < y) (set : List β) :
    insert x (insert y set) = insert y (insert x set) := by
  induction set with
  | nil =>
    show insert x [y] = insert y [x]
    rw [insert_cons_of_lt lt, insert_cons_of_gt lt]
    rfl
  | cons z zs ih =>
    rcases lt_or_eq_or_gt y z with below | rfl | above
    · -- both come before the head
      have below' : x < z := Trans.trans lt below
      rw [insert_cons_of_lt below, insert_cons_of_lt lt, insert_cons_of_lt below',
        insert_cons_of_gt lt, insert_cons_of_lt below]
    · rw [insert_cons_self, insert_cons_of_lt lt, insert_cons_of_gt lt, insert_cons_self]
    · rw [insert_cons_of_gt above]
      rcases lt_or_eq_or_gt x z with below | rfl | above'
      · rw [insert_cons_of_lt below, insert_cons_of_lt below, insert_cons_of_gt lt,
          insert_cons_of_gt above]
      · rw [insert_cons_self, insert_cons_self, insert_cons_of_gt above]
      · rw [insert_cons_of_gt above', insert_cons_of_gt above', insert_cons_of_gt above, ih]

/-- Two members may be inserted in either order, into any list. -/
theorem insert_comm (x y : β) (set : List β) :
    insert x (insert y set) = insert y (insert x set) := by
  rcases lt_or_eq_or_gt x y with lt | rfl | gt
  · exact insert_comm_of_lt lt set
  · rfl
  · exact (insert_comm_of_lt gt set).symm

end Order

end SketchSolver.Ascending
