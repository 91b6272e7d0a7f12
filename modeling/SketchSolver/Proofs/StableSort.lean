/-!
# Sorting is stable

`mergeSort` by a numeric key keeps the items of one key in their order. A list that is sorted
by the key is determined by its items of each key (`eq_of_classes`), so leaving items out
before or after sorting makes no difference (`filter_mergeSort`), and taking the items key by
key gives the list again (`flatMap_classes`).

The keys are the codes of the kinds of constraints, and many constraints have the same one. A
sort that is not stable would number equations differently from one preparation to the next.
What stability is used for is to compare two lists that were put together in different orders:
they are sorted to the same list if for each key they have the same items in the same order.

That sorting permutes and that it sorts are known of `mergeSort`; what is added here is the
order among items of one key, as an equation about filtering (`class_mergeSort`).
-/

namespace SketchSolver

variable {β : Type} {key : β → Nat}

/-- Two lists that are sorted by a key are equal when they have the same items of each key, in the same
order. -/
theorem eq_of_classes : ∀ {xs ys : List β}, xs.Pairwise (fun x y => key x ≤ key y) →
    ys.Pairwise (fun x y => key x ≤ key y) →
    (∀ k, xs.filter (fun x => key x = k) = ys.filter fun x => key x = k) → xs = ys
  | [], [], _, _, _ => rfl
  | [], y :: ys, _, _, same => by
    have := same (key y)
    simp at this
  | x :: xs, [], _, _, same => by
    have := same (key x)
    simp at this
  | x :: xs, y :: ys, sortedx, sortedy, same => by
    have lex : key y ≤ key x := by
      have : x ∈ (y :: ys).filter fun z => key z = key x := by
        rw [← same (key x)]
        simp
      have mem := (List.mem_filter.mp this).1
      rcases List.mem_cons.mp mem with rfl | mem
      · exact Nat.le_refl _
      · exact (List.pairwise_cons.mp sortedy).1 x mem
    have ley : key x ≤ key y := by
      have : y ∈ (x :: xs).filter fun z => key z = key y := by
        rw [same (key y)]
        simp
      have mem := (List.mem_filter.mp this).1
      rcases List.mem_cons.mp mem with rfl | mem
      · exact Nat.le_refl _
      · exact (List.pairwise_cons.mp sortedx).1 y mem
    have eq : key x = key y := Nat.le_antisymm ley lex
    -- the first items have one key, so they head the same class
    have heads := same (key x)
    rw [List.filter_cons_of_pos (by simp), List.filter_cons_of_pos (by simp [eq])] at heads
    obtain ⟨rfl, _⟩ := List.cons.inj heads
    rw [eq_of_classes (List.pairwise_cons.mp sortedx).2 (List.pairwise_cons.mp sortedy).2 ?_]
    intro k
    have classes := same k
    rw [List.filter_cons, List.filter_cons] at classes
    split at classes
    next => exact (List.cons.inj classes).2
    next => exact classes

theorem key_trans (a b c : β) (ab : decide (key a ≤ key b) = true)
    (bc : decide (key b ≤ key c) = true) : decide (key a ≤ key c) = true :=
  decide_eq_true (Nat.le_trans (of_decide_eq_true ab) (of_decide_eq_true bc))

theorem key_total (a b : β) : (decide (key a ≤ key b) || decide (key b ≤ key a)) = true := by
  rw [Bool.or_eq_true, decide_eq_true_eq, decide_eq_true_eq]
  exact Nat.le_total _ _

theorem sorted_mergeSort (xs : List β) :
    (xs.mergeSort fun x y => key x ≤ key y).Pairwise fun x y => key x ≤ key y :=
  (List.pairwise_mergeSort key_trans key_total xs).imp fun le => of_decide_eq_true le

/-- The items of one key keep their order. -/
theorem class_mergeSort (xs : List β) (k : Nat) :
    (xs.mergeSort fun x y => key x ≤ key y).filter (fun x => key x = k) =
      xs.filter fun x => key x = k := by
  have level : (xs.filter fun x => key x = k).Pairwise fun x y => decide (key x ≤ key y) := by
    refine List.pairwise_iff_getElem.mpr fun i j hi hj _ => ?_
    have atI := (List.mem_filter.mp (List.getElem_mem hi)).2
    have atJ := (List.mem_filter.mp (List.getElem_mem hj)).2
    simp only [decide_eq_true_eq] at atI atJ ⊢
    omega
  have sub := (List.sublist_mergeSort key_trans key_total level List.filter_sublist).filter
    fun x => key x = k
  rw [List.filter_filter] at sub
  simp only [Bool.and_self] at sub
  exact (sub.eq_of_length ((List.mergeSort_perm xs _).filter _).length_eq.symm).symm

/-- **Leaving out items commutes with sorting.** -/
theorem filter_mergeSort (test : β → Bool) (xs : List β) :
    (xs.mergeSort fun x y => key x ≤ key y).filter test =
      (xs.filter test).mergeSort fun x y => key x ≤ key y := by
  refine eq_of_classes ((sorted_mergeSort xs).sublist List.filter_sublist) (sorted_mergeSort _) ?_
  intro k
  have swap : ∀ zs : List β, (zs.filter test).filter (fun x => key x = k) =
      (zs.filter fun x => key x = k).filter test := fun zs => by
    rw [List.filter_filter, List.filter_filter]
    exact congrArg (zs.filter ·) (funext fun x => Bool.and_comm _ _)
  rw [class_mergeSort, swap, class_mergeSort, swap]

/-- **A list that is sorted by a key is its items key by key.** -/
theorem flatMap_classes {xs : List β} (sorted : xs.Pairwise fun x y => key x ≤ key y) :
    ∀ n : Nat, ((List.range n).flatMap fun k => xs.filter fun x => key x = k) =
      xs.filter fun x => key x < n
  | 0 => by simp
  | n + 1 => by
    rw [List.range_succ, List.flatMap_append, flatMap_classes sorted n, List.flatMap_singleton]
    induction xs with
    | nil => rfl
    | cons x xs ih =>
      obtain ⟨first, sorted⟩ := List.pairwise_cons.mp sorted
      have ih := ih sorted
      by_cases below : key x < n
      · rw [List.filter_cons_of_pos (by simpa using below),
          List.filter_cons_of_neg (by simpa using Nat.ne_of_lt below),
          List.filter_cons_of_pos (by simpa using Nat.lt_succ_of_lt below), List.cons_append, ih]
      · -- what comes later is not below either
        have none : xs.filter (fun y => key y < n) = [] := by
          refine List.filter_eq_nil_iff.mpr fun y mem => ?_
          have := first y mem
          simp only [decide_eq_true_eq]
          omega
        rw [none, List.nil_append] at ih
        rw [List.filter_cons_of_neg (by simpa using below), none, List.nil_append,
          List.filter_cons, List.filter_cons, ih]
        have same : (key x = n) = (key x < n + 1) := propext (by omega)
        simp only [same]

end SketchSolver
