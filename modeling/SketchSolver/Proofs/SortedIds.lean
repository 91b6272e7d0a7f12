import SketchSolver.IdList

/-!
# Lists in the order of their ids

`Sorted key l` says that the ids ascend strictly along a list, under the keys of the moment.
In a sorted list the binary search is exact: `find?_eq_some_iff` (an item is found if and only
if it is there under that id), and `insert?` refuses an item exactly when its id is taken
(`insert?_eq_none_iff`), and else keeps the list sorted (`insert?_sorted`). Seen through
`find?`, insertion and removal change what is under one id only (`find?_insert?`,
`find?_remove?`).

Even in a list that is out of order the search never lies (`find?_some`): it may miss an item,
but what it finds is there and has the id.

The search halves a window of positions, and what it keeps is that the id sought is not below
that of the first position, unless the window begins at the start of the list, and that it is
below all ids behind the window (`narrow_spec`). At the end one position is left, and the id
there is compared with the one that was sought. This gives either the position of the item or the one where it would go
(`position_occupied`, `position_vacant`), and the rest of the module does not look at the
search again.

The key is a parameter of every statement. It is a function of the item for equations, and of
the item and a store for parameters; a list of parameters that was sorted under one store may
not be so under another. `Sorted.congr` is the condition for it to stay sorted, and
`find?_congr` for a look-up to give the same.

The largest id is that of the last item, or zero where that is larger. So it is not below zero
even if all ids are, and an id above it is positive (`maxId_nonneg`).
-/

namespace SketchSolver.IdList

variable {β : Type} {key : β → Int} {l l' : IdList β} {id : Int} {x y : β}

/-- The ids ascend strictly along the list. -/
def Sorted (key : β → Int) (l : IdList β) : Prop := l.toList.Pairwise fun x y => key x < key y

theorem sorted_empty : Sorted key (empty : IdList β) := List.Pairwise.nil

theorem Sorted.lt (sorted : Sorted key l) {i j : Nat} (lt : i < j) (bound : j < l.items.size) :
    key l.items[i] < key l.items[j] := by
  have := List.pairwise_iff_getElem.mp sorted i j (by simpa [toList] using Nat.lt_trans lt bound)
    (by simpa [toList] using bound) lt
  simpa [toList] using this

/-- A position that is not earlier has no smaller id. -/
theorem Sorted.le (sorted : Sorted key l) {i j : Nat} (le : i ≤ j) (bound : j < l.items.size) :
    key l.items[i] ≤ key l.items[j] := by
  rcases Nat.lt_or_eq_of_le le with lt | rfl
  · exact Int.le_of_lt (sorted.lt lt bound)
  · exact Int.le_refl _

/-- Two items of a sorted list with one id are the same item. -/
theorem Sorted.eq_of_key_eq (sorted : Sorted key l) (hx : x ∈ l.toList) (hy : y ∈ l.toList)
    (eq : key x = key y) : x = y := by
  obtain ⟨i, hi, rfl⟩ := List.mem_iff_getElem.mp hx
  obtain ⟨j, hj, rfl⟩ := List.mem_iff_getElem.mp hy
  rcases Nat.lt_trichotomy i j with lt | rfl | lt
  · have := List.pairwise_iff_getElem.mp sorted i j hi hj lt
    omega
  · rfl
  · have := List.pairwise_iff_getElem.mp sorted j i hj hi lt
    omega

theorem Sorted.nodup (sorted : Sorted key l) : l.toList.Nodup := by
  refine List.Pairwise.imp ?_ sorted
  intro x y lt eq
  rw [eq] at lt
  exact Int.lt_irrefl _ lt

/-- The ids of a sorted list differ. -/
theorem Sorted.nodup_keys (sorted : Sorted key l) : (l.toList.map key).Nodup := by
  unfold List.Nodup
  rw [List.pairwise_map]
  exact List.Pairwise.imp (fun lt => Int.ne_of_lt lt) sorted

/-- Other keys that agree on the items sort the list as well. -/
theorem Sorted.congr {key' : β → Int} (sorted : Sorted key l)
    (agree : ∀ x ∈ l.toList, key' x = key x) : Sorted key' l := by
  refine List.Pairwise.imp_of_mem ?_ sorted
  intro x y hx hy lt
  rw [agree x hx, agree y hy]
  exact lt

/-- In ascending order, what holds between earlier and later items is what holds between those with
smaller and with larger ids. -/
theorem pairwise_iff_of_ascending {xs : List β} {R : β → β → Prop}
    (ascending : xs.Pairwise fun x y => key x < key y) :
    xs.Pairwise R ↔ ∀ x ∈ xs, ∀ y ∈ xs, key x < key y → R x y := by
  rw [List.pairwise_iff_getElem] at ascending ⊢
  constructor
  · intro related x hx y hy lt
    obtain ⟨i, hi, rfl⟩ := List.mem_iff_getElem.mp hx
    obtain ⟨j, hj, rfl⟩ := List.mem_iff_getElem.mp hy
    rcases Nat.lt_trichotomy i j with before | rfl | after
    · exact related i j hi hj before
    · exact absurd lt (Int.lt_irrefl _)
    · have := ascending j i hj hi after
      omega
  · intro related i j hi hj before
    exact related _ (List.getElem_mem hi) _ (List.getElem_mem hj) (ascending i j hi hj before)

/-! ## The search -/

/-- The window shrinks around the last position whose id is at most the one sought. -/
theorem narrow_spec (sorted : Sorted key l) {base size : Nat} {bound : base + size ≤ l.items.size}
    {pos : 0 < size} {i : Fin l.items.size} (h : narrow key l.items id base size bound pos = i)
    (below : base = 0 ∨ key l.items[base] ≤ id)
    (above : ∀ j (hj : j < l.items.size), base + size ≤ j → id < key l.items[j]) :
    ((i : Nat) = 0 ∨ key l.items[(i : Nat)] ≤ id) ∧
      ∀ j (hj : j < l.items.size), (i : Nat) < j → id < key l.items[j] := by
  rw [narrow] at h
  split at h
  next more =>
    split at h
    next le => exact narrow_spec sorted h (Or.inr le) fun j hj hle => above j hj (by omega)
    next gt =>
      -- the id in the middle is too large already, and those after it are larger
      refine narrow_spec sorted h below fun j hj hle => ?_
      have := sorted.le (show base + size / 2 ≤ j by omega) hj
      omega
  next single =>
    subst h
    exact ⟨below, fun j hj lt => above j hj (by simp only at lt; omega)⟩
termination_by size

/-- An occupied position holds an item with the id, in any list. -/
theorem position_occupied {i : Nat} (h : l.position key id = .occupied i) :
    ∃ bound : i < l.items.size, key l.items[i] = id := by
  unfold position at h
  split at h
  next pos =>
    simp only at h
    split at h
    next eq =>
      cases h
      exact ⟨(narrow key l.items id 0 l.items.size (by omega) pos).isLt, eq⟩
    next => split at h <;> simp at h
  next => simp at h

/-- A vacant position of a sorted list lies between the smaller and the larger ids. -/
theorem position_vacant (sorted : Sorted key l) {i : Nat} (h : l.position key id = .vacant i) :
    i ≤ l.items.size ∧ (∀ j (hj : j < l.items.size), j < i → key l.items[j] < id) ∧
      ∀ j (hj : j < l.items.size), i ≤ j → id < key l.items[j] := by
  unfold position at h
  split at h
  next pos =>
    obtain ⟨k, narrowed⟩ : ∃ k, narrow key l.items id 0 l.items.size (by omega) pos = k :=
      ⟨_, rfl⟩
    obtain ⟨below, above⟩ := narrow_spec sorted narrowed (Or.inl rfl) fun j hj hle => by omega
    have hk := k.isLt
    simp only [narrowed, Fin.getElem_fin] at h
    split at h
    next => simp at h
    next ne =>
      split at h
      next lt =>
        cases h
        refine ⟨by omega, fun j hj hji => ?_, fun j hj hij => above j hj (by omega)⟩
        have := sorted.le (show j ≤ k by omega) hk
        exact Int.lt_of_le_of_lt this lt
      next ge =>
        cases h
        have zero : (k : Nat) = 0 := by
          rcases below with zero | le
          · exact zero
          · omega
        refine ⟨by omega, fun j hj hji => by omega, fun j hj hij => ?_⟩
        rcases Nat.eq_or_lt_of_le hij with eq | lt
        · subst eq
          omega
        · exact above j hj lt
  next empty =>
    cases h
    exact ⟨Nat.zero_le _, fun j hj => by omega, fun j hj => by omega⟩

/-! ## Look-ups -/

/-- What is found is in the list and has the id, whatever the order of the list. -/
theorem find?_some (h : l.find? key id = some x) : x ∈ l.toList ∧ key x = id := by
  unfold find? at h
  split at h
  next i hi =>
    obtain ⟨bound, eq⟩ := position_occupied hi
    rw [Array.getElem?_eq_getElem bound, Option.some.injEq] at h
    subst h
    exact ⟨by simp [toList], eq⟩
  next => simp at h

/-- In a sorted list no item has an id with a vacant place. -/
theorem key_ne_of_vacant (sorted : Sorted key l) {i : Nat} (pos : l.position key id = .vacant i)
    (mem : x ∈ l.toList) : key x ≠ id := by
  obtain ⟨k, hk, rfl⟩ := List.mem_iff_getElem.mp mem
  obtain ⟨_, below, above⟩ := position_vacant sorted pos
  have hk' : k < l.items.size := by simpa [toList] using hk
  simp only [toList, Array.getElem_toList]
  rcases Nat.lt_or_ge k i with lt | ge
  · have := below k hk' lt
    omega
  · have := above k hk' ge
    omega

/-- In a sorted list an item is found exactly under its own id. -/
theorem find?_eq_some_iff (sorted : Sorted key l) :
    l.find? key id = some x ↔ x ∈ l.toList ∧ key x = id := by
  refine ⟨find?_some, fun ⟨mem, eq⟩ => ?_⟩
  cases pos : l.position key id with
  | occupied i =>
    obtain ⟨bound, eq'⟩ := position_occupied pos
    have same : l.items[i] = x :=
      sorted.eq_of_key_eq (by simp [toList]) mem (eq'.trans eq.symm)
    unfold find?
    rw [pos]
    simp only
    rw [Array.getElem?_eq_getElem bound, same]
  | vacant i => exact absurd eq (key_ne_of_vacant sorted pos mem)

/-- A listed item is found under its id. -/
theorem find?_key (sorted : Sorted key l) (mem : x ∈ l.toList) :
    l.find? key (key x) = some x := (find?_eq_some_iff sorted).mpr ⟨mem, rfl⟩

/-- In a sorted list nothing is found exactly when no item has the id. -/
theorem find?_eq_none_iff (sorted : Sorted key l) :
    l.find? key id = none ↔ ∀ x ∈ l.toList, key x ≠ id := by
  constructor
  · intro none x mem eq
    rw [(find?_eq_some_iff sorted).mpr ⟨mem, eq⟩] at none
    simp at none
  · intro absent
    cases found : l.find? key id with
    | none => rfl
    | some x =>
      obtain ⟨mem, eq⟩ := find?_some found
      exact absurd eq (absent x mem)

/-! ## Insertion -/

/-- Inserting an item cuts the list in two. -/
theorem insertIdx_eq_take_drop (x : β) {xs : List β} {i : Nat} (le : i ≤ xs.length) :
    xs.insertIdx i x = xs.take i ++ x :: xs.drop i := by
  induction xs generalizing i with
  | nil =>
    obtain rfl : i = 0 := Nat.le_zero.mp le
    rfl
  | cons y ys ih =>
    cases i with
    | zero => rfl
    | succ i =>
      rw [List.insertIdx_succ_cons, ih (Nat.le_of_succ_le_succ le)]
      rfl

/-- Where an item with a new id goes: after the smaller ids and before the larger ones. -/
theorem insert?_some (sorted : Sorted key l) (h : l.insert? key x = some l') :
    ∃ i, l'.toList = l.toList.take i ++ x :: l.toList.drop i ∧
      (∀ y ∈ l.toList.take i, key y < key x) ∧ ∀ y ∈ l.toList.drop i, key x < key y := by
  unfold insert? at h
  split at h
  next => simp at h
  next i hi =>
    obtain ⟨le, below, above⟩ := position_vacant sorted hi
    simp only [Option.some.injEq] at h
    subst h
    refine ⟨i, ?_, fun y hy => ?_, fun y hy => ?_⟩
    · simp only [toList, Array.insertIdxIfInBounds, le, dif_pos, Array.toList_insertIdx]
      exact insertIdx_eq_take_drop _ (by simpa using le)
    · obtain ⟨j, hj, rfl⟩ := List.mem_iff_getElem.mp hy
      simp only [List.length_take, toList, Array.length_toList] at hj
      simp only [List.getElem_take, toList, Array.getElem_toList]
      exact below j (by omega) (by omega)
    · obtain ⟨j, hj, rfl⟩ := List.mem_iff_getElem.mp hy
      simp only [List.length_drop, toList, Array.length_toList] at hj
      simp only [List.getElem_drop, toList, Array.getElem_toList]
      exact above (i + j) (by omega) (by omega)

/-- Whatever the order of the list, what is inserted is all that is new. -/
theorem mem_of_mem_insert? (h : l.insert? key x = some l') (mem : y ∈ l'.toList) :
    y = x ∨ y ∈ l.toList := by
  unfold insert? at h
  split at h
  next => simp at h
  next i _ =>
    simp only [Option.some.injEq] at h
    subst h
    rw [toList, Array.mem_toList_iff, Array.insertIdxIfInBounds] at mem
    split at mem
    next le =>
      refine ((Array.mem_insertIdx (h := le)).mp mem).imp_right fun old => ?_
      exact Array.mem_toList_iff.mpr old
    next => exact Or.inr (Array.mem_toList_iff.mpr mem)

theorem insert?_sorted (sorted : Sorted key l) (h : l.insert? key x = some l') :
    Sorted key l' := by
  obtain ⟨i, eq, below, above⟩ := insert?_some sorted h
  unfold Sorted at sorted ⊢
  rw [← List.take_append_drop i l.toList, List.pairwise_append] at sorted
  obtain ⟨left, right, across⟩ := sorted
  rw [eq, List.pairwise_append, List.pairwise_cons]
  refine ⟨left, ⟨above, right⟩, fun y hy z hz => ?_⟩
  rcases List.mem_cons.mp hz with rfl | hz
  · exact below y hy
  · exact across y hy z hz

theorem mem_insert? (sorted : Sorted key l) (h : l.insert? key x = some l') :
    y ∈ l'.toList ↔ y = x ∨ y ∈ l.toList := by
  obtain ⟨i, eq, _, _⟩ := insert?_some sorted h
  rw [eq, List.mem_append, List.mem_cons]
  conv => rhs; rw [← List.take_append_drop i l.toList, List.mem_append]
  exact or_left_comm

/-- An item is refused exactly when its id is taken. -/
theorem insert?_eq_none_iff (sorted : Sorted key l) :
    l.insert? key x = none ↔ ∃ y ∈ l.toList, key y = key x := by
  unfold insert?
  cases pos : l.position key (key x) with
  | occupied i =>
    obtain ⟨bound, eq⟩ := position_occupied pos
    simp only [true_iff]
    exact ⟨l.items[i], by simp [toList], eq⟩
  | vacant i =>
    simp only [reduceCtorEq, false_iff]
    rintro ⟨y, mem, eq⟩
    exact key_ne_of_vacant sorted pos mem eq

/-- An item with the largest id goes to the end. -/
theorem insert?_last (sorted : Sorted key l) (largest : ∀ y ∈ l.toList, key y < key x) :
    l.insert? key x = some ⟨l.items.push x⟩ := by
  unfold insert?
  cases pos : l.position key (key x) with
  | occupied i =>
    obtain ⟨bound, eq⟩ := position_occupied pos
    have := largest l.items[i] (by simp [toList])
    omega
  | vacant i =>
    obtain ⟨le, _, above⟩ := position_vacant sorted pos
    have last : i = l.items.size := by
      refine Nat.le_antisymm le (Nat.le_of_not_lt fun lt => ?_)
      have h₁ := above i lt (Nat.le_refl i)
      have h₂ := largest l.items[i] (by simp [toList])
      omega
    subst last
    simp [Array.insertIdxIfInBounds, Array.insertIdx_size_self]

/-- What is found after an insertion: the new item under its id, and all others as before. -/
theorem find?_insert? (sorted : Sorted key l) (h : l.insert? key x = some l') (id : Int) :
    l'.find? key id = if id = key x then some x else l.find? key id := by
  refine Option.ext fun y => ?_
  rw [find?_eq_some_iff (insert?_sorted sorted h), mem_insert? sorted h]
  split
  next eq =>
    subst eq
    constructor
    · rintro ⟨rfl | mem, same⟩
      · rfl
      · -- an item with the id of the new one would have been refused
        have free : l.insert? key x ≠ none := by rw [h]; exact Option.some_ne_none l'
        exact absurd ((insert?_eq_none_iff sorted).mpr ⟨y, mem, same⟩) free
    · rintro ⟨rfl⟩
      exact ⟨Or.inl rfl, rfl⟩
  next ne =>
    rw [find?_eq_some_iff sorted]
    constructor
    · rintro ⟨rfl | mem, same⟩
      · exact absurd same.symm ne
      · exact ⟨mem, same⟩
    · rintro ⟨mem, same⟩
      exact ⟨Or.inr mem, same⟩

/-! ## Removal -/

/-- Nothing is removed exactly when nothing is found. -/
theorem remove?_eq_none_iff : l.remove? key id = none ↔ l.find? key id = none := by
  unfold remove? find?
  split
  next => rw [Option.map_eq_none_iff]
  next => exact iff_of_true rfl rfl

/-- What is removed is what was found, and the others stay in their order. -/
theorem remove?_some (h : l.remove? key id = some (x, l')) :
    l.find? key id = some x ∧
      ∃ before after, l.toList = before ++ x :: after ∧ l'.toList = before ++ after := by
  unfold remove? at h
  unfold find?
  split at h
  next i occupied =>
    rw [Option.map_eq_some_iff] at h
    obtain ⟨_, found, eq⟩ := h
    cases eq
    obtain ⟨bound, here⟩ := Array.getElem?_eq_some_iff.mp found
    refine ⟨found, l.toList.take i, l.toList.drop (i + 1), ?_, ?_⟩
    · rw [← here, toList, ← Array.getElem_toList, List.getElem_cons_drop, List.take_append_drop]
    · rw [toList, Array.eraseIdxIfInBounds, dif_pos bound, Array.toList_eraseIdx,
        List.eraseIdx_eq_take_drop_succ]
      rfl
  next => exact absurd h (by simp)

/-- Removing an item keeps the list sorted. -/
theorem remove?_sorted (sorted : Sorted key l) (h : l.remove? key id = some (x, l')) :
    Sorted key l' := by
  obtain ⟨-, before, after, whole, rest⟩ := remove?_some h
  unfold Sorted at sorted ⊢
  rw [whole] at sorted
  rw [rest]
  exact sorted.sublist (List.sublist_cons_self x after |>.append_left before)

/-- All items stay but the one with the id. -/
theorem mem_remove? (sorted : Sorted key l) (h : l.remove? key id = some (x, l')) :
    y ∈ l'.toList ↔ y ∈ l.toList ∧ key y ≠ id := by
  obtain ⟨found, before, after, whole, rest⟩ := remove?_some h
  have same := (find?_some found).2
  have others : ∀ z ∈ before ++ after, key z ≠ key x := by
    intro z mem eq
    have keys := sorted.nodup_keys
    rw [whole, (List.perm_middle.map key).nodup_iff, List.map_cons, List.nodup_cons] at keys
    exact keys.1 (eq ▸ List.mem_map_of_mem mem)
  rw [whole, rest, ← same]
  constructor
  · intro mem
    exact ⟨(List.mem_append.mp mem).elim (List.mem_append_left _)
      fun later => List.mem_append_right _ (List.mem_cons_of_mem x later), others y mem⟩
  · rintro ⟨mem, ne⟩
    rcases List.mem_append.mp mem with earlier | later
    · exact List.mem_append_left _ earlier
    · rcases List.mem_cons.mp later with rfl | later
      · exact absurd rfl ne
      · exact List.mem_append_right _ later

/-- What is found after a removal: nothing under the id, and all others as before. -/
theorem find?_remove? (sorted : Sorted key l) (h : l.remove? key id = some (x, l')) (i : Int) :
    l'.find? key i = if i = id then none else l.find? key i := by
  refine Option.ext fun y => ?_
  rw [find?_eq_some_iff (remove?_sorted sorted h), mem_remove? sorted h]
  split
  next eq =>
    subst eq
    exact iff_of_false (fun ⟨⟨_, ne⟩, same⟩ => ne same) (by simp)
  next ne =>
    rw [find?_eq_some_iff sorted]
    constructor
    · rintro ⟨⟨mem, _⟩, same⟩
      exact ⟨mem, same⟩
    · rintro ⟨mem, same⟩
      exact ⟨⟨mem, fun eq => ne (same.symm.trans eq)⟩, same⟩

/-! ## The largest id -/

theorem le_maxId (sorted : Sorted key l) (mem : x ∈ l.toList) : key x ≤ l.maxId key := by
  obtain ⟨i, hi, rfl⟩ := List.mem_iff_getElem.mp mem
  have bound : i < l.items.size := by simpa [toList] using hi
  unfold maxId
  cases last : l.items.back? with
  | none =>
    rw [Array.back?_eq_none_iff] at last
    simp [last] at bound
  | some y =>
    rw [Array.back?_eq_getElem?] at last
    obtain ⟨bound', eq⟩ := Array.getElem?_eq_some_iff.mp last
    have le := sorted.le (show i ≤ l.items.size - 1 by omega) bound'
    rw [eq] at le
    simp only [toList, Array.getElem_toList]
    omega

theorem maxId_nonneg : 0 ≤ l.maxId key := by
  unfold maxId
  split
  next => exact Int.le_max_right _ _
  next => exact Int.le_refl 0

/-- The largest id is that of an item, unless it is zero. -/
theorem maxId_attained : l.maxId key = 0 ∨ ∃ x ∈ l.toList, key x = l.maxId key := by
  unfold maxId
  split
  next x last =>
    have mem : x ∈ l.toList := by
      rw [toList, Array.mem_toList_iff]
      exact Array.mem_of_back? last
    rcases Int.le_total (key x) 0 with below | above
    · exact Or.inl (Int.max_eq_right below)
    · exact Or.inr ⟨x, mem, (Int.max_eq_left above).symm⟩
  next => exact Or.inl rfl

/-! ## Other keys -/

/-- The search looks at keys alone. -/
theorem position_congr {key' : β → Int} (agree : ∀ x ∈ l.toList, key' x = key x) :
    l.position key' id = l.position key id := by
  have at' : ∀ (i : Nat) (h : i < l.items.size), key' l.items[i] = key l.items[i] :=
    fun i h => agree _ (by simp [toList])
  have window : ∀ base size bound pos,
      narrow key' l.items id base size bound pos = narrow key l.items id base size bound pos := by
    intro base size bound pos
    fun_induction narrow key l.items id base size bound pos with
    | case1 base size bound pos more le ih =>
      rw [narrow, dif_pos more, if_pos (by rw [at']; exact le)]
      exact ih
    | case2 base size bound pos more gt ih =>
      rw [narrow, dif_pos more, if_neg (by rw [at']; exact gt)]
      exact ih
    | case3 base size bound pos more => rw [narrow, dif_neg more]
  unfold position
  simp only [window, Fin.getElem_fin, at']

/-- A look-up depends on the keys of listed items only. -/
theorem find?_congr {key' : β → Int} (agree : ∀ x ∈ l.toList, key' x = key x) :
    l.find? key' id = l.find? key id := by
  unfold find?
  rw [position_congr agree]

end SketchSolver.IdList
