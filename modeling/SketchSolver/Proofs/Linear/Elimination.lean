import SketchSolver.Proofs.Linear.Vectors

/-!
# Elimination finds the only solution

Over an exact field with an order, removing one unknown keeps the solutions: a list of values
satisfies a system exactly if its first value is the one that the pivot row gives, and the
others satisfy the reduced rows (`forall_holds_cons_iff`). So the values that `solve` returns
are the only solution (`solveFrom_ok`), and the matrix is invertible.

What one round of the elimination does is said once: with a coefficient other than zero there
is a pivot row, and only its size is compared with the threshold (`solveFrom_pivot`); without
one the round fails (`solveFrom_flat`). An invertible matrix has a pivot in every round, so it
is solved under every small threshold (`exists_solveFrom`).

The elimination works on lists of rows, and in each round the list is one row shorter and each
row one coefficient. The statements are about such lists, `Square n rows`, and by induction on
`n`; matrices come in at the end, where `system` writes one as a list of rows. In this way no
index has to be shifted. Rows are exchanged, so a statement about a system must not depend on
their order: it is about all rows of the list, and a permutation is all that has to be known
of an exchange (`exchange_perm`).

That a matrix is invertible is said in the same terms, as `Faithful`: zeros alone make all
left-hand sides zero. A round keeps this, and a faithful system has a pivot.

Failure is the converse. If the largest coefficient is below the threshold, then either it is
zero and the matrix is singular, or the threshold was too large for the matrix. The number
that an error tells is that of the rounds before (`solveFrom_error`).

Nothing here holds of doubles, for which a reduced row has rounding errors.
-/

namespace SketchSolver

/-- The absolute value that is computed is that of the order. -/
theorem Scalar.abs_eq_abs {K : Type} [Field K] [LinearOrder K] [IsStrictOrderedRing K] (x : K) :
    Scalar.abs x = |x| := by
  unfold Scalar.abs
  split
  next neg => exact (abs_of_neg neg).symm
  next nonneg => exact (abs_of_nonneg (not_lt.mp nonneg)).symm

namespace Linear

variable {K : Type} [Field K] {n : Nat} {x : K} {xs : List K} {r pivot : Row K}
variable {rows others : List (Row K)}

/-- Values of the unknowns satisfy a row. -/
def Row.Holds (r : Row K) (xs : List K) : Prop := dot r.coeffs xs = r.rhs

/-- As many rows as unknowns, each with a coefficient for every unknown. -/
structure Square (n : Nat) (rows : List (Row K)) : Prop where
  length : rows.length = n
  wide : ∀ r ∈ rows, r.coeffs.length = n

/-- The rows of a matrix with their right-hand sides. -/
def system {m : Nat} (A : Matrix (Fin m) (Fin n) K) (b : Fin m → K) : List (Row K) :=
  List.ofFn fun i => ⟨List.ofFn (A i), b i⟩

/-! ## Removing an unknown -/

omit [Field K] in
/-- A row without its first coefficient is one shorter. -/
theorem Row.length_tail (wide : r.coeffs.length = n + 1) : r.coeffs.tail.length = n := by
  rw [List.length_tail, wide, Nat.add_sub_cancel]

/-- A row with at least one coefficient. -/
theorem Row.dot_coeffs (wide : r.coeffs.length = n + 1) :
    dot r.coeffs (x :: xs) = r.head * x + dot r.coeffs.tail xs := by
  obtain ⟨coeffs, rhs⟩ := r
  cases coeffs with
  | nil => exact absurd wide (Nat.succ_ne_zero n).symm
  | cons c cs => exact dot_cons c x

/-- Subtracting one after the other is subtracting the sum. -/
theorem foldl_sub (a : K) : ∀ xs : List K, xs.foldl (· - ·) a = a - xs.sum := by
  intro xs
  induction xs generalizing a with
  | nil => simp
  | cons x xs ih => rw [List.foldl_cons, ih, List.sum_cons, sub_sub]

/-- The lead value solves a row for its first unknown. -/
theorem Row.leadValue_eq (wide : r.coeffs.length = n + 1) (hxs : xs.length = n) :
    r.leadValue xs = (r.rhs - dot r.coeffs.tail xs) / r.head := by
  unfold leadValue
  rw [foldl_sub, dot_comm (length_tail wide) hxs]
  unfold dot
  rw [← List.sum_eq_foldl]

/-- A row with a leading coefficient determines the first value from the others. -/
theorem Row.holds_cons_iff (lead : r.head ≠ 0) (wide : r.coeffs.length = n + 1)
    (hxs : xs.length = n) : r.Holds (x :: xs) ↔ x = r.leadValue xs := by
  unfold Holds
  rw [dot_coeffs wide, leadValue_eq wide hxs, eq_div_iff lead, eq_sub_iff_add_eq, mul_comm x]

theorem Row.length_reduceBy (widep : pivot.coeffs.length = n + 1)
    (wide : r.coeffs.length = n + 1) : (pivot.reduceBy r).coeffs.length = n := by
  unfold reduceBy
  rw [List.length_zipWith, length_tail wide, length_tail widep, Nat.min_self]

/-- Subtracting the pivot row takes the first unknown out of a row. -/
theorem Row.dot_reduceBy (lead : pivot.head ≠ 0) (widep : pivot.coeffs.length = n + 1)
    (wide : r.coeffs.length = n + 1) (hxs : xs.length = n) :
    dot (pivot.reduceBy r).coeffs xs =
      dot r.coeffs (x :: xs) - r.head / pivot.head * dot pivot.coeffs (x :: xs) := by
  have cancel : r.head / pivot.head * (pivot.head * x) = r.head * x := by
    rw [← mul_assoc, div_mul_cancel₀ _ lead]
  unfold reduceBy
  simp only
  rw [dot_sub_mul _ (length_tail wide) (length_tail widep) hxs, dot_coeffs wide,
    dot_coeffs widep, mul_add, cancel, add_sub_add_left_eq_sub]

/-- Where the pivot row holds, a reduced row holds if the row does. -/
theorem Row.holds_reduceBy_iff (lead : pivot.head ≠ 0) (widep : pivot.coeffs.length = n + 1)
    (wide : r.coeffs.length = n + 1) (hxs : xs.length = n) (holds : pivot.Holds (x :: xs)) :
    (pivot.reduceBy r).Holds xs ↔ r.Holds (x :: xs) := by
  unfold Holds at holds ⊢
  rw [dot_reduceBy lead widep wide hxs, holds]
  show _ = r.rhs - r.head / pivot.head * pivot.rhs ↔ _
  rw [sub_left_inj]

/-- **Removing an unknown keeps the solutions.** -/
theorem forall_holds_cons_iff (lead : pivot.head ≠ 0) (square : Square (n + 1) (pivot :: others))
    (hxs : xs.length = n) :
    (∀ r ∈ pivot :: others, r.Holds (x :: xs)) ↔
      x = pivot.leadValue xs ∧ ∀ r ∈ others.map pivot.reduceBy, r.Holds xs := by
  have widep := square.wide pivot List.mem_cons_self
  rw [List.forall_mem_cons, Row.holds_cons_iff lead widep hxs, List.forall_mem_map]
  refine and_congr_right fun eq => forall₂_congr fun r hr => ?_
  have wide := square.wide r (List.mem_cons_of_mem _ hr)
  have holds := (Row.holds_cons_iff lead widep hxs).mpr eq
  exact (Row.holds_reduceBy_iff lead widep wide hxs holds).symm

omit [Field K] in
theorem Square.perm {rows' : List (Row K)} (square : Square n rows) (perm : rows.Perm rows') :
    Square n rows' :=
  ⟨perm.length_eq ▸ square.length, fun r hr => square.wide r (perm.mem_iff.mpr hr)⟩

/-- A round leaves a system that is square again. -/
theorem Square.reduce (square : Square (n + 1) (pivot :: others)) :
    Square n (others.map pivot.reduceBy) := by
  constructor
  · rw [List.length_map]
    exact Nat.succ.inj square.length
  · intro r hr
    obtain ⟨s, hs, rfl⟩ := List.mem_map.mp hr
    exact Row.length_reduceBy (square.wide pivot List.mem_cons_self)
      (square.wide s (List.mem_cons_of_mem _ hs))

/-! ## Choosing the pivot -/

omit [Field K] in
/-- Putting a row in the place of another one that is taken out. -/
theorem perm_cons_set {rest : List (Row K)} {i : Nat} (first : Row K)
    (found : rest[i]? = some pivot) : (first :: rest).Perm (pivot :: rest.set i first) := by
  obtain ⟨hi, rfl⟩ := List.getElem?_eq_some_iff.mp found
  calc (first :: rest).Perm (first :: rest[i] :: rest.eraseIdx i) :=
        (List.getElem_cons_eraseIdx_perm hi).symm.cons first
    _ |>.Perm (rest[i] :: first :: rest.eraseIdx i) := List.Perm.swap _ _ _
    _ |>.Perm (rest[i] :: rest.set i first) := (List.set_perm_cons_eraseIdx hi first).symm.cons _

omit [Field K] in
/-- Exchanging rows takes the pivot out and permutes the others. -/
theorem exchange_perm {i : Nat} (found : rows[i]? = some pivot) :
    ∃ others, exchange rows i = some (pivot, others) ∧ rows.Perm (pivot :: others) := by
  cases rows with
  | nil => simp at found
  | cons first rest =>
    cases i with
    | zero =>
      rw [List.getElem?_cons_zero, Option.some.injEq] at found
      subst found
      exact ⟨rest, rfl, List.Perm.refl _⟩
    | succ i =>
      rw [List.getElem?_cons_succ] at found
      refine ⟨rest.set i first, ?_, perm_cons_set first found⟩
      unfold exchange
      simp only [Nat.add_one_ne_zero, if_false, Nat.add_sub_cancel, found, Option.map_some]

variable [LinearOrder K] [IsStrictOrderedRing K] {t size : K} {index best : Nat}

omit [IsStrictOrderedRing K] in
/-- The choice never gets smaller. -/
theorem largestFrom_ge : ∀ (rows : List (Row K)) (index best : Nat) (size : K),
    size ≤ (largestFrom index best size rows).2 := by
  intro rows
  induction rows with
  | nil => intro index best size; exact le_refl size
  | cons r rows ih =>
    intro index best size
    unfold largestFrom
    split
    next larger => exact larger.le.trans (ih _ _ _)
    next => exact ih _ _ _

/-- No leading coefficient is larger than the one chosen. -/
theorem largestFrom_bound : ∀ (rows : List (Row K)) (index best : Nat) (size : K),
    ∀ r ∈ rows, |r.head| ≤ (largestFrom index best size rows).2 := by
  intro rows
  induction rows with
  | nil => intro index best size r hr; exact absurd hr List.not_mem_nil
  | cons s rows ih =>
    intro index best size r hr
    unfold largestFrom
    rw [Scalar.abs_eq_abs]
    rcases List.mem_cons.mp hr with rfl | later
    · split
      next => exact largestFrom_ge _ _ _ _
      next small => exact (not_lt.mp small).trans (largestFrom_ge _ _ _ _)
    · split
      next => exact ih _ _ _ r later
      next => exact ih _ _ _ r later

/-- The choice is the one among the rows before, or a row from here on. -/
theorem largestFrom_cases : ∀ (rows : List (Row K)) (index best : Nat) (size : K),
    largestFrom index best size rows = (best, size) ∨
      ∃ k r, rows[k]? = some r ∧ largestFrom index best size rows = (index + k, |r.head|) := by
  intro rows
  induction rows with
  | nil => intro index best size; exact Or.inl rfl
  | cons s rows ih =>
    intro index best size
    have shift (k : Nat) (x : K) : (index + 1 + k, x) = (index + (k + 1), x) := by
      rw [Nat.add_right_comm, Nat.add_assoc]
    unfold largestFrom
    rw [Scalar.abs_eq_abs]
    split
    next =>
      rcases ih (index + 1) index |s.head| with same | ⟨k, r, hr, eq⟩
      · exact Or.inr ⟨0, s, rfl, same⟩
      · exact Or.inr ⟨k + 1, r, hr, eq.trans (shift k _)⟩
    next =>
      rcases ih (index + 1) best size with same | ⟨k, r, hr, eq⟩
      · exact Or.inl same
      · exact Or.inr ⟨k + 1, r, hr, eq.trans (shift k _)⟩

/-- No leading coefficient is larger than the largest. -/
theorem head_le_largest (hr : r ∈ rows) : |r.head| ≤ (largest rows).2 :=
  largestFrom_bound rows 0 0 0 r hr

/-- A choice that is not zero is the leading coefficient of the row at its position. -/
theorem largest_attained (pos : 0 < (largest rows).2) :
    ∃ r, rows[(largest rows).1]? = some r ∧ |r.head| = (largest rows).2 := by
  unfold largest at pos ⊢
  rcases largestFrom_cases rows 0 0 0 with none | ⟨k, r, hr, eq⟩
  · rw [none] at pos
    exact absurd pos (lt_irrefl 0)
  · rw [eq, Nat.zero_add]
    exact ⟨r, hr, rfl⟩

omit [LinearOrder K] [IsStrictOrderedRing K] in
/-- Either all leading coefficients are zero or one is not. -/
theorem flat_or_lead (rows : List (Row K)) :
    (∀ r ∈ rows, r.head = 0) ∨ ∃ r ∈ rows, r.head ≠ 0 := by
  by_cases lead : ∃ r ∈ rows, r.head ≠ 0
  · exact Or.inr lead
  · exact Or.inl fun r hr => by_contra fun ne => lead ⟨r, hr, ne⟩

/-- **A round with a pivot.** The row with the largest leading coefficient is the pivot row, and the
threshold decides whether it will do. -/
theorem solveFrom_pivot (lead : ∃ r ∈ rows, r.head ≠ 0) :
    ∃ pivot others, rows.Perm (pivot :: others) ∧ pivot.head ≠ 0 ∧
      (∀ r ∈ rows, |r.head| ≤ |pivot.head|) ∧
      ∀ (t : K) (total done n : Nat), solveFrom t total done (n + 1) rows =
        if |pivot.head| < t then .error ⟨done, total⟩
        else (solveFrom t total (done + 1) n (others.map pivot.reduceBy)).map
          fun xs => pivot.leadValue xs :: xs := by
  obtain ⟨r, hr, ne⟩ := lead
  have pos : 0 < (largest rows).2 := (abs_pos.mpr ne).trans_le (head_le_largest hr)
  obtain ⟨pivot, found, size⟩ := largest_attained pos
  obtain ⟨others, exchanged, perm⟩ := exchange_perm found
  refine ⟨pivot, others, perm, abs_pos.mp (size ▸ pos), fun s hs => ?_, fun t total done n => ?_⟩
  · rw [size]
    exact head_le_largest hs
  · rw [solveFrom, size]
    simp only [exchanged]
    split
    next => rfl
    next => cases solveFrom t total (done + 1) n (others.map pivot.reduceBy) <;> rfl

/-- **A round without a pivot fails.** -/
theorem solveFrom_flat {total done : Nat} (flat : ∀ r ∈ rows, r.head = 0) (pos : 0 < t) :
    solveFrom t total done (n + 1) rows = .error ⟨done, total⟩ := by
  have zero : ¬0 < (largest rows).2 := by
    intro some
    obtain ⟨r, found, size⟩ := largest_attained some
    rw [flat r (List.mem_of_getElem? found), abs_zero] at size
    exact some.ne size
  rw [solveFrom]
  simp only
  rw [if_pos ((not_lt.mp zero).trans_lt pos)]

/-! ## The whole elimination -/

variable {total done : Nat} {e : Singular}

omit [Field K] [LinearOrder K] [IsStrictOrderedRing K] in
/-- A result that was mapped comes from a result. -/
theorem exists_of_map_ok {f : List K → List K} {result : Except Singular (List K)}
    (ok : result.map f = .ok xs) : ∃ rest, result = .ok rest ∧ f rest = xs := by
  cases result with
  | error e => cases ok
  | ok rest => exact ⟨rest, rfl, Except.ok.inj ok⟩

omit [Field K] [LinearOrder K] [IsStrictOrderedRing K] in
theorem error_of_map_error {f : List K → List K} {result : Except Singular (List K)}
    (failed : result.map f = .error e) : result = .error e := by
  cases result with
  | error e => exact failed
  | ok rest => cases failed

/-- **What the elimination returns is the only solution.** -/
theorem solveFrom_ok (pos : 0 < t) : ∀ {n done : Nat} {rows : List (Row K)} {xs : List K},
    Square n rows → solveFrom t total done n rows = .ok xs →
    xs.length = n ∧ ∀ ys : List K, ys.length = n → ((∀ r ∈ rows, r.Holds ys) ↔ ys = xs) := by
  intro n
  induction n with
  | zero =>
    intro done rows xs square solved
    cases solved
    have none : rows = [] := List.length_eq_zero_iff.mp square.length
    refine ⟨rfl, fun ys hys => ?_⟩
    rw [none, List.length_eq_zero_iff.mp hys]
    simp
  | succ n ih =>
    intro done rows xs square solved
    rcases flat_or_lead rows with flat | lead
    · rw [solveFrom_flat flat pos] at solved
      cases solved
    · obtain ⟨pivot, others, perm, lead, -, round⟩ := solveFrom_pivot lead
      rw [round] at solved
      split at solved
      next => cases solved
      next =>
        -- what is left after the round has one solution, and the pivot row adds the first value
        obtain ⟨rest, solvedRest, rfl⟩ := exists_of_map_ok solved
        have square := square.perm perm
        obtain ⟨length, only⟩ := ih square.reduce solvedRest
        refine ⟨by rw [List.length_cons, length], fun ys hys => ?_⟩
        cases ys with
        | nil => exact absurd hys (Nat.succ_ne_zero n).symm
        | cons y ys =>
          have hys' : ys.length = n := Nat.succ.inj hys
          calc (∀ r ∈ rows, r.Holds (y :: ys))
              ↔ ∀ r ∈ pivot :: others, r.Holds (y :: ys) := by simp only [perm.mem_iff]
            _ ↔ y = pivot.leadValue ys ∧ ∀ r ∈ others.map pivot.reduceBy, r.Holds ys :=
              forall_holds_cons_iff lead square hys'
            _ ↔ y = pivot.leadValue ys ∧ ys = rest := and_congr_right fun _ => only ys hys'
            _ ↔ y :: ys = pivot.leadValue rest :: rest := by
              rw [List.cons.injEq]
              exact and_congr_left fun same => by rw [same]

/-- A failure tells how many unknowns were removed, and how many there were. -/
theorem solveFrom_error (pos : 0 < t) : ∀ {n done : Nat} {rows : List (Row K)},
    solveFrom t total done n rows = .error e → e.rows = total ∧ e.rank < done + n := by
  intro n
  induction n with
  | zero => intro done rows solved; cases solved
  | succ n ih =>
    intro done rows solved
    rcases flat_or_lead rows with flat | lead
    · rw [solveFrom_flat flat pos] at solved
      cases solved
      exact ⟨rfl, by show done < done + (n + 1); omega⟩
    · obtain ⟨pivot, others, -, -, -, round⟩ := solveFrom_pivot lead
      rw [round] at solved
      split at solved
      next =>
        cases solved
        exact ⟨rfl, by show done < done + (n + 1); omega⟩
      next =>
        obtain ⟨rows, rank⟩ := ih (error_of_map_error solved)
        exact ⟨rows, by omega⟩

/-- Zeros alone make all left-hand sides zero. -/
def Faithful (n : Nat) (rows : List (Row K)) : Prop :=
  ∀ ys : List K, ys.length = n → (∀ r ∈ rows, dot r.coeffs ys = 0) → ys = List.replicate n 0

omit [LinearOrder K] [IsStrictOrderedRing K] in
/-- A faithful system has a row to begin with. -/
theorem Faithful.lead (square : Square (n + 1) rows) (faithful : Faithful (n + 1) rows) :
    ∃ r ∈ rows, r.head ≠ 0 := by
  rcases flat_or_lead rows with flat | lead
  · have gone : (1 : K) :: List.replicate n 0 = List.replicate (n + 1) 0 := by
      refine faithful _ (by rw [List.length_cons, List.length_replicate]) fun r hr => ?_
      rw [Row.dot_coeffs (square.wide r hr), flat r hr, zero_mul, zero_add,
        dot_replicate_zero (Row.length_tail (square.wide r hr))]
    rw [List.replicate_succ, List.cons.injEq] at gone
    exact absurd gone.1 one_ne_zero
  · exact lead

omit [LinearOrder K] [IsStrictOrderedRing K] in
theorem Faithful.reduce (square : Square (n + 1) (pivot :: others))
    (faithful : Faithful (n + 1) (pivot :: others)) (lead : pivot.head ≠ 0) :
    Faithful n (others.map pivot.reduceBy) := by
  intro ys hys gone
  have widep := square.wide pivot List.mem_cons_self
  -- the value that the pivot row asks for, in front of values that the reduced rows make zero
  let y := -(dot pivot.coeffs.tail ys / pivot.head)
  have first : dot pivot.coeffs (y :: ys) = 0 := by
    rw [Row.dot_coeffs widep, mul_neg, mul_div_cancel₀ _ lead, neg_add_cancel]
  have all : y :: ys = List.replicate (n + 1) 0 := by
    refine faithful _ (by rw [List.length_cons, hys]) fun r hr => ?_
    rcases List.mem_cons.mp hr with rfl | other
    · exact first
    · have reduced := gone _ (List.mem_map_of_mem other)
      rw [Row.dot_reduceBy lead widep (square.wide r hr) hys, first, mul_zero, sub_zero] at reduced
      exact reduced
  rw [List.replicate_succ, List.cons.injEq] at all
  exact all.2

omit [LinearOrder K] [IsStrictOrderedRing K] in
theorem Faithful.perm {rows' : List (Row K)} (faithful : Faithful n rows)
    (perm : rows.Perm rows') : Faithful n rows' :=
  fun ys hys gone => faithful ys hys fun r hr => gone r (perm.mem_iff.mp hr)

/-- **Independent rows are solved** under every threshold that is small enough. -/
theorem exists_solveFrom : ∀ {n : Nat} {rows : List (Row K)}, Square n rows → Faithful n rows →
    ∃ limit : K, 0 < limit ∧ ∀ t ≤ limit, ∀ total done : Nat,
      ∃ xs, solveFrom t total done n rows = .ok xs := by
  intro n
  induction n with
  | zero => intro rows _ _; exact ⟨1, one_pos, fun t _ total done => ⟨[], rfl⟩⟩
  | succ n ih =>
    intro rows square faithful
    obtain ⟨pivot, others, perm, lead, -, round⟩ := solveFrom_pivot (faithful.lead square)
    have square := square.perm perm
    obtain ⟨limit, pos, solved⟩ := ih square.reduce ((faithful.perm perm).reduce square lead)
    refine ⟨min limit |pivot.head|, lt_min pos (abs_pos.mpr lead), fun t small total done => ?_⟩
    obtain ⟨rest, eq⟩ := solved t (small.trans (min_le_left _ _)) total (done + 1)
    refine ⟨pivot.leadValue rest :: rest, ?_⟩
    rw [round, if_neg (not_lt.mpr (small.trans (min_le_right _ _))), eq]
    rfl

/-! ## Square matrices -/

section Matrices

open scoped Matrix

variable {A : Matrix (Fin n) (Fin n) K} {b : Fin n → K}

omit [Field K] [LinearOrder K] [IsStrictOrderedRing K] in
/-- The rows of a square matrix are a square system. -/
theorem square_system (A : Matrix (Fin n) (Fin n) K) (b : Fin n → K) : Square n (system A b) := by
  refine ⟨List.length_ofFn, fun r hr => ?_⟩
  obtain ⟨i, rfl⟩ := List.mem_ofFn.mp hr
  exact List.length_ofFn

omit [LinearOrder K] [IsStrictOrderedRing K] in
/-- Satisfying the rows of a matrix is a matrix equation. -/
theorem holds_system_iff {m : Nat} {A : Matrix (Fin m) (Fin n) K} {b : Fin m → K} {v : Fin n → K} :
    (∀ r ∈ system A b, r.Holds (List.ofFn v)) ↔ A *ᵥ v = b := by
  unfold system
  rw [List.forall_mem_ofFn_iff, funext_iff]
  refine forall_congr' fun i => ?_
  unfold Row.Holds
  rw [dot_ofFn]
  rfl

/-- What comes out for a square matrix is the only solution. -/
theorem solve_system_ok {xs : List K} (pos : 0 < t) (solved : solve t (system A b) = .ok xs) :
    xs.length = n ∧ ∀ v : Fin n → K, A *ᵥ v = b ↔ v = toVec n xs := by
  have square := square_system A b
  unfold solve at solved
  rw [square.length] at solved
  obtain ⟨length, only⟩ := solveFrom_ok pos square solved
  refine ⟨length, fun v => ?_⟩
  rw [← holds_system_iff, only _ List.length_ofFn]
  constructor
  · intro eq
    rw [← eq, toVec_ofFn]
  · intro eq
    rw [eq, ofFn_toVec length]

/-- A matrix for which something comes out is invertible. -/
theorem isUnit_of_solve {xs : List K} (pos : 0 < t) (solved : solve t (system A b) = .ok xs) :
    IsUnit A := by
  have only := (solve_system_ok pos solved).2
  have solution : A *ᵥ toVec n xs = b := (only _).mpr rfl
  refine Matrix.mulVec_injective_iff_isUnit.mp fun v w same => ?_
  -- the difference of the two can be added to the solution, which is the only one
  have other : A *ᵥ (toVec n xs + (v - w)) = b := by
    rw [Matrix.mulVec_add, Matrix.mulVec_sub, solution, same, sub_self, add_zero]
  exact sub_eq_zero.mp (add_eq_left.mp ((only _).mp other))

/-- A failure tells a rank below the number of rows. -/
theorem solve_system_error {e : Singular} (pos : 0 < t) (failed : solve t (system A b) = .error e) :
    e.rows = n ∧ e.rank < n := by
  unfold solve at failed
  rw [(square_system A b).length] at failed
  obtain ⟨rows, rank⟩ := solveFrom_error pos failed
  rw [Nat.zero_add] at rank
  exact ⟨rows, rank⟩

omit [LinearOrder K] [IsStrictOrderedRing K] in
/-- The rows of an invertible matrix are a faithful system. -/
theorem faithful_system (unit : IsUnit A) (b : Fin n → K) : Faithful n (system A b) := by
  intro ys hys gone
  have kernel : A *ᵥ toVec n ys = A *ᵥ 0 := by
    rw [Matrix.mulVec_zero, ← holds_system_iff, ofFn_toVec hys]
    intro r hr
    obtain ⟨i, rfl⟩ := List.mem_ofFn.mp hr
    exact gone ⟨List.ofFn (A i), b i⟩ (List.mem_ofFn.mpr ⟨i, rfl⟩)
  rw [← ofFn_toVec hys, Matrix.mulVec_injective_of_isUnit unit kernel]
  exact List.ofFn_const n 0

/-- **Gaussian elimination solves the system.** What it returns for a square matrix is a solution, and
the matrix is invertible. For a singular matrix it fails, and tells a rank below the number of
rows. And an invertible matrix is solved under all thresholds that are small enough. -/
theorem solution_or_singular (A : Matrix (Fin n) (Fin n) K) (b : Fin n → K) (pos : 0 < t) :
    (∀ xs, solve t (system A b) = .ok xs →
      xs.length = n ∧ A *ᵥ toVec n xs = b ∧ IsUnit A) ∧
    (¬IsUnit A → ∃ rank < n, solve t (system A b) = .error ⟨rank, n⟩) ∧
    (IsUnit A → ∃ limit : K, 0 < limit ∧ ∀ u ≤ limit, ∃ xs, solve u (system A b) = .ok xs) := by
  refine ⟨fun xs solved => ?_, fun singular => ?_, fun unit => ?_⟩
  · obtain ⟨length, only⟩ := solve_system_ok pos solved
    exact ⟨length, (only _).mpr rfl, isUnit_of_solve pos solved⟩
  · cases outcome : solve t (system A b) with
    | ok xs => exact absurd (isUnit_of_solve pos outcome) singular
    | error e =>
      obtain ⟨rows, rank⟩ := solve_system_error pos outcome
      exact ⟨e.rank, rank, by rw [← rows]⟩
  · have square := square_system A b
    obtain ⟨limit, limited, solved⟩ := exists_solveFrom square (faithful_system unit b)
    refine ⟨limit, limited, fun u small => ?_⟩
    unfold solve
    rw [square.length]
    exact solved u small n 0

/-- A system whose first row has no leading coefficient, and one whose rows depend on each other. -/
theorem solution_or_singular_exchangedRows :
    (0 : ℚ) < 1 / 10 ^ 20 ∧
    solve (1 / 10 ^ 20) (system !![(0 : ℚ), 2; 3, 1] ![4, 5]) = .ok [1, 2] ∧
    !![(0 : ℚ), 2; 3, 1] *ᵥ toVec 2 [1, 2] = ![4, 5] ∧ IsUnit !![(0 : ℚ), 2; 3, 1] ∧
    ¬IsUnit !![(1 : ℚ), 2; 2, 4] ∧
    ∃ rank < 2, solve (1 / 10 ^ 20) (system !![(1 : ℚ), 2; 2, 4] ![1, 2]) = .error ⟨rank, 2⟩ := by
  have pos : (0 : ℚ) < 1 / 10 ^ 20 := by norm_num
  have solved : solve (1 / 10 ^ 20) (system !![(0 : ℚ), 2; 3, 1] ![4, 5]) = .ok [1, 2] := by
    decide +kernel
  have singular : ¬IsUnit !![(1 : ℚ), 2; 2, 4] := by
    rw [Matrix.isUnit_iff_isUnit_det, Matrix.det_fin_two_of]
    norm_num
  obtain ⟨-, solution, unit⟩ := (solution_or_singular _ _ pos).1 [1, 2] solved
  exact ⟨pos, solved, solution, unit, singular, (solution_or_singular _ _ pos).2.1 singular⟩

end Matrices

end Linear

end SketchSolver
