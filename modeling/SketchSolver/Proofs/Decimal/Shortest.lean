import SketchSolver.Proofs.Decimal.Nearest

/-!
# Seventeen digits suffice

`shortest` always finds digits, and they lie in the interval of the double (`shortest_spec`):
on the grid of seventeen digits the value's neighbours are less than the width of the interval
apart, so one of them is a hit.

The search goes from one digit to seventeen and has a default for the case that nothing is
found. The default is never taken, but this is not evident from the definition; without it
nothing could be said about what is returned. So the argument about seventeen digits, that
there are more decimals with so many digits than doubles anywhere on the line
(`ten_pow_lt_width`), is not about the length of texts but about their being right at all.

Two neighbours on a grid are looked at, the one below the value and the one above. If both lie
in the interval the nearer one is taken, and if only one does it is that one; a hit is in the
interval by the test itself (`has_of_onGrid?`), and if there is none then neither neighbour is
(`not_has_of_onGrid?`). With a step of the grid that is smaller than the reach of the interval
to either side, one of the two neighbours must be inside (`has_floor_or_succ`).

That no decimal with fewer digits would do is not claimed. What is needed of the digits is
that they read back.
-/

namespace SketchSolver.Decimal

variable {m : Nat} {q k : Int} {tie : Tie}

/-- The value `m · 2^q` lies in its own interval. -/
theorem has_self (positive : 0 < m) : (interval m q).Has q (m * 2 ^ q) := by
  have place : (0 : ℚ) < 2 ^ q := zpow_pos two_pos q
  have below := @reach_pos m q
  refine has_of_between positive ?_ ?_
  · gcongr
    linarith
  · gcongr
    linarith

/-- What a grid yields is a hit. -/
theorem has_of_onGrid? {d : Digits} (found : onGrid? tie m q k = some d) :
    0 < d.digits ∧ (interval m q).Has q d.value := by
  unfold onGrid? at found
  dsimp only at found
  generalize ((Positive.scaled m 2 q).shift k).floor = n at found
  simp only [Bool.and_eq_true, decide_eq_true_iff] at found
  split at found
  next both =>
    cases found
    split
    next => exact ⟨Nat.succ_pos n, Interval.contains_iff.mp both.2⟩
    next => exact ⟨both.1.1, Interval.contains_iff.mp both.1.2⟩
  next =>
    split at found
    next lower =>
      cases found
      exact ⟨lower.1, Interval.contains_iff.mp lower.2⟩
    next =>
      split at found
      next upper =>
        cases found
        exact ⟨Nat.succ_pos n, Interval.contains_iff.mp upper⟩
      next => cases found

/-- A grid yields nothing only if neither neighbour of the value is a hit. -/
theorem not_has_of_onGrid? (missed : onGrid? tie m q k = none) {n : Nat}
    (floor : ((Positive.scaled m 2 q).shift k).floor = n) (positive : 0 < n) :
    ¬(interval m q).Has q (n * 10 ^ k) ∧ ¬(interval m q).Has q ((n + 1 : Nat) * 10 ^ k) := by
  unfold onGrid? at missed
  dsimp only at missed
  rw [floor] at missed
  simp only [Bool.and_eq_true, decide_eq_true_iff] at missed
  rw [← Interval.contains_iff, ← Interval.contains_iff]
  split at missed
  next => cases missed
  next =>
    split at missed
    next => cases missed
    next lower =>
      split at missed
      next => cases missed
      next upper => exact ⟨fun has => lower ⟨positive, has⟩, upper⟩

/-- The grid of seventeen digits is finer than the interval is wide. -/
theorem ten_pow_lt_width (canonical : Canonical m q)
    (fine : (10 : ℚ) ^ k * 10 ^ 16 ≤ m * 2 ^ q) : (10 : ℚ) ^ k < (reach m q + 1 / 2) * 2 ^ q := by
  have place : (0 : ℚ) < 2 ^ q := zpow_pos two_pos q
  have narrow : (m : ℚ) < (reach m q + 1 / 2) * 10 ^ 16 := by
    unfold reach
    split
    next power =>
      rw [power.1]
      norm_num
    next =>
      have : (m : ℚ) < 2 ^ 53 := by exact_mod_cast canonical.below
      norm_num at this ⊢
      linarith
  refine lt_of_mul_lt_mul_right ?_ (show (0 : ℚ) ≤ 10 ^ 16 by norm_num)
  calc (10 : ℚ) ^ k * 10 ^ 16 ≤ m * 2 ^ q := fine
    _ < (reach m q + 1 / 2) * 10 ^ 16 * 2 ^ q := by gcongr
    _ = (reach m q + 1 / 2) * 2 ^ q * 10 ^ 16 := by ring

/-- On a grid finer than the interval one of the value's neighbours is a hit. -/
theorem has_floor_or_succ {n : Nat} (positive : 0 < m)
    (fine : (10 : ℚ) ^ k < (reach m q + 1 / 2) * 2 ^ q) (low : (n : ℚ) * 10 ^ k ≤ m * 2 ^ q)
    (high : (m : ℚ) * 2 ^ q < (n + 1) * 10 ^ k) :
    (interval m q).Has q (n * 10 ^ k) ∨ (interval m q).Has q ((n + 1 : Nat) * 10 ^ k) := by
  have place : (0 : ℚ) < 2 ^ q := zpow_pos two_pos q
  have below : 0 < reach m q * 2 ^ q := mul_pos reach_pos place
  -- the distances to the two neighbours add up to a step of the grid, which is less than the width
  by_cases near : (m : ℚ) * 2 ^ q - n * 10 ^ k < reach m q * 2 ^ q
  · exact Or.inl (has_of_between positive (by linarith) (by linarith))
  · refine Or.inr (has_of_between positive ?_ ?_)
    · push_cast
      linarith
    · push_cast
      linarith

/-- The value of a double as a quotient. -/
theorem value_scaled_two (m : Nat) (q : Int) : (Positive.scaled m 2 q).value = m * 2 ^ q := by
  rw [Positive.value_scaled, Nat.cast_ofNat]

/-- The grid points around the value. -/
theorem floor_shift_between (positive : 0 < m) {n : Nat}
    (floor : ((Positive.scaled m 2 q).shift k).floor = n) :
    (n : ℚ) * 10 ^ k ≤ m * 2 ^ q ∧ (m : ℚ) * 2 ^ q < (n + 1) * 10 ^ k := by
  have power : (0 : ℚ) < 10 ^ k := zpow_pos (by norm_num) k
  have shifted := (Positive.proper_scaled positive two_pos q).shiftBy (b := 10) (by decide) k
  have low := shifted.floor_le
  have high := shifted.lt_floor_add_one
  rw [Positive.value_shiftBy, value_scaled_two, Nat.cast_ofNat, ← Positive.shift_eq_shiftBy,
    floor] at low high
  rw [le_div_iff₀ power] at low
  rw [div_lt_iff₀ power] at high
  exact ⟨low, high⟩

/-- The leading decimal digit of a double is found. -/
theorem ten_pow_floorLog10_le (canonical : Canonical m q) :
    (10 : ℚ) ^ floorLog10 (.scaled m 2 q) ≤ m * 2 ^ q := by
  have large : 1 ≤ (m : ℚ) * 2 ^ q * 10 ^ liftExponent := by
    calc (1 : ℚ) ≤ 10 ^ (20 : Int) := one_le_zpow₀ (by norm_num) (by decide)
      _ = 10 ^ (-330 : Int) * 10 ^ liftExponent := by
        have sum : (20 : Int) = -330 + (liftExponent : Nat) := by decide
        rw [sum, zpow_add₀ (by norm_num), zpow_natCast]
      _ ≤ m * 2 ^ q * 10 ^ liftExponent := by
        gcongr
        exact (magnitude_of_has canonical (has_self canonical.positive)).1
  rw [← value_scaled_two] at large ⊢
  exact (floorLog10_spec (Positive.proper_scaled canonical.positive two_pos q) large).1

/-- The grid of seventeen digits has a hit. -/
theorem onGrid?_seventeen (canonical : Canonical m q) :
    onGrid? tie m q (floorLog10 (.scaled m 2 q) - (16 : Nat)) ≠ none := by
  have leading := ten_pow_floorLog10_le canonical
  generalize grid : floorLog10 (.scaled m 2 q) - (16 : Nat) = k
  have power : (0 : ℚ) < 10 ^ k := zpow_pos (by norm_num) k
  have fine : (10 : ℚ) ^ k * 10 ^ 16 ≤ m * 2 ^ q := by
    calc (10 : ℚ) ^ k * 10 ^ 16 = 10 ^ floorLog10 (.scaled m 2 q) := by
          rw [← zpow_natCast, ← zpow_add₀ (by norm_num)]
          congr 1
          omega
      _ ≤ m * 2 ^ q := leading
  generalize floor : ((Positive.scaled m 2 q).shift k).floor = n
  obtain ⟨low, high⟩ := floor_shift_between canonical.positive floor
  have positive : 0 < n := by
    have : (10 : ℚ) ^ 16 * 10 ^ k < (n + 1) * 10 ^ k := by linarith
    have : (10 : ℚ) ^ 16 < n + 1 := lt_of_mul_lt_mul_right this power.le
    have : 10 ^ 16 < n + 1 := by exact_mod_cast this
    omega
  intro missed
  obtain ⟨notLower, notUpper⟩ := not_has_of_onGrid? missed floor positive
  exact (has_floor_or_succ canonical.positive (ten_pow_lt_width canonical fine) low high).elim
    notLower notUpper

/-- The search for the shortest digits comes upon a grid with a hit. -/
theorem shortest_found (canonical : Canonical m q) (tie : Tie) :
    ∃ k, onGrid? tie m q k = some (shortest tie m q) := by
  let grid (n : Nat) := onGrid? tie m q (floorLog10 (.scaled m 2 q) - n)
  have search : shortest tie m q = ((List.range maxDigits).findSome? grid).getD ⟨m, 0⟩ := rfl
  obtain ⟨d, found⟩ : ∃ d, (List.range maxDigits).findSome? grid = some d := by
    refine Option.ne_none_iff_exists'.mp fun none => ?_
    exact onGrid?_seventeen canonical
      (List.findSome?_eq_none_iff.mp none 16 (List.mem_range.mpr (by decide)))
  obtain ⟨n, -, hit⟩ := List.exists_of_findSome?_eq_some found
  rw [search, found]
  exact ⟨_, hit⟩

/-- **The shortest digits are not zero and lie in the interval of the double.** -/
theorem shortest_spec (canonical : Canonical m q) (tie : Tie) :
    0 < (shortest tie m q).digits ∧ (interval m q).Has q (shortest tie m q).value := by
  obtain ⟨k, found⟩ := shortest_found canonical tie
  exact has_of_onGrid? found

end SketchSolver.Decimal
