import SketchSolver.Proofs.Decimal.Products
import SketchSolver.Proofs.Json.Numbers
import SketchSolver.Proofs.Json.Reading

/-!
# Doubles that are read back

A double is written exactly, but what is read is computed in double arithmetic: digits are
gathered into a significand (`gather_spec`), which is then multiplied or divided by a power of
ten. So the text of a double is read as a double if and only if the double is finite
(`reread?_isSome_iff`), but not always as the same one.

Only a product can leave the range. The text of a double is worth at most half a place more
than the double, and two roundings add at most two places: so the product stays in range but
for the three largest doubles, and these are looked at one by one (`read_largest`).

A double that is not finite is written as `null`, which is no number. This is why the
equivalence holds in that direction, and it is the only way in which writing can lose a double
altogether.

Digits are gathered from the left as long as they fit a significand. The text of a double has
seventeen at most that are not zeros at its end, and these fit. Zeros before the point may be
left out, which raises the power, and zeros after the last digit may be left out and change
nothing. In either case what is multiplied is not above what the text is worth
(`Number.parts_spec`), and so an upper bound on the value of a text is one on the product.

Which doubles come back as themselves is not decided here. It depends on whether a product of
two rounded numbers happens to be the nearest double, and differs from one double to the next.
-/

namespace SketchSolver.Json

open Decimal (ofDigits)

/-! ## Significands -/

/-- What digits in front of others are worth together with them. -/
def worth (s : Nat) (ds : List Char) : Nat := 10 ^ ds.length * s + ofDigits ds

theorem worth_nil (s : Nat) : worth s [] = s := by
  unfold worth
  exact Nat.one_mul s

/-- Digits are added one after the other. -/
theorem worth_cons (s : Nat) (c : Char) (cs : List Char) :
    worth s (c :: cs) = worth (10 * s + (c.toNat - '0'.toNat)) cs := by
  unfold worth
  rw [ofDigits_cons, List.length_cons, pow_succ]
  ring

theorem le_worth (s : Nat) (ds : List Char) : s * 10 ^ ds.length ≤ worth s ds := by
  unfold worth
  rw [Nat.mul_comm]
  exact Nat.le_add_right _ _

theorem self_le_worth (s : Nat) (ds : List Char) : s ≤ worth s ds :=
  (Nat.le_mul_of_pos_right s (Nat.pow_pos (by decide))).trans (le_worth s ds)

/-- The digits that are gathered are worth no more than all of them, and nothing only if all are
zero. -/
theorem gather_spec {ds : List Char} (digits : ∀ c ∈ ds, c.isDigit = true) (s : Nat) :
    (gather s ds).1 * 10 ^ (gather s ds).2 ≤ worth s ds ∧
      ((gather s ds).1 = 0 → worth s ds = 0) ∧ (gather s ds).2 ≤ ds.length := by
  induction ds generalizing s with
  | nil =>
    rw [worth_nil]
    exact ⟨(Nat.mul_one s).le, id, le_rfl⟩
  | cons c cs ih =>
    have ⟨_, high⟩ := Token.toNat_of_isDigit (digits c List.mem_cons_self)
    unfold gather
    dsimp only
    split
    next full =>
      refine ⟨le_worth s (c :: cs), fun zero => ?_, le_rfl⟩
      have : '0'.toNat = 48 := rfl
      have : 9 < maxSignificand := by decide
      omega
    next =>
      rw [worth_cons]
      obtain ⟨below, zero, short⟩ := ih (fun d mem => digits d (List.mem_cons_of_mem c mem)) _
      exact ⟨below, zero, short.trans (Nat.le_succ _)⟩

/-- Digits that fit are all gathered. -/
theorem gather_of_le {ds : List Char} {s : Nat} (fits : worth s ds ≤ maxSignificand) :
    gather s ds = (worth s ds, 0) := by
  induction ds generalizing s with
  | nil => rw [worth_nil]; rfl
  | cons c cs ih =>
    rw [worth_cons] at fits ⊢
    unfold gather
    dsimp only
    rw [if_neg (Nat.not_lt.mpr ((self_le_worth _ cs).trans fits)), ih fits]

namespace Number

/-- The significand and the power that a number is reduced to are worth no more than the number, and
nothing only if the number is zero. -/
theorem parts_spec {n : Number} (digits : ∀ c ∈ n.places, c.isDigit = true)
    (short : ofDigits n.whole ≤ maxSignificand) :
    (n.parts.1 : ℚ) * 10 ^ n.parts.2 ≤ n.magnitude ∧ (n.parts.1 = 0 → n.magnitude = 0) := by
  -- the digits before the point fit, so digits are left out behind the point only
  have whole : gather 0 n.whole = (ofDigits n.whole, 0) := by
    have worth : worth 0 n.whole = ofDigits n.whole := by
      unfold worth
      rw [Nat.mul_zero, Nat.zero_add]
    rw [gather_of_le (by rwa [worth]), worth]
  unfold magnitude
  cases fraction : n.fraction with
  | none =>
    have reduced : n.parts = (ofDigits n.whole, n.power) := by
      unfold parts
      rw [whole, fraction]
      exact congrArg (Prod.mk _) (Int.zero_add _)
    have none : n.places = [] := by rw [places, fraction]; rfl
    rw [reduced, none, List.append_nil, List.length_nil, Nat.cast_zero, sub_zero]
    refine ⟨le_rfl, fun zero => ?_⟩
    rw [show ofDigits n.whole = 0 from zero, Nat.cast_zero, zero_mul]
  | some ds =>
    have some : n.places = ds := by rw [places, fraction]; rfl
    rw [some] at digits
    have reduced : n.parts = ((gather (ofDigits n.whole) ds).1,
        -((ds.length - (gather (ofDigits n.whole) ds).2 : Nat) : Int) + n.power) := by
      unfold parts
      rw [whole, fraction]
      refine congrArg (Prod.mk _) ?_
      rw [Nat.cast_zero, zero_sub]
      rfl
    obtain ⟨below, zero, few⟩ := gather_spec digits (ofDigits n.whole)
    have all : worth (ofDigits n.whole) ds = ofDigits (n.whole ++ ds) := by
      rw [Decimal.ofDigits_append]
      rfl
    rw [all] at below zero
    rw [reduced, some]
    generalize gather (ofDigits n.whole) ds = g at *
    constructor
    · calc (g.1 : ℚ) * 10 ^ (-((ds.length - g.2 : Nat) : Int) + n.power)
          = (g.1 * 10 ^ g.2 : Nat) * 10 ^ (n.power - ds.length) := by
            push_cast
            rw [mul_assoc, ← zpow_natCast, ← zpow_add₀ (by norm_num)]
            congr 2
            omega
        _ ≤ ofDigits (n.whole ++ ds) * 10 ^ (n.power - ds.length) := by
            gcongr
    · intro none
      rw [zero none, Nat.cast_zero, zero_mul]

end Number

/-- A number that a double can hold is not read as infinite. -/
theorem scale?_isSome {n : Nat} {e : Int} (positive : 0 < n)
    (small : (n : ℚ) * 10 ^ e ≤ (2 ^ 53 - 7 / 2) * 2 ^ (971 : Int)) :
    (scale? n e).isSome = true := by
  unfold scale?
  dsimp only
  split
  next => rfl
  next nonneg =>
    have power : e ≤ maxPower := by
      have one : (1 : ℚ) ≤ n := by exact_mod_cast positive
      have : (10 : ℚ) ^ e < 10 ^ (309 : Int) := by
        calc (10 : ℚ) ^ e ≤ n * 10 ^ e := le_mul_of_one_le_left (by positivity) one
          _ ≤ (2 ^ 53 - 7 / 2) * 2 ^ (971 : Int) := small
          _ < (2 ^ 53 - 1) * 2 ^ (971 : Int) := by gcongr; norm_num
          _ < 10 ^ (309 : Int) := Decimal.largest_lt_ten_pow
      have := (zpow_lt_zpow_iff_right₀ (by norm_num)).mp this
      unfold maxPower
      omega
    have finite := Decimal.isFinite_nearest_mul positive (Int.not_lt.mp nonneg) small
    rw [if_pos power, Decimal.isInf_of_isFinite finite]
    rfl

/-- A number that is well below the largest double is read as a double. -/
theorem Number.toFloat?_isSome {n : Number} (digits : ∀ c ∈ n.places, c.isDigit = true)
    (short : ofDigits n.whole ≤ maxSignificand) (positive : 0 < n.magnitude)
    (small : n.magnitude ≤ (2 ^ 53 - 7 / 2) * 2 ^ (971 : Int)) : n.toFloat?.isSome = true := by
  obtain ⟨below, zero⟩ := parts_spec digits short
  have nonzero : 0 < n.parts.1 := Nat.pos_of_ne_zero fun none => positive.ne' (zero none)
  unfold toFloat?
  dsimp only
  rw [Option.isSome_map]
  exact scale?_isSome nonzero (below.trans small)

/-- What stands after a point is digits. -/
theorem Number.Spelled.places_digits {n : Number} {cs : List Char} (spelled : n.Spelled cs) :
    ∀ c ∈ n.places, c.isDigit = true := by
  obtain ⟨-, places, -⟩ := spelled
  cases places with
  | absent => exact fun c mem => absurd mem List.not_mem_nil
  | places digits => exact digits.2

/-! ## Doubles -/

/-- What the text of a double is read as where a double is wanted. -/
def reread? (x : Float) : Option Float := (read? (floatText x)).bind Value.toFloat?

variable {x : Float}

theorem minus_eq (negative : Bool) : (Decimal.sign negative).toList = minus negative := by
  cases negative <;> rfl

/-- A double that is not finite has no number as its text. -/
theorem floatText_of_not_isFinite (special : ¬x.isFinite = true) : floatText x = "null" := by
  rw [Decimal.isFinite_iff, not_not] at special
  unfold floatText
  rw [Decimal.ofFloat_eq rfl, if_pos special]
  by_cases none : x.toBits.toNat % 2 ^ 52 = 0
  · rw [if_pos none]
  · rw [if_neg none]

theorem floatText_of_zero {negative : Bool} (value : Decimal.Binary.ofFloat x = .zero negative) :
    floatText x = Decimal.sign negative ++ "0.0" := by
  unfold floatText
  rw [value]

/-- A double other than zero is written with the fewest digits that read back. -/
theorem floatText_of_finite {negative : Bool} {m : Nat} {q : Int}
    (value : Decimal.Binary.ofFloat x = .finite negative m q) : floatText x =
      Decimal.sign negative ++ digitsText (Decimal.shortest .toEven m q).trimmed := by
  unfold floatText
  rw [value]

/-- The largest doubles but three are so far below the end that reading back does not reach it. -/
theorem value_shortest_le {m : Nat} {q : Int} (canonical : Decimal.Canonical m q)
    (low : q = 971 → m ≤ 2 ^ 53 - 4) :
    (Decimal.shortest .toEven m q).value ≤ (2 ^ 53 - 7 / 2) * 2 ^ (971 : Int) := by
  have has := (Decimal.shortest_spec canonical .toEven).2
  refine (Decimal.bounds_of_has canonical.positive has).2.1.trans ?_
  rcases Int.lt_or_eq_of_le canonical.highest with below | last
  · have m53 : (m : ℚ) + 1 ≤ 2 ^ 53 := by exact_mod_cast canonical.below
    calc ((m : ℚ) + 1 / 2) * 2 ^ q ≤ 2 ^ 53 * 2 ^ (970 : Int) := by
          gcongr
          · linarith
          · exact one_le_two
          · omega
      _ = 2 ^ 52 * 2 ^ (971 : Int) := by
          rw [show (971 : Int) = 970 + 1 by decide, zpow_add_one₀ two_ne_zero]
          ring
      _ ≤ (2 ^ 53 - 7 / 2) * 2 ^ (971 : Int) := by gcongr; norm_num
  · have m53 : (m : ℚ) + 4 ≤ 2 ^ 53 := by
      have := low last
      exact_mod_cast (show m + 4 ≤ 2 ^ 53 by omega)
    rw [last]
    gcongr
    linarith

/-- The three largest doubles are read back to what is finite. -/
theorem read_largest : ∀ negative, ∀ m ∈ [2 ^ 53 - 1, 2 ^ 53 - 2, 2 ^ 53 - 3],
    ((read? (Decimal.sign negative ++ digitsText (Decimal.shortest .toEven m 971).trimmed)).bind
      Value.toFloat?).isSome = true := by
  decide +kernel

/-- **A finite double is written as a number that a double can hold.** -/
theorem exists_number_floatText (finite : x.isFinite = true) :
    ∃ n : Number, n.Spelled (floatText x).toList ∧ n.toFloat?.isSome = true := by
  obtain ⟨negative, zero | ⟨m, q, value⟩⟩ := Decimal.ofFloat_of_isFinite finite
  · refine ⟨⟨negative, ['0'], some ['0'], none⟩, ?_, rfl⟩
    rw [floatText_of_zero zero, String.toList_append, minus_eq]
    exact .mk (whole_toDigits 0) (.places (digits_toDigits 0)) .absent
  · have canonical := (Decimal.toBits_of_finite value).1
    have positive := (Decimal.shortest_spec canonical .toEven).1
    have digits : 0 < (Decimal.shortest .toEven m q).trimmed.digits :=
      (Decimal.Digits.trimmed_go_spec _ _ positive).1
    obtain ⟨n, spelled, magnitude, short⟩ : WritesDigits negative _ _ :=
      writesDigits_digitsText digits
    have text := floatText_of_finite value
    rw [← minus_eq, ← String.toList_append, ← text] at spelled
    refine ⟨n, spelled, ?_⟩
    -- the bound leaves out the three largest doubles, each with either sign
    by_cases largest : q = 971 ∧ 2 ^ 53 - 3 ≤ m
    · obtain ⟨rfl, large⟩ := largest
      have below := canonical.below
      have known := read_largest negative m (by
        simp only [List.mem_cons, List.not_mem_nil, or_false]
        omega)
      rw [← text, read?_of_value (.number spelled)] at known
      exact known
    · rw [Decimal.Digits.value_trimmed positive] at magnitude
      have bound := value_shortest_le canonical fun last => by
        have := canonical.below
        omega
      refine Number.toFloat?_isSome spelled.places_digits short ?_ ?_
      · rw [magnitude]
        exact mul_pos (Nat.cast_pos.mpr positive) (zpow_pos (by norm_num) _)
      · rwa [magnitude]

/-- What a double is written as, and what that is read as. -/
theorem exists_value_floatText (x : Float) : ∃ v, (Node.value v).Written (floatText x).toList ∧
    v.toFloat? = reread? x ∧ (v.toFloat?.isSome = true ↔ x.isFinite = true) := by
  by_cases finite : x.isFinite = true
  · obtain ⟨n, spelled, some⟩ := exists_number_floatText finite
    refine ⟨_, .number spelled, ?_, iff_of_true some finite⟩
    unfold reread?
    rw [read?_of_value (.number spelled)]
    rfl
  · refine ⟨.null, ?_, ?_, iff_of_false Bool.false_ne_true finite⟩
    · rw [floatText_of_not_isFinite finite]
      exact .null
    · unfold reread?
      rw [floatText_of_not_isFinite finite]
      rfl

/-- **The text of a double is read as a double iff the double is finite.** -/
theorem reread?_isSome_iff : (reread? x).isSome = true ↔ x.isFinite = true := by
  obtain ⟨v, -, read, finite⟩ := exists_value_floatText x
  rwa [read] at finite

/-- Digits that are scaled in double arithmetic may come back one place off. -/
example : reread? 0.19731432378659775 ≠ some 0.19731432378659775 := by decide +kernel

end SketchSolver.Json
