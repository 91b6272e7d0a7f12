import SketchSolver.Decimal.Layout
import SketchSolver.Proofs.Decimal.Shortest
import SketchSolver.Proofs.Expr.Grammar

/-!
# Positional text

The positional text of digits is the text of a number without an exponent, and the value of
the digits is the value of the text (`exists_mantissa_positional`). So a double without a sign
is written as a number that is read as the same double (`spelled_shortPositional`).

Digits come as a natural number and a power of ten. Depending on the power the text is the
number followed by zeros, the number with a point among its digits, or a zero and a point
followed by zeros and the number. In each case the digits before and after the point, read
together, are the digits of the number up to zeros, and the power that belongs to them makes
the value the same.

Zeros at the end of the number are trimmed first, and raise the power (`value_trimmed`). So
the text has as few digits as it can have for the value.

A double with a sign has its text with a minus in front of that of its opposite
(`shortPositional_of_signed`), the negative zero included. To an expression the minus is an
operator, and the rest is a number.
-/

namespace SketchSolver

/-! ## The digits of natural numbers -/

/-- The text of a natural number has its digits. -/
theorem toList_toString (n : Nat) : (toString n).toList = Nat.toDigits 10 n := by
  rw [Nat.toString_eq_repr, Nat.toList_repr]

theorem digits_toDigits (n : Nat) : Digits (Nat.toDigits 10 n) :=
  ⟨Nat.toDigits_ne_nil, fun _ mem => Nat.isDigit_of_mem_toDigits (by decide) le_rfl mem⟩

theorem isDigit_of_mem_zeros {n : Nat} : ∀ c ∈ List.replicate n '0', c.isDigit = true := by
  intro c mem
  rw [List.eq_of_mem_replicate mem]
  rfl

theorem toList_pushn (s : String) (c : Char) (n : Nat) :
    (s.pushn c n).toList = s.toList ++ List.replicate n c := by
  rw [String.pushn_eq_repeat_push]
  induction n with
  | zero => rw [List.replicate_zero, List.append_nil, Nat.repeat]
  | succ n ih =>
    rw [Nat.repeat, String.toList_push, ih, List.replicate_succ', List.append_assoc]

namespace Decimal

/-- The digits of a number are worth the number. -/
theorem ofDigits_toDigits (n : Nat) : ofDigits (Nat.toDigits 10 n) = n :=
  Nat.ofDigitChars_ten_toDigits

/-- The digits of two texts side by side. -/
theorem ofDigits_append (ds es : List Char) :
    ofDigits (ds ++ es) = 10 ^ es.length * ofDigits ds + ofDigits es := by
  show Nat.ofDigitChars 10 (ds ++ es) 0 = _
  rw [Nat.ofDigitChars_append, Nat.ofDigitChars_eq_ofDigitChars_zero]
  rfl

theorem ofDigits_zeros (n : Nat) : ofDigits (List.replicate n '0') = 0 :=
  Nat.ofDigitChars_replicate_zero

theorem toList_padded (width n : Nat) : (padded width n).toList =
    List.replicate (width - digitCount n) '0' ++ Nat.toDigits 10 n := by
  unfold padded
  dsimp only
  rw [String.toList_append, toList_pushn, toList_toString, ← String.length_toList, toList_toString]
  rfl

theorem isDigit_of_mem_padded (width n : Nat) :
    ∀ c ∈ (padded width n).toList, c.isDigit = true := by
  intro c mem
  rw [toList_padded] at mem
  exact (List.mem_append.mp mem).elim (isDigit_of_mem_zeros c) ((digits_toDigits n).2 c)

theorem length_padded {width n : Nat} (positive : 0 < width) (fits : n < 10 ^ width) :
    (padded width n).toList.length = width := by
  have : digitCount n ≤ width := (Nat.length_toDigits_le_iff (by decide) positive).mpr fits
  rw [toList_padded, List.length_append, List.length_replicate]
  show width - digitCount n + digitCount n = width
  omega

theorem ofDigits_padded (width n : Nat) : ofDigits (padded width n).toList = n := by
  rw [toList_padded, ofDigits_append, ofDigits_zeros, ofDigits_toDigits, Nat.mul_zero, Nat.zero_add]

/-! ## Positional text of digits -/

namespace Digits

theorem trimmed_go_spec (fuel : Nat) (d : Digits) (positive : 0 < d.digits) :
    0 < (trimmed.go fuel d).digits ∧ (trimmed.go fuel d).value = d.value := by
  induction fuel generalizing d with
  | zero => exact ⟨positive, rfl⟩
  | succ fuel ih =>
    rw [trimmed.go]
    split
    next ends =>
      have parts : d.digits = 10 * (d.digits / 10) := by omega
      have value : (⟨d.digits / 10, d.exponent + 1⟩ : Digits).value = d.value := by
        unfold Digits.value
        dsimp only
        rw [zpow_add_one₀ (by norm_num), mul_comm (10 ^ d.exponent), ← mul_assoc]
        congr 1
        rw [mul_comm]
        exact_mod_cast parts.symm
      rw [← value]
      exact ih _ (show 0 < d.digits / 10 by omega)
    next => exact ⟨positive, rfl⟩

/-- Trimming changes neither the value nor that it is positive. -/
theorem value_trimmed {d : Digits} (positive : 0 < d.digits) : d.trimmed.value = d.value :=
  (trimmed_go_spec _ d positive).2

/-- Positional text has no exponent, and its digits have the value that was written. -/
theorem exists_mantissa_positional (d : Digits) :
    ∃ whole fraction, Mantissa whole fraction d.positional.toList ∧
      (ofDigits (whole ++ fraction) : ℚ) * 10 ^ (-fraction.length : Int) = d.value := by
  unfold positional Digits.value
  split
  next whole =>
    refine ⟨Nat.toDigits 10 d.digits ++ List.replicate d.exponent.natAbs '0', [], ?_, ?_⟩
    · rw [String.toList_append, toList_pushn, toList_toString]
      refine .whole ⟨List.append_ne_nil_of_left_ne_nil Nat.toDigits_ne_nil _, fun c mem => ?_⟩
      exact (List.mem_append.mp mem).elim ((digits_toDigits _).2 c) (isDigit_of_mem_zeros c)
    · rw [List.append_nil, ofDigits_append, ofDigits_toDigits, ofDigits_zeros,
        List.length_replicate, zpow_of_nonneg (Int.not_lt.mpr whole)]
      push_cast
      rw [List.length_nil, Nat.cast_zero, neg_zero, zpow_zero]
      ring
  next fraction =>
    have positive : 0 < d.exponent.natAbs := by omega
    have rest := Nat.mod_lt d.digits (Nat.pow_pos (n := d.exponent.natAbs) (show 0 < 10 by decide))
    refine ⟨Nat.toDigits 10 (d.digits / 10 ^ d.exponent.natAbs),
      (padded d.exponent.natAbs (d.digits % 10 ^ d.exponent.natAbs)).toList, ?_, ?_⟩
    · unfold positional.fixed
      rw [String.toList_append, String.toList_append, toList_toString, List.append_assoc]
      exact .pointed (digits_toDigits _) (isDigit_of_mem_padded _ _)
    · rw [ofDigits_append, ofDigits_toDigits, ofDigits_padded, length_padded positive rest,
        Nat.div_add_mod]
      congr 2
      omega

end Digits

/-! ## Doubles -/

variable {x : Float} (special : Special)

/-- **A double that is not signed is written as a number that is read as the same double.** -/
theorem spelled_shortPositional (finite : x.isFinite = true) (unsigned : ¬Signed x) :
    Spelled (.number x) (shortPositional special x).toList := by
  unfold shortPositional
  rcases ofFloat_of_not_signed finite unsigned with zero | ⟨m, q, value⟩
  · have read : Spelled (.number (nearest 0 0)) ['0'] :=
      .number (.whole (digits_toDigits 0)) .absent
    have noDigits : nearest 0 0 = 0 := by
      unfold nearest
      exact if_pos rfl
    have text : (sign false ++ "0").toList = ['0'] := by decide
    rw [zero, eq_zero_of_ofFloat zero]
    dsimp only
    rwa [text, ← noDigits]
  · have canonical := (toBits_of_finite value).1
    obtain ⟨positive, has⟩ := shortest_spec canonical .up
    obtain ⟨whole, fraction, mantissa, digits⟩ :=
      (shortest .up m q).trimmed.exists_mantissa_positional
    rw [Digits.value_trimmed positive] at digits
    rw [← digits] at has
    have read := Spelled.number mantissa .absent
    rw [Int.zero_sub, nearest_eq value has, List.append_nil] at read
    rw [value]
    dsimp only [sign]
    rwa [if_neg Bool.false_ne_true, String.empty_append]

/-- A signed double is written as its opposite behind the sign. -/
theorem shortPositional_of_signed (finite : x.isFinite = true) (signed : Signed x) :
    shortPositional special x = "-" ++ shortPositional special (-x) := by
  unfold shortPositional
  rcases ofFloat_neg finite signed with ⟨zero, opposite⟩ | ⟨m, q, value, opposite⟩
  · rw [zero, opposite]
    dsimp only [sign]
    rw [if_pos rfl, if_neg Bool.false_ne_true, String.empty_append]
  · rw [value, opposite]
    dsimp only [sign]
    rw [if_pos rfl, if_neg Bool.false_ne_true, String.empty_append]

end Decimal

end SketchSolver
