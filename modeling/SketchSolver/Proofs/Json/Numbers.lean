import SketchSolver.Json.Decoding
import SketchSolver.Json.Writing
import SketchSolver.Proofs.Decimal.Layout
import SketchSolver.Proofs.Expr.Lexing
import SketchSolver.Proofs.Json.Grammar

/-!
# Written numbers

The text of chosen digits is a JSON number with the value of the digits
(`writesDigits_digitsText`), positional or scientific: no zero stands in front of other digits
(`whole_toDigits`), and a digit stands on both sides of a point.

There are four layouts, chosen by where the point falls: digits followed by zeros and a point
with a zero, digits with a point among them, a zero with a point and zeros in front of the
digits, and one digit with an exponent. Each of them has a lemma that says which parts the
number has (`writesDigits_whole`, `writesDigits_positional`, `writesDigits_fixed`,
`writesDigits_scientific`), and they share what is known about digits.

`Number.magnitude` is the exact value of a number, as a rational. It is no part of reading: a
reader that wants a double computes with doubles and may miss it. It is what the text means,
and the only way to say that a layout moves the point and does nothing else.

That the digits before the point fit a significand is recorded along with the value
(`WritesDigits`), because the reader treats digits that do not fit in a way of its own.
-/

namespace SketchSolver.Json

open Decimal (ofDigits)

/-! ## Digits -/

/-- The first digit counts as many as there are places behind it. -/
theorem ofDigits_cons (c : Char) (cs : List Char) :
    ofDigits (c :: cs) = 10 ^ cs.length * (c.toNat - '0'.toNat) + ofDigits cs := by
  rw [← List.singleton_append, Decimal.ofDigits_append]
  congr 2
  exact Nat.zero_add _

/-- Digits stay below the next power of ten. -/
theorem ofDigits_lt {ds : List Char} (digits : ∀ c ∈ ds, c.isDigit = true) :
    ofDigits ds < 10 ^ ds.length := by
  induction ds with
  | nil => exact Nat.one_pos
  | cons c cs ih =>
    have := ih fun d mem => digits d (List.mem_cons_of_mem c mem)
    have ⟨_, _⟩ := Token.toNat_of_isDigit (digits c List.mem_cons_self)
    have zero : '0'.toNat = 48 := rfl
    rw [ofDigits_cons, List.length_cons, Nat.pow_succ]
    nlinarith [show c.toNat - '0'.toNat ≤ 9 by omega]

/-- Only zero starts with the digit zero. -/
theorem head_toDigits {n : Nat} (positive : 0 < n) : (Nat.toDigits 10 n).head? ≠ some '0' := by
  intro first
  obtain ⟨cs, digits⟩ : ∃ cs, Nat.toDigits 10 n = '0' :: cs := by
    cases eq : Nat.toDigits 10 n with
    | nil => rw [eq] at first; cases first
    | cons c cs => rw [eq] at first; cases first; exact ⟨cs, rfl⟩
  have value : n = ofDigits cs := by
    have := Decimal.ofDigits_toDigits n
    rw [digits, ofDigits_cons, Nat.sub_self, Nat.mul_zero, Nat.zero_add] at this
    exact this.symm
  have less : ofDigits cs < 10 ^ cs.length := ofDigits_lt fun c mem =>
    (digits_toDigits n).2 c (digits ▸ List.mem_cons_of_mem _ mem)
  have large := Decimal.ten_pow_le_of_pos positive
  rw [Decimal.digitCount, digits, List.length_cons, Nat.add_sub_cancel] at large
  omega

/-- The digits of a natural number begin with a zero only if it is zero. -/
theorem whole_toDigits (n : Nat) : Whole (Nat.toDigits 10 n) := by
  refine ⟨digits_toDigits n, fun first => ?_⟩
  rcases Nat.eq_zero_or_pos n with rfl | positive
  · rfl
  · exact absurd first (head_toDigits positive)

/-- A natural number as it is written. -/
theorem spelled_nat (n : Nat) :
    Number.Spelled ⟨false, Nat.toDigits 10 n, none, none⟩ (Nat.toDigits 10 n) := by
  have spelled : Number.Spelled ⟨false, _, none, none⟩ _ := .mk (whole_toDigits n) .absent .absent
  rwa [List.append_nil, List.append_nil] at spelled

/-! ## Exact values -/

namespace Number

/-- The digits after the point. -/
def places (n : Number) : List Char := n.fraction.getD []

/-- The power of ten after the mark. -/
def power (n : Number) : Int :=
  match n.exponent with
  | none => 0
  | some (negative, ds) => if negative then -(ofDigits ds : Int) else ofDigits ds

/-- The value of a number, its sign apart. -/
def magnitude (n : Number) : ℚ :=
  ofDigits (n.whole ++ n.places) * 10 ^ (n.power - n.places.length)

end Number

/-- A text that writes a value in digits, of which those before the point fit a significand. -/
def WritesDigits (negative : Bool) (value : ℚ) (text : List Char) : Prop :=
  ∃ n : Number, n.Spelled (minus negative ++ text) ∧ n.magnitude = value ∧
    ofDigits n.whole ≤ maxSignificand

variable {d : Decimal.Digits} {negative : Bool}

theorem digits_padded (width n : Nat) : Digits (Decimal.padded width n).toList := by
  refine ⟨fun empty => ?_, Decimal.isDigit_of_mem_padded width n⟩
  rw [Decimal.toList_padded, List.append_eq_nil_iff] at empty
  exact Nat.toDigits_ne_nil empty.2

/-- Zeros may be appended to a number that is positive. -/
theorem whole_append_zeros {n : Nat} (positive : 0 < n) (k : Nat) :
    Whole (Nat.toDigits 10 n ++ List.replicate k '0') := by
  have digits := digits_toDigits n
  refine ⟨⟨List.append_ne_nil_of_left_ne_nil digits.1 _, fun c mem => ?_⟩, fun first => ?_⟩
  · exact (List.mem_append.mp mem).elim (digits.2 c) (isDigit_of_mem_zeros c)
  · rw [List.head?_append_of_ne_nil _ digits.1] at first
    exact absurd first (head_toDigits positive)

/-- Digits with zeros behind them, and no others. -/
theorem writesDigits_whole {n k : Nat} (positive : 0 < n)
    (leading : k + Decimal.digitCount n ≤ 16) :
    WritesDigits negative (n * 10 ^ (k : Int))
      (Nat.toDigits 10 n ++ List.replicate k '0' ++ ['.', '0']) := by
  have value : ofDigits (Nat.toDigits 10 n ++ List.replicate k '0') = 10 ^ k * n := by
    rw [Decimal.ofDigits_append, Decimal.ofDigits_toDigits, Decimal.ofDigits_zeros,
      List.length_replicate, Nat.add_zero]
  refine ⟨⟨negative, Nat.toDigits 10 n ++ List.replicate k '0', some ['0'], none⟩, ?_, ?_, ?_⟩
  · exact .mk (whole_append_zeros positive k) (.places (digits_toDigits 0)) .absent
  · show (ofDigits (_ ++ ['0']) : ℚ) * 10 ^ (0 - 1 : Int) = _
    rw [Decimal.ofDigits_append, value, show ofDigits ['0'] = 0 from rfl]
    push_cast
    rw [List.length_singleton, zpow_natCast]
    norm_num
    ring
  · show ofDigits (_ ++ _) ≤ _
    rw [value]
    calc 10 ^ k * n ≤ 10 ^ k * 10 ^ Decimal.digitCount n := by
          gcongr
          exact (Decimal.lt_ten_pow_digitCount n).le
      _ = 10 ^ (k + Decimal.digitCount n) := (pow_add _ _ _).symm
      _ ≤ 10 ^ 16 := Nat.pow_le_pow_right (by decide) leading
      _ ≤ maxSignificand := by decide

/-- Digits with a point before the last `p` of them. -/
theorem writesDigits_fixed {n p : Nat} (places : 0 < p)
    (leading : Decimal.digitCount n ≤ 16 + p) :
    WritesDigits negative (n * 10 ^ (-p : Int))
      (Nat.toDigits 10 (n / 10 ^ p) ++ '.' :: (Decimal.padded p (n % 10 ^ p)).toList) := by
  have rest := Nat.mod_lt n (Nat.pow_pos (n := p) (show 0 < 10 by decide))
  refine ⟨⟨negative, Nat.toDigits 10 (n / 10 ^ p), some (Decimal.padded p (n % 10 ^ p)).toList,
    none⟩, ?_, ?_, ?_⟩
  · have spelled : Number.Spelled ⟨negative, _, some _, none⟩ _ :=
      .mk (whole_toDigits (n / 10 ^ p)) (.places (digits_padded p (n % 10 ^ p))) .absent
    rwa [List.append_nil] at spelled
  · show (ofDigits (_ ++ (Decimal.padded _ _).toList) : ℚ) *
      10 ^ (0 - ((Decimal.padded _ _).toList.length : Int)) = _
    rw [Decimal.ofDigits_append, Decimal.ofDigits_toDigits, Decimal.ofDigits_padded,
      Decimal.length_padded places rest, Nat.div_add_mod, zero_sub]
  · show ofDigits (Nat.toDigits 10 (n / 10 ^ p)) ≤ _
    rw [Decimal.ofDigits_toDigits]
    have count : n < 10 ^ p * 10 ^ 16 := by
      rw [← pow_add]
      exact (Decimal.lt_ten_pow_digitCount n).trans_le
        (Nat.pow_le_pow_right (by decide) (by omega))
    exact (Nat.div_lt_of_lt_mul count).le.trans (by decide)

/-- The digits of a number of which at most sixteen stand before the point. -/
theorem writesDigits_positional (positive : 0 < d.digits) (leading : d.leading < 16) :
    WritesDigits negative d.value
      (if 0 ≤ d.exponent then d.positional ++ ".0" else d.positional).toList := by
  unfold Decimal.Digits.leading at leading
  unfold Decimal.Digits.positional Decimal.Digits.value
  split
  next whole =>
    obtain ⟨k, exponent⟩ := Int.eq_ofNat_of_zero_le whole
    rw [exponent] at leading ⊢
    rw [String.toList_append, String.toList_append, toList_pushn, toList_toString]
    exact writesDigits_whole positive (by omega)
  next fraction =>
    obtain ⟨p, exponent⟩ := Int.eq_ofNat_of_zero_le (show 0 ≤ -d.exponent by omega)
    rw [show d.exponent.natAbs = p by omega, show d.exponent = -p by omega]
    unfold Decimal.Digits.positional.fixed
    rw [String.toList_append, String.toList_append, toList_toString, List.append_assoc]
    exact writesDigits_fixed (by omega) (by omega)

/-- The mark and the sign of an exponent are those of JSON. -/
theorem power_signedExponent (e : Int) : ∃ negative ds,
    Power (some (negative, ds)) (Decimal.signedExponent e).toList ∧
      (if negative then -(ofDigits ds : Int) else ofDigits ds) = e := by
  unfold Decimal.signedExponent
  cases e with
  | ofNat n =>
    refine ⟨false, Nat.toDigits 10 n, ?_, ?_⟩
    · rw [if_neg (by rw [Int.ofNat_eq_natCast]; omega), String.toList_append, String.toList_append]
      show Power _ ('e' :: (['+'] ++ (Nat.repr n).toList))
      rw [Nat.toList_repr]
      exact .marked (Or.inl rfl) .plus (digits_toDigits n)
    · rw [Decimal.ofDigits_toDigits]
      rfl
  | negSucc n =>
    refine ⟨true, Nat.toDigits 10 (n + 1), ?_, ?_⟩
    · rw [if_pos (Int.negSucc_lt_zero n), String.toList_append, String.toList_append]
      show Power _ ('e' :: ([] ++ ("-" ++ Nat.repr (n + 1)).toList))
      rw [String.toList_append, Nat.toList_repr]
      exact .marked (Or.inl rfl) .minus (digits_toDigits (n + 1))
    · rw [Decimal.ofDigits_toDigits]
      rfl

/-- The characters of the layout with an exponent. -/
theorem toList_scientific {c : Char} {cs : List Char} (digits : Nat.toDigits 10 d.digits = c :: cs)
    (exponent : Int → String) : (d.scientific exponent).toList =
      c :: ((if cs = [] then [] else '.' :: cs) ++ (exponent d.leading).toList) := by
  have first : ((toString d.digits).take 1).toString.toList = [c] := by
    show ((toString d.digits).take 1).copy.toList = _
    rw [String.toList_copy_take, toList_toString, digits]
    rfl
  have rest : ((toString d.digits).drop 1).toString.toList = cs := by
    show ((toString d.digits).drop 1).copy.toList = _
    rw [String.toList_copy_drop, toList_toString, digits]
    rfl
  unfold Decimal.Digits.scientific
  dsimp only
  rw [String.toList_append, String.toList_append, first]
  generalize ((toString d.digits).drop 1).toString = r at rest ⊢
  subst rest
  by_cases empty : r = ""
  · rw [empty]
    rfl
  · have some : r.toList ≠ [] := fun none => empty (String.toList_eq_nil_iff.mp none)
    rw [if_neg (by rwa [String.isEmpty_iff]), if_neg some, String.toList_append]
    rfl

/-- The digits of a number of which one stands before the point. -/
theorem writesDigits_scientific :
    WritesDigits negative d.value (d.scientific Decimal.signedExponent).toList := by
  obtain ⟨c, cs, digits⟩ := List.exists_cons_of_ne_nil (@Nat.toDigits_ne_nil d.digits 10)
  obtain ⟨sign, ds, power, exponent⟩ := power_signedExponent d.leading
  have all := digits_toDigits d.digits
  rw [digits] at all
  have first : Digits [c] := ⟨List.cons_ne_nil c [], fun d mem =>
    all.2 d (List.mem_singleton.mp mem ▸ List.mem_cons_self)⟩
  -- a single digit has no point behind it
  have fraction :
      Fraction (if cs = [] then none else some cs) (if cs = [] then [] else '.' :: cs) := by
    split
    next => exact .absent
    next some => exact .places ⟨some, fun d mem => all.2 d (List.mem_cons_of_mem c mem)⟩
  rw [toList_scientific digits]
  refine ⟨⟨negative, [c], if cs = [] then none else some cs, some (sign, ds)⟩,
    .mk ⟨first, fun _ => rfl⟩ fraction power, ?_, ?_⟩
  · have places : (if cs = [] then none else some cs).getD [] = cs := by
      split
      next empty => exact empty.symm
      next => rfl
    have count : Decimal.digitCount d.digits = cs.length + 1 := by
      unfold Decimal.digitCount
      rw [digits, List.length_cons]
    unfold Number.magnitude Number.places Number.power Decimal.Digits.value
    dsimp only
    rw [places, exponent, List.singleton_append, ← digits, Decimal.ofDigits_toDigits]
    congr 2
    unfold Decimal.Digits.leading
    omega
  · have : ofDigits [c] < 10 := ofDigits_lt first.2
    exact this.le.trans (by decide)

/-- **The text of digits is a number with their value**, whatever the layout. -/
theorem writesDigits_digitsText (positive : 0 < d.digits) :
    WritesDigits negative d.value (digitsText d).toList := by
  unfold digitsText
  split
  next positional =>
    unfold isPositional at positional
    rw [Bool.and_eq_true, decide_eq_true_eq, decide_eq_true_eq] at positional
    exact writesDigits_positional positive positional.2
  next => exact writesDigits_scientific

end SketchSolver.Json
