import SketchSolver.Decimal.Rounded

/-!
# Decimal text

How chosen digits are laid out: positional or scientific, with a fixed number of places or as
many as the shortest digits need. `Special` spells the values that have no digits.

The program's texts of expressions and its messages have the shortest digits in positional form
(`shortPositional`), however many zeros that takes. The three other forms, `shortScientific`,
`roundedScientific` and `roundedFixed`, are for lists of values. None has a sign in front of a
positive number or exponent, and the sign of a negative zero is written. Digits and layout are
apart, so the JSON form lays the shortest digits out in its own way.
-/

namespace SketchSolver.Decimal

/-- The spelling of the values that are no finite numbers. -/
structure Special where
  nan : String
  infinity : String
  deriving Repr, DecidableEq

/-- The sign that goes in front. -/
def sign (negative : Bool) : String := if negative then "-" else ""

/-- The digits of a natural number, with zeros in front up to the given width. -/
def padded (width n : Nat) : String :=
  let digits := toString n
  "".pushn '0' (width - digits.length) ++ digits

namespace Digits

/-- The same decimal without zeros at the end of its digits. -/
def trimmed (d : Digits) : Digits :=
  go (digitCount d.digits) d
where
  go : Nat → Digits → Digits
    | 0, d => d
    | n + 1, d =>
      if d.digits % 10 = 0 ∧ d.digits ≠ 0 then go n ⟨d.digits / 10, d.exponent + 1⟩ else d

/-- The exponent of the leading digit. -/
def leading (d : Digits) : Int := d.exponent + (digitCount d.digits - 1 : Nat)

/-- One digit, the point and the others, and then the exponent as the argument writes it. The point
is left out when no digit follows. -/
def scientific (d : Digits) (exponent : Int → String) : String :=
  let digits := toString d.digits
  let rest := (digits.drop 1).toString
  (digits.take 1).toString ++ (if rest.isEmpty then "" else "." ++ rest) ++ exponent d.leading

/-- Positional text, with zeros wherever the digits do not reach the point. -/
def positional (d : Digits) : String :=
  if 0 ≤ d.exponent then toString d.digits ++ "".pushn '0' d.exponent.natAbs
  else fixed d.digits d.exponent.natAbs
where
  fixed (n places : Nat) : String :=
    toString (n / Nat.pow 10 places) ++ "." ++ padded places (n % Nat.pow 10 places)

end Digits

/-- Positional text with the given number of places, at least one. -/
def fixedText (n places : Nat) : String := Digits.positional.fixed n places

/-- The exponent mark without a sign for positive exponents: `e3`, `e-3`. -/
def bareExponent (e : Int) : String := "e" ++ toString e

/-- The exponent mark with a sign in either case: `e+3`, `e-3`. -/
def signedExponent (e : Int) : String := "e" ++ (if e < 0 then "" else "+") ++ toString e

/-- The shortest digits in scientific form: `1e0`, `-1.5e-3`, `-0e0`. -/
def shortScientific (special : Special) (x : Float) : String :=
  match Binary.ofFloat x with
  | .nan => special.nan
  | .infinite negative => sign negative ++ special.infinity
  | .zero negative => sign negative ++ "0e0"
  | .finite negative m q =>
    sign negative ++ (shortest .up m q).trimmed.scientific bareExponent

/-- The shortest digits in positional form, never with an exponent: `3`, `0.0000001`, `-0`. -/
def shortPositional (special : Special) (x : Float) : String :=
  match Binary.ofFloat x with
  | .nan => special.nan
  | .infinite negative => sign negative ++ special.infinity
  | .zero negative => sign negative ++ "0"
  | .finite negative m q => sign negative ++ (shortest .up m q).trimmed.positional

/-- One digit before the point and the given number after it: `-9.89992496600e-1`. -/
def roundedScientific (special : Special) (places : Nat) (x : Float) : String :=
  match Binary.ofFloat x with
  | .nan => special.nan
  | .infinite negative => sign negative ++ special.infinity
  | .zero negative => sign negative ++ "0." ++ padded places 0 ++ "e0"
  | .finite negative m q =>
    sign negative ++ (roundedSignificant (Positive.scaled m 2 q) places).scientific bareExponent

/-- The given number of places after the point: `-0.22241132`. -/
def roundedFixed (special : Special) (places : Nat) (x : Float) : String :=
  match Binary.ofFloat x with
  | .nan => special.nan
  | .infinite negative => sign negative ++ special.infinity
  | .zero negative => sign negative ++ fixedText 0 places
  | .finite negative m q =>
    sign negative ++ fixedText (roundedTo (Positive.scaled m 2 q) (-places)).digits places

end SketchSolver.Decimal
