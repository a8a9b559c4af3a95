import RegisterTransfer.Decimal.Shortest
set_option autoImplicit false

/-!
# Nearest floating-point values

A decimal stands for the floating-point value of 64 bits that is nearest to it, of two that are
equally near the one with an even significand.  What is computed here, in exact arithmetic, is the
integer part of that value.
-/

namespace RegisterTransfer.Decimal

/-- The quotient rounded to the nearest natural, a half to the even one. -/
def roundDiv (num den : Nat) : Nat :=
  let floor := num / den
  match compare (2 * (num % den)) den with
  | .lt => floor
  | .gt => floor + 1
  | .eq => if floor % 2 = 0 then floor else floor + 1

/-- The greatest `k` with `2 ^ k` at most the fraction, which is positive. -/
def Fraction.log2 (v : Fraction) : Int :=
  let estimate : Int := Nat.log2 v.num - Nat.log2 v.den
  if (Fraction.scaled 1 2 estimate).order v == .gt then estimate - 1 else estimate

/-- The exponent of the last place of the floating-point values around a fraction. -/
def Fraction.lastPlace (v : Fraction) : Int := max (v.log2 - 52) (-1074)

/-- The integer part of the floating-point value nearest to a positive fraction, unless that
value is past the greatest one. -/
def Fraction.nearestWhole? (v : Fraction) : Option Nat :=
  let e := v.lastPlace
  let places := roundDiv (v.num * Nat.pow 2 (-e).toNat) (v.den * Nat.pow 2 e.toNat)
  let value := Fraction.scaled places 2 e
  if value.num / value.den < Nat.pow 2 1024 then some (value.num / value.den) else none

/-- The integer part of the floating-point value nearest to a decimal, unless that value is past
the greatest one.  A decimal of more than 310 places before the point is past it, and one that
starts more than 400 places behind the point has no integer part. -/
def Scaled.nearestWhole? (d : Scaled) : Option Nat :=
  let places := ((Nat.toDigits 10 d.digits).length : Int) + d.exponent
  if d.digits = 0 then some 0
  else if 310 < places then none
  else if places < -400 then some 0
  else (Fraction.scaled d.digits 10 d.exponent).nearestWhole?

end RegisterTransfer.Decimal
