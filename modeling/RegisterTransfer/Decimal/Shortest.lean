set_option autoImplicit false

/-!
# Shortest decimals

The shortest decimal of a floating-point value is the decimal of fewest digits among those that
read back as that value, and of these the nearest one.  The reals that read back as a value form an
interval that reaches halfway to its two neighbours; the search goes from one digit upwards and
tests, in exact arithmetic, the two decimals around the value.
-/

namespace RegisterTransfer.Decimal

/-- A positive finite value `significand * 2 ^ exponent` of 64 bits.  It is `narrow` if the
neighbour below is half as far away as the neighbour above. -/
structure Binary where
  significand : Nat
  exponent : Int
  narrow : Bool
  deriving DecidableEq, Repr, Inhabited

/-- The bit above the 52 stored bits of a significand. -/
def hiddenBit : Nat := 0x10000000000000

/-- The magnitude of a value of 64 bits that is neither infinite nor undefined. -/
def Binary.ofBits (bits : UInt64) : Binary :=
  let exponent : Nat := (bits.toNat / hiddenBit) % 0x800
  let fraction : Nat := bits.toNat % hiddenBit
  if exponent = 0 then
    { significand := fraction, exponent := -1074, narrow := false }
  else
    { significand := hiddenBit + fraction, exponent := exponent - 1075,
      narrow := fraction = 0 ∧ 1 < exponent }

/-- A decimal `digits * 10 ^ exponent`. -/
structure Scaled where
  digits : Nat
  exponent : Int
  deriving DecidableEq, Repr, Inhabited

/-- A fraction of naturals; the denominators below are never zero. -/
structure Fraction where
  num : Nat
  den : Nat
  deriving DecidableEq, Repr, Inhabited

/-- The fraction `n * base ^ e`. -/
def Fraction.scaled (n base : Nat) (e : Int) : Fraction :=
  ⟨n * Nat.pow base e.toNat, Nat.pow base (-e).toNat⟩

/-- The order of two fractions. -/
def Fraction.order (a b : Fraction) : Ordering := compare (a.num * b.den) (b.num * a.den)

namespace Binary

/-- The value as a fraction. -/
def fraction (x : Binary) : Fraction := .scaled x.significand 2 x.exponent

/-- The lower end of the interval of reals that read back as the value. -/
def lower (x : Binary) : Fraction :=
  .scaled (4 * x.significand - (if x.narrow then 1 else 2)) 2 (x.exponent - 2)

/-- The upper end of the interval of reals that read back as the value. -/
def upper (x : Binary) : Fraction := .scaled (4 * x.significand + 2) 2 (x.exponent - 2)

/-- Whether a decimal reads back as the value: it lies between the ends, which themselves belong
to the interval if the significand is even. -/
def readsBack (x : Binary) (d : Scaled) : Bool :=
  let y := Fraction.scaled d.digits 10 d.exponent
  let ends := x.significand % 2 == 0
  let low := x.lower.order y
  let high := y.order x.upper
  (low == .lt || ends && low == .eq) && (high == .lt || ends && high == .eq)

/-- The least `k` with the value below `10 ^ k`, found around an estimate from the binary
logarithm. -/
def magnitude (x : Binary) : Int :=
  let estimate := (Nat.log2 x.significand + x.exponent) * 30103 / 100000
  let below := fun (k : Int) => x.fraction.order (.scaled 1 10 k) == .lt
  ([estimate - 1, estimate, estimate + 1].find? below).getD (estimate + 2)

/-- The decimal on the grid `10 ^ e` that reads back as the value and is nearest to it; of two that
are equally near, the one with an even last digit. -/
def onGrid? (x : Binary) (e : Int) : Option Scaled :=
  let v := x.fraction
  let grid := Fraction.scaled 1 10 e
  let floor := (v.num * grid.den) / (v.den * grid.num)
  let low : Scaled := ⟨floor, e⟩
  let high : Scaled := ⟨floor + 1, e⟩
  match x.readsBack low, x.readsBack high with
  | true, true =>
    -- Twice the value against the sum of the two neighbours.
    match Fraction.order ⟨2 * v.num, v.den⟩ (.scaled (2 * floor + 1) 10 e) with
    | .lt => some low
    | .gt => some high
    | .eq => some (if floor % 2 = 0 then low else high)
  | true, false => some low
  | false, true => some high
  | false, false => none

end Binary

/-- The decimal without trailing zeros in its digits; `fuel` bounds their number. -/
def Scaled.trimmed (d : Scaled) : Nat → Scaled
  | 0 => d
  | fuel + 1 =>
    if d.digits ≠ 0 ∧ d.digits % 10 = 0 then
      Scaled.trimmed ⟨d.digits / 10, d.exponent + 1⟩ fuel
    else
      d

/-- The most digits that the shortest decimal of a value of 64 bits has. -/
def maxDigits : Nat := 17

/-- The shortest decimal of a positive value, without trailing zeros. -/
def shortest (x : Binary) : Scaled :=
  let k := x.magnitude
  let found := (List.range maxDigits).findSome? fun (n : Nat) => x.onGrid? (k - (n + 1))
  -- Seventeen digits always suffice; the exact decimal stands for the case that they did not.
  let exact : Scaled :=
    ⟨x.significand * Nat.pow 2 x.exponent.toNat * Nat.pow 5 (-x.exponent).toNat, min x.exponent 0⟩
  (found.getD exact).trimmed (maxDigits + 1)

end RegisterTransfer.Decimal
