import RegisterTransfer.Decimal.Shortest
set_option autoImplicit false

/-!
# Decimal text of floating-point values

How a floating-point value is written: its shortest digits, either with a point among them or with
an exponent of at least two digits.
-/

namespace RegisterTransfer.Decimal

/-- The choices of a layout: the exponents of the leading digit that are written out in place, and
the least number of digits of an exponent. -/
structure Layout where
  plainFrom : Int
  plainBelow : Int
  exponentDigits : Nat
  deriving DecidableEq, Repr, Inhabited

namespace Layout

/-- The digits with a point after the first of them and an exponent. -/
def scientific (l : Layout) (digits : List Char) (exponent : Int) : String :=
  let mantissa :=
    match digits with
    | [] => []
    | [d] => [d]
    | d :: rest => d :: '.' :: rest
  let size := Nat.toDigits 10 exponent.natAbs
  let sign := if exponent < 0 then '-' else '+'
  String.ofList (mantissa ++ 'e' :: sign
    :: (List.replicate (l.exponentDigits - size.length) '0' ++ size))

/-- The digits in place, the first of them standing for a multiple of `10 ^ exponent`. -/
def plain (digits : List Char) (exponent : Int) : String :=
  if exponent < 0 then
    String.ofList ('0' :: '.' :: (List.replicate (-exponent - 1).toNat '0' ++ digits))
  else
    let whole := exponent.toNat + 1
    let padded := digits ++ List.replicate (whole - digits.length) '0'
    match padded.drop whole with
    | [] => String.ofList padded
    | rest => String.ofList (padded.take whole ++ '.' :: rest)

/-- The text of a positive decimal. -/
def text (l : Layout) (d : Scaled) : String :=
  let digits := Nat.toDigits 10 d.digits
  let exponent := d.exponent + digits.length - 1
  if l.plainFrom ≤ exponent ∧ exponent < l.plainBelow then plain digits exponent
  else l.scientific digits exponent

/-- The bit that makes a value of 64 bits negative. -/
def signBit : Nat := 0x8000000000000000

/-- The text of a value of 64 bits. -/
def ofBits (l : Layout) (bits : UInt64) : String :=
  let negative := signBit ≤ bits.toNat
  let magnitude := bits.toNat % signBit
  if 0x7FF * hiddenBit < magnitude then "NaN"
  else if magnitude = 0x7FF * hiddenBit then (if negative then "-Inf" else "+Inf")
  else
    let digits := if magnitude = 0 then "0" else l.text (shortest (.ofBits bits))
    if negative then "-" ++ digits else digits

end Layout

end RegisterTransfer.Decimal
