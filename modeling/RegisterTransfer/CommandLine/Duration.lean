import RegisterTransfer.Text.Quoted
import RegisterTransfer.Text.Utf8
set_option autoImplicit false

/-!
# Durations

A duration is written as a sign and a sequence of decimals with their units, such as `1h15m30.5s`.
It is read as a number of nanoseconds.
-/

namespace RegisterTransfer.Duration

/-- Why a text is no duration. -/
inductive Failure
  | invalid
  | missingUnit
  | unknownUnit (unit : String)
  deriving DecidableEq, Repr, Inhabited

/-- A text in double quotes; what is not printable ASCII is written byte by byte. -/
def quoted (s : String) : String :=
  let one := fun (c : Char) =>
    if c.toNat < 0x20 ∨ 0x80 ≤ c.toNat then
      String.join ((Utf8.encode c.toString).map fun b => "\\x" ++ Text.hexadecimal 2 b.toNat)
    else if c = '"' ∨ c = '\\' then "\\" ++ c.toString
    else c.toString
  "\"" ++ String.join (s.toList.map one) ++ "\""

/-- The failure to read a text, in words. -/
def Failure.message (text : String) : Failure → String
  | .invalid => "time: invalid duration " ++ quoted text
  | .missingUnit => "time: missing unit in duration " ++ quoted text
  | .unknownUnit unit => "time: unknown unit " ++ quoted unit ++ " in duration " ++ quoted text

/-- The units in nanoseconds. -/
def units : List (String × Nat) :=
  [("ns", 1), ("us", 1000), ("µs", 1000), ("μs", 1000), ("ms", 1000000),
   ("s", 1000000000), ("m", 60000000000), ("h", 3600000000000)]

/-- The number of nanoseconds that no duration reaches. -/
def limit : Nat := 9223372036854775808

/-- The number of some digits. -/
def number (digits : List Char) : Nat :=
  digits.foldl (fun n c => 10 * n + (c.toNat - '0'.toNat)) 0

/-- The most digits of a fraction that count; the number of the others is dropped. -/
def fractionDigits : Nat := 18

/-- The decimals with their units, added up; `fuel` bounds their number. -/
def sum : Nat → Nat → List Char → Except Failure Nat
  | 0, total, _ => .ok total
  | _, total, [] => .ok total
  | fuel + 1, total, cs => do
    let whole := cs.takeWhile Char.isDigit
    let rest := cs.dropWhile Char.isDigit
    if limit < number whole then throw .invalid
    let (fraction, rest) :=
      match rest with
      | '.' :: behind => (behind.takeWhile Char.isDigit, behind.dropWhile Char.isDigit)
      | _ => ([], rest)
    if whole.isEmpty ∧ fraction.isEmpty then throw .invalid
    let letters := rest.takeWhile fun c => c ≠ '.' ∧ !c.isDigit
    if letters.isEmpty then throw .missingUnit
    let name := String.ofList letters
    match units.lookup name with
    | none => throw (.unknownUnit name)
    | some unit =>
      if limit / unit < number whole then throw .invalid
      let counted := fraction.take fractionDigits
      let value := number whole * unit + number counted * unit / Nat.pow 10 counted.length
      if limit < value ∨ limit < total + value then throw .invalid
      sum fuel (total + value) (rest.dropWhile fun c => c ≠ '.' ∧ !c.isDigit)

/-- The duration of a text, in nanoseconds. -/
def parse (text : String) : Except Failure Int := do
  let (negative, cs) :=
    match text.toList with
    | '-' :: cs => (true, cs)
    | '+' :: cs => (false, cs)
    | cs => (false, cs)
  if cs = ['0'] then return 0
  if cs.isEmpty then throw .invalid
  let n ← sum cs.length 0 cs
  if negative then return -n
  else if n < limit then return n
  else throw .invalid

end RegisterTransfer.Duration
