set_option autoImplicit false

/-!
# Numerals

Integers written with digits: in base ten, or in the base that the first characters name.  A reader
that must answer a signed number of 64 bits tells a text that is no numeral from a numeral that is
too large.
-/

namespace RegisterTransfer.Numeral

/-- The value of a digit in a base of at most sixteen. -/
def digit? (base : Nat) (c : Char) : Option Nat :=
  let value :=
    if c.isDigit then c.toNat - '0'.toNat
    else if 'a' ≤ c ∧ c ≤ 'f' then c.toNat - 'a'.toNat + 10
    else if 'A' ≤ c ∧ c ≤ 'F' then c.toNat - 'A'.toNat + 10
    else base
  if value < base then some value else none

/-- A natural of at least one digit. -/
def natural? (base : Nat) (cs : List Char) : Option Nat :=
  if cs.isEmpty then none
  else cs.foldlM (fun n c => (digit? base c).map (n * base + ·)) 0

/-- The base that the first characters name, and the digits after them; a leading zero alone names
base eight. -/
def baseOf : List Char → Nat × List Char
  | '0' :: c :: rest =>
    if c = 'x' ∨ c = 'X' then (16, rest)
    else if c = 'o' ∨ c = 'O' then (8, rest)
    else if c = 'b' ∨ c = 'B' then (2, rest)
    else (8, c :: rest)
  | cs => (10, cs)

/-- A natural in the base that its first characters name. -/
def literal? (cs : List Char) : Option Nat := natural? (baseOf cs).1 (baseOf cs).2

/-- A number with an optional sign before what `read` reads. -/
def signed? (read : List Char → Option Nat) : List Char → Option Int
  | '-' :: cs => (read cs).map fun n => -(n : Int)
  | '+' :: cs => (read cs).map Int.ofNat
  | cs => (read cs).map Int.ofNat

/-- The least number above the signed integers of 64 bits. -/
def limit : Int := 9223372036854775808

/-- The least number above the unsigned integers of 64 bits. -/
def wordLimit : Nat := 18446744073709551616

/-- Whether a number has a place among the signed integers of 64 bits. -/
def isInt64 (n : Int) : Bool := -limit ≤ n && n < limit

/-! ## Signed numbers of 64 bits -/

/-- Why a text is not a signed number of 64 bits. -/
inductive Failure
  | form
  | range
  deriving DecidableEq, Repr, Inhabited

/-- The failure to read a text, in words. -/
def Failure.message (quoted : String) (e : Failure) : String :=
  let reason := match e with
    | .form => "invalid syntax"
    | .range => "value out of range"
  "strconv.ParseInt: parsing " ++ quoted ++ ": " ++ reason

/-- Whether every underscore stands between two digits; the letter that names a base counts as a
digit. -/
def underscoresSeparate : Bool → List Char → Bool
  | _, [] => true
  | digitBefore, '_' :: rest =>
    digitBefore && (rest.head?.any fun c => (digit? 16 c).isSome) && underscoresSeparate false rest
  | _, c :: rest => underscoresSeparate (digit? 16 c).isSome rest

/-- The digits before the first one that makes the number too large for 64 bits. -/
def digits (base : Nat) (n : Nat) : List Char → Except Failure Nat
  | [] => .ok n
  | c :: rest =>
    match digit? base c with
    | none => .error .form
    | some d => if n * base + d < wordLimit then digits base (n * base + d) rest else .error .range

/-- An unsigned integer of 64 bits; where the base is named by the first characters, underscores may
separate the digits. -/
def unsigned (named : Bool) (cs : List Char) : Except Failure Nat := do
  let (base, ds) := if named then baseOf cs else (10, cs)
  if ds.isEmpty then throw .form
  if named then
    let n ← digits base 0 (ds.filter (· ≠ '_'))
    if underscoresSeparate (base ≠ 10) ds then return n else throw .form
  else
    digits base 0 ds

/-- A signed number of 64 bits. -/
def int64 (named : Bool) (text : String) : Except Failure Int := do
  let (negative, cs) :=
    match text.toList with
    | '-' :: cs => (true, cs)
    | '+' :: cs => (false, cs)
    | cs => (false, cs)
  let n ← unsigned named cs
  let value : Int := if negative then -n else n
  if isInt64 value then return value else throw .range

end RegisterTransfer.Numeral
