import RegisterTransfer.Decimal.Nearest
import RegisterTransfer.Text.Numeral
import RegisterTransfer.Yaml.Node
import RegisterTransfer.Yaml.Timestamp
set_option autoImplicit false

/-!
# The values of scalars

A scalar in quotes is a text.  What a plain scalar is depends on its form: a word for nothing, for
a truth value or for a number that is not finite; a timestamp; an integer in one of four bases; a
decimal; and otherwise a text.
-/

namespace RegisterTransfer.Yaml

/-- A floating-point value as far as an integer can be made of it: undefined, infinite, or finite
with its integer part. -/
inductive Approximate
  | undefined
  | infinite (negative : Bool)
  | finite (whole : Int)
  deriving DecidableEq, Repr, Inhabited

/-- What a scalar stands for. -/
inductive Scalar
  | null
  | bool (b : Bool)
  | int (n : Int)
  | float (x : Approximate)
  | timestamp
  | text
  deriving DecidableEq, Repr, Inhabited

/-- The tag of a scalar. -/
def Scalar.tag : Scalar → Tag
  | .null => .null
  | .bool _ => .bool
  | .int _ => .int
  | .float _ => .float
  | .timestamp => .timestamp
  | .text => .str

namespace Scalar

open Numeral

/-! ## Words -/

/-- The words that stand for a value. -/
def words : List (Scalar × List String) :=
  [(.bool true, ["true", "True", "TRUE"]),
   (.bool false, ["false", "False", "FALSE"]),
   (.null, ["", "~", "null", "Null", "NULL"]),
   (.float .undefined, [".nan", ".NaN", ".NAN"]),
   (.float (.infinite false), [".inf", ".Inf", ".INF", "+.inf", "+.Inf", "+.INF"]),
   (.float (.infinite true), ["-.inf", "-.Inf", "-.INF"])]

/-- The value that a word stands for. -/
def word? (s : String) : Option Scalar :=
  (words.find? fun w => w.2.contains s).map Prod.fst

/-! ## Integers -/

/-- An integer: signed in 64 bits, or without a sign in 64 bits. -/
def integer? (cs : List Char) : Option Int :=
  (signed? literal? cs).filter isInt64
    <|> (literal? cs).bind fun n => if n < Numeral.wordLimit then some (n : Int) else none

/-- An integer in base two or eight whose sign follows the letter of the base. -/
def innerSigned? : List Char → Option Int
  | '0' :: 'b' :: cs => (signed? (natural? 2) cs).filter isInt64
  | '0' :: 'o' :: cs => (signed? (natural? 8) cs).filter isInt64
  | _ => none

/-! ## Decimals -/

/-- The exponent after the digits of a decimal: nothing, or a letter, an optional sign and at
least one digit. -/
def exponent? : List Char → Option Int
  | [] => some 0
  | c :: cs => if c = 'e' ∨ c = 'E' then signed? (natural? 10) cs else none

/-- A decimal without a sign: digits with an optional point among them, of which at least one
stands before the point or behind it, and an optional exponent. -/
def magnitude? (cs : List Char) : Option Decimal.Scaled := do
  let whole := cs.takeWhile Char.isDigit
  let rest := cs.dropWhile Char.isDigit
  let (fraction, rest) :=
    match rest with
    | '.' :: behind => (behind.takeWhile Char.isDigit, behind.dropWhile Char.isDigit)
    | _ => ([], rest)
  let digits ← natural? 10 (whole ++ fraction)
  let e ← exponent? rest
  return ⟨digits, e - fraction.length⟩

/-- The floating-point value of a decimal with an optional sign; there is none past the greatest
finite one. -/
def decimal? (cs : List Char) : Option Approximate :=
  let whole? := fun cs => (magnitude? cs).bind Decimal.Scaled.nearestWhole?
  (signed? whole? cs).map .finite

/-! ## Plain scalars -/

/-- What a plain scalar that starts with a digit or a sign stands for.  Underscores between its
digits say nothing. -/
def numeric (cs : List Char) : Scalar :=
  if Timestamp.holds cs then .timestamp
  else
    let plain := cs.filter (· ≠ '_')
    ((integer? plain).map Scalar.int
      <|> (decimal? plain).map Scalar.float
      <|> (innerSigned? plain).map Scalar.int).getD .text

/-- What a plain scalar stands for. -/
def ofPlain (s : String) : Scalar :=
  match word? s with
  | some value => value
  | none =>
    match s.toList with
    | [] => .null
    | c :: cs =>
      if c.isDigit || c = '+' || c = '-' then numeric (c :: cs)
      else if c = '.' then ((decimal? (c :: cs)).map Scalar.float).getD .text
      else .text

/-- What a scalar stands for. -/
def ofText (quoted : Bool) (s : String) : Scalar := if quoted then .text else ofPlain s

/-! ## Integers made of scalars -/

/-- The signed integer of 64 bits that a scalar gives.  An integer must fit; a floating-point value
is cut to its integer part, and what lies below all integers of 64 bits, or just above them, gives
the least one. -/
def toInt? : Scalar → Option Int
  | .int n => if isInt64 n then some n else none
  | .float (.infinite true) => some (-Numeral.limit)
  | .float (.finite n) =>
    if isInt64 n then some n else if n ≤ Numeral.limit then some (-Numeral.limit) else none
  | _ => none

end Scalar

/-- The tag of a node. -/
def Node.tag : Node → Tag
  | .scalar _ quoted text => (Scalar.ofText quoted text).tag
  | .seq .. => .seq
  | .map .. => .map

end RegisterTransfer.Yaml
