import RegisterTransfer.Decimal.Layout
set_option autoImplicit false

/-!
# Values

The values that registers, memory cells and calls hold, and the order of definedness on them: an
undefined value is below every value, and a defined one only below itself.
-/

namespace RegisterTransfer

/-- A block of memory.  Blocks are numbered from one. -/
abbrev Block := UInt32

/-- A value.  `absent` stands where no value was ever given; it reads as `undefined`. -/
inductive Val
  | absent
  | undefined
  | int (n : Int32)
  | long (n : Int64)
  | float (bits : UInt64)
  | func (name : String)
  | ptr (block : Block) (ofs : Int64)
  deriving DecidableEq, Repr, Inhabited

namespace Val

/-- Floating-point values are written in place from `0.0001` up to below a million, and with an
exponent of at least two digits elsewhere. -/
def floatLayout : Decimal.Layout := { plainFrom := -4, plainBelow := 6, exponentDigits := 2 }

/-- The text of a value. -/
def text : Val → String
  | .absent => "%!s(<nil>)"
  | .undefined => "undef"
  | .int n => toString n.toInt
  | .long n => toString n.toInt ++ "L"
  | .float bits => floatLayout.ofBits bits
  | .func name => "&" ++ name
  | .ptr b ofs => "b" ++ toString b.toNat ++ "+" ++ toString ofs.toInt

/-- The text of a value in a list of values. -/
def itemText : Val → String
  | .absent => "<nil>"
  | v => v.text

/-- The text of a list of values. -/
def listText (vs : List Val) : String := "[" ++ " ".intercalate (vs.map itemText) ++ "]"

/-- The value that is read where `v` stands. -/
def read : Val → Val
  | .absent => .undefined
  | v => v

/-! ## Definedness -/

/-- Whether `v` is less defined than `w` or equal to it.  Floating-point values are compared by
their bits. -/
def lessDefined (v w : Val) : Bool :=
  match v with
  | .absent | .undefined => true
  | v => v = w

/-- Whether the values of a list are less defined than those of a list of equal length. -/
def listLessDefined : List Val → List Val → Bool
  | [], [] => true
  | v :: vs, w :: ws => v.lessDefined w && listLessDefined vs ws
  | _, _ => false

end Val

end RegisterTransfer
