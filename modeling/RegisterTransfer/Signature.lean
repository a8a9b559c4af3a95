set_option autoImplicit false

/-!
# Types and signatures

A signature gives the types of a function's arguments and of its result, and whether the function
takes further arguments beyond the listed ones.
-/

namespace RegisterTransfer

/-- The type of an argument or of a result.  Types are numbered; a number that names no type is
kept as it is. -/
inductive ValueType
  | void
  | int
  | long
  | float
  | any
  | other (code : Int)
  deriving DecidableEq, Repr, Inhabited

namespace ValueType

/-- The type of a given number. -/
def ofCode : Int → ValueType
  | 0 => .void
  | 1 => .int
  | 2 => .long
  | 3 => .float
  | 4 => .any
  | n => .other n

/-- The number of a type. -/
def code : ValueType → Int
  | .void => 0
  | .int => 1
  | .long => 2
  | .float => 3
  | .any => 4
  | .other n => n

@[simp] theorem code_ofCode (n : Int) : (ofCode n).code = n := by
  unfold ofCode
  split <;> rfl

/-- The type as it is written in a program. -/
def text : ValueType → String
  | .void => "void"
  | .int => "int"
  | .long => "long"
  | .float => "float"
  | .any => "any"
  | .other n => "Type(" ++ toString n ++ ")"

end ValueType

/-- The types of a function's arguments and result.  With `varargs`, a call may pass more
arguments than `args` lists. -/
structure Signature where
  args : List ValueType
  result : ValueType
  varargs : Bool
  deriving DecidableEq, Repr, Inhabited

namespace Signature

/-- The signature as it is written in a program, such as `sig(int, long, ...):int`. -/
def text (s : Signature) : String :=
  let parts := s.args.map ValueType.text ++ (if s.varargs then ["..."] else [])
  "sig(" ++ ", ".intercalate parts ++ "):" ++ s.result.text

end Signature

end RegisterTransfer
