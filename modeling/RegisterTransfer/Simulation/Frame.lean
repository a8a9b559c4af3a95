import RegisterTransfer.Machine.State
set_option autoImplicit false

/-!
# Frames in memory

Every active function owns a block of memory of the size of its stack.  The blocks of a stack are
allocated and live, and they increase from the outermost frame to the innermost.
-/

namespace RegisterTransfer

/-- What is wrong with the block of a function. -/
inductive FrameError
  | notBelow (name : String) (b bound : Block)
  | unallocated (name : String) (b : Block)
  | freed (name : String) (b : Block)
  | size (name : String) (b : Block) (actual expected : Int64)
  | notAbove (name : String) (b caller : Block)
  deriving DecidableEq, Repr

/-- The error in words. -/
def FrameError.message : FrameError → String
  | .notBelow name b bound =>
    name ++ " frame block " ++ toString b.toNat ++ " is not below " ++ toString bound.toNat
  | .unallocated name b => name ++ " frame block " ++ toString b.toNat ++ " is not allocated"
  | .freed name b => name ++ " frame block " ++ toString b.toNat ++ " is freed"
  | .size name b actual expected =>
    name ++ " frame block " ++ toString b.toNat ++ " has size " ++ toString actual.toInt
      ++ ", stack size is " ++ toString expected.toInt
  | .notAbove name b caller =>
    name ++ " frame block " ++ toString b.toNat ++ " is not above its caller's block "
      ++ toString caller.toNat

/-- What is wrong with `b` as the block of a function: it must be below a bound, allocated, live
and of the size of the function's stack. -/
def Memory.frameError? (m : Memory) (name : String) (stackSize : Int64) (b bound : Block) :
    Option FrameError :=
  if bound ≤ b then some (.notBelow name b bound)
  else if !m.valid b then some (.unallocated name b)
  else if !m.live b then some (.freed name b)
  else if m.size b ≠ stackSize then some (.size name b (m.size b) stackSize)
  else none

/-- The first error in a list of functions with their blocks, which must increase from above
`caller`. -/
def Memory.framesError? (m : Memory) : Block → List (Function × Block) → Option FrameError
  | _, [] => none
  | caller, (f, b) :: rest =>
    match m.frameError? f.name f.stackSize b m.next with
    | some e => some e
    | none =>
      if b ≤ caller then some (.notAbove f.name b caller)
      else framesError? m b rest

namespace State

/-- The active functions of a state with their blocks, the outermost first. -/
def active (s : State) : List (Function × Block) :=
  let suspended := s.stack.reverse.map fun fr => (fr.function, fr.sp)
  match s.control with
  | .running f sp _ _ => suspended ++ [(f, sp)]
  | _ => suspended

/-- The first error in the blocks of a state's active functions. -/
def stackError? (s : State) : Option FrameError := s.memory.framesError? 0 s.active

end State

end RegisterTransfer
