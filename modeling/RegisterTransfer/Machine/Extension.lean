import RegisterTransfer.Machine.Memory
set_option autoImplicit false

/-!
# Extension of memories

A memory extends another if both have allocated the same blocks and it is at least as defined: a
block live in it is live in the other with the same bounds, and the other's cells are less defined.
A block may be live in the lesser memory and freed in the greater one only if its bounds coincide,
as those of a frame without a stack do.
-/

namespace RegisterTransfer

/-- Why a memory does not extend another.  The first of two things is the lesser memory's. -/
inductive Mismatch
  | nextBlock (source target : Block)
  /-- The greater memory has `size` blocks, and so none to compare with the one at `index`. -/
  | noBlock (index size : Nat)
  | revived (b : Block)
  | freedEarly (b : Block) (size : Int64)
  | bounds (b : Block) (lo hi lo' hi' : Int64)
  | noCell (b : Block) (ofs : Int64) (cell : Cell)
  | cell (b : Block) (ofs : Int64) (source target : Cell)
  deriving DecidableEq, Repr

/-- A cell in words. -/
def Cell.text (c : Cell) : String := c.chunk.text ++ " " ++ c.value.text

/-- The mismatch in words. -/
def Mismatch.message : Mismatch → String
  | .nextBlock s t =>
    "next block " ++ toString s.toNat ++ ", target next block " ++ toString t.toNat
  | .noBlock index size =>
    "index out of range [" ++ toString index ++ "] with length " ++ toString size
  | .revived b => "block " ++ toString b.toNat ++ " freed, but live in target"
  | .freedEarly b size =>
    "block " ++ toString b.toNat ++ " of size " ++ toString size.toInt
      ++ " live, but freed in target"
  | .bounds b lo hi lo' hi' =>
    "block " ++ toString b.toNat ++ " bounds [" ++ toString lo.toInt ++ ", " ++ toString hi.toInt
      ++ "), target bounds [" ++ toString lo'.toInt ++ ", " ++ toString hi'.toInt ++ ")"
  | .noCell b ofs c =>
    "b" ++ toString b.toNat ++ "+" ++ toString ofs.toInt ++ " holds " ++ c.text
      ++ ", target holds nothing"
  | .cell b ofs c d =>
    "b" ++ toString b.toNat ++ "+" ++ toString ofs.toInt ++ " holds " ++ c.text
      ++ ", target holds " ++ d.text

/-- Why a cell is not less defined than what the greater memory holds at its offset. -/
def Cell.mismatch? (b : Block) (ofs : Int64) (c : Cell) (target : Option Cell) : Option Mismatch :=
  if c.value = .undefined then none
  else
    match target with
    | none => some (.noCell b ofs c)
    | some d =>
      if c.chunk = d.chunk ∧ c.value.lessDefined d.value then none else some (.cell b ofs c d)

/-- Why a block is not less defined than another of the same number. -/
def Region.mismatch? (b : Block) (r s : Region) : Option Mismatch :=
  match r.cells, s.cells with
  | none, some _ => some (.revived b)
  | some _, none => if r.hi = r.lo then none else some (.freedEarly b (r.hi - r.lo))
  | none, none => none
  | some cells, some cells' =>
    if r.lo ≠ s.lo ∨ r.hi ≠ s.hi then some (.bounds b r.lo r.hi s.lo s.hi)
    else cells.entries.findSome? fun (ofs, c) => c.mismatch? b ofs (cells'.get? ofs)

/-- Why `n` does not extend `m`: the first mismatch, in the order of blocks and offsets.  Memories
with the same next block may have allocated different numbers of blocks, if there are more of them
than numbers. -/
def Memory.mismatch? (m n : Memory) : Option Mismatch :=
  if m.next ≠ n.next then some (.nextBlock m.next n.next)
  else
    m.regions.toList.zipIdx.findSome? fun (r, i) =>
      match n.regions[i]? with
      | some s => r.mismatch? (UInt32.ofNat (i + 1)) s
      | none => some (.noBlock i n.regions.size)

/-- The memory `n` extends the memory `m`. -/
def Memory.Extends (m n : Memory) : Prop := m.mismatch? n = none

instance (m n : Memory) : Decidable (m.Extends n) := inferInstanceAs (Decidable (_ = _))

end RegisterTransfer
