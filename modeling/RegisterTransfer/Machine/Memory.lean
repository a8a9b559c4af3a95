import RegisterTransfer.FinMap
import RegisterTransfer.Instr
import RegisterTransfer.Machine.Value
set_option autoImplicit false

/-!
# Memory

A memory is a sequence of blocks, numbered from one in the order of their allocation.  Numbers are
never used again: a freed block stays freed.  A live block has bounds and holds cells, each the
value of the last store at its offset; a store removes the cells that it overlaps, and a load that
meets no cell of its own chunk reads `undefined`.

Offsets are numbers of 64 bits, and their sums wrap around.
-/

namespace RegisterTransfer

/-- What a store left at an offset. -/
structure Cell where
  chunk : Chunk
  value : Val
  deriving DecidableEq, Repr, Inhabited

/-- A block with its bounds `[lo, hi)` and, until it is freed, its cells. -/
structure Region where
  lo : Int64
  hi : Int64
  cells : Option (FinMap Int64 Cell)
  deriving DecidableEq, Inhabited

/-- Why a memory operation fails. -/
inductive MemoryError
  | freeUnallocated (b : Block)
  | freeFreed (b : Block)
  | dead (b : Block)
  | outOfBounds (chunk : Chunk) (b : Block) (ofs lo hi : Int64)
  | misaligned (chunk : Chunk) (b : Block) (ofs : Int64)
  deriving DecidableEq, Repr

/-- The error in words. -/
def MemoryError.message : MemoryError → String
  | .freeUnallocated b => "free of unallocated block " ++ toString b.toNat
  | .freeFreed b => "free of freed block " ++ toString b.toNat
  | .dead b => "access to dead block " ++ toString b.toNat
  | .outOfBounds c b ofs lo hi =>
    c.text ++ " access at b" ++ toString b.toNat ++ "+" ++ toString ofs.toInt ++ " out of bounds ["
      ++ toString lo.toInt ++ ", " ++ toString hi.toInt ++ ")"
  | .misaligned c b ofs =>
    "misaligned " ++ c.text ++ " access at b" ++ toString b.toNat ++ "+" ++ toString ofs.toInt

/-- The value that a store of a chunk leaves: a value of the wrong kind is stored as `undefined`. -/
def Chunk.normalize : Chunk → Val → Val
  | .int32, .int n => .int n
  | .int64, .long n => .long n
  | .any64, v => v.read
  | _, _ => .undefined

/-- A memory. -/
structure Memory where
  regions : Array Region
  deriving DecidableEq, Inhabited

namespace Memory

/-- The memory without blocks. -/
def empty : Memory := ⟨#[]⟩

instance : EmptyCollection Memory := ⟨empty⟩

/-! ## Blocks -/

/-- The number of the next block to be allocated. -/
def next (m : Memory) : Block := UInt32.ofNat (m.regions.size + 1)

/-- The block of a number, if it was allocated. -/
def region? (m : Memory) (b : Block) : Option Region :=
  if b = 0 then none else m.regions[b.toNat - 1]?

/-- Whether a block was allocated, freed or not. -/
def valid (m : Memory) (b : Block) : Bool := (m.region? b).isSome

/-- Whether a block was allocated and not freed. -/
def live (m : Memory) (b : Block) : Bool := (m.region? b).any (·.cells.isSome)

/-- The bounds of an allocated block. -/
def bounds? (m : Memory) (b : Block) : Option (Int64 × Int64) :=
  (m.region? b).map fun r => (r.lo, r.hi)

/-- The distance between the bounds of a block, zero if it was never allocated. -/
def size (m : Memory) (b : Block) : Int64 :=
  match m.bounds? b with
  | some (lo, hi) => hi - lo
  | none => 0

/-- The memory with a block replaced. -/
def setRegion (m : Memory) (b : Block) (r : Region) : Memory :=
  ⟨m.regions.setIfInBounds (b.toNat - 1) r⟩

/-- A new block with bounds `[lo, hi)` and no cells, and its number. -/
def alloc (m : Memory) (lo hi : Int64) : Memory × Block :=
  (⟨m.regions.push ⟨lo, hi, some ∅⟩⟩, m.next)

/-- Frees a live block; its cells are lost. -/
def free (m : Memory) (b : Block) : Except MemoryError Memory :=
  match m.region? b with
  | none => .error (.freeUnallocated b)
  | some ⟨_, _, none⟩ => .error (.freeFreed b)
  | some ⟨lo, hi, some _⟩ => .ok (m.setRegion b ⟨lo, hi, none⟩)

/-! ## Access -/

/-- The cells of a block that may be accessed at an offset: the block is live, the access lies
within its bounds, and the offset is a multiple of the size. -/
def access (m : Memory) (c : Chunk) (b : Block) (ofs : Int64) :
    Except MemoryError (FinMap Int64 Cell) :=
  match m.region? b with
  | some ⟨lo, hi, some cells⟩ =>
    if ofs < lo ∨ hi < ofs + c.size then .error (.outOfBounds c b ofs lo hi)
    else if ofs % c.size ≠ 0 then .error (.misaligned c b ofs)
    else .ok cells
  | _ => .error (.dead b)

/-- Reads a value of a chunk. -/
def load (m : Memory) (c : Chunk) (b : Block) (ofs : Int64) : Except MemoryError Val :=
  (m.access c b ofs).map fun cells =>
    match cells.get? ofs with
    | some cell => if cell.chunk = c then cell.value else .undefined
    | none => .undefined

/-- Whether a cell at offset `o` shares bytes with `size` bytes at offset `ofs`. -/
def overlaps (ofs size : Int64) (o : Int64) (cell : Cell) : Bool :=
  o < ofs + size && ofs < o + cell.chunk.size

/-- The cells after a store: those that it overlaps are gone. -/
def write (cells : FinMap Int64 Cell) (c : Chunk) (ofs : Int64) (v : Val) : FinMap Int64 Cell :=
  (cells.filter fun o cell => !overlaps ofs c.size o cell).insert ofs ⟨c, c.normalize v⟩

/-- Writes a value of a chunk. -/
def store (m : Memory) (c : Chunk) (b : Block) (ofs : Int64) (v : Val) :
    Except MemoryError Memory :=
  (m.access c b ofs).map fun cells =>
    match m.region? b with
    | some r => m.setRegion b { r with cells := some (write cells c ofs v) }
    | none => m

end Memory

end RegisterTransfer
