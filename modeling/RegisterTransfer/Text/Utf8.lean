set_option autoImplicit false

/-!
# Reading UTF-8

Texts come as bytes, and the bytes need not form valid UTF-8.  `Utf8.decode?` reads the character
at the front of a byte list, and `Utf8.decodeLossy` reads a whole list, putting the replacement
character U+FFFD for every byte that starts no valid character.
-/

namespace RegisterTransfer.Utf8

/-- The six bits of a continuation byte. -/
def continuation? (b : UInt8) : Option Nat :=
  if 0x80 ≤ b ∧ b < 0xC0 then some (b.toNat - 0x80) else none

/-- Reads `n` continuation bytes after the bits `value` of the bytes before them. -/
def continue? : Nat → Nat → List UInt8 → Option (Nat × List UInt8)
  | 0, value, rest => some (value, rest)
  | _ + 1, _, [] => none
  | n + 1, value, b :: rest => do
    let bits ← continuation? b
    continue? n (value * 64 + bits) rest

/-- The character of a code point that is at least `least`: a longer encoding than needed, a
surrogate and a number past the last code point are refused. -/
def scalar? (least : Nat) (value : Nat) : Option Char :=
  if least ≤ value ∧ value.isValidChar then some (Char.ofNat value) else none

/-- The character at the front of the bytes, with the bytes after it. -/
def decode? : List UInt8 → Option (Char × List UInt8)
  | [] => none
  | b :: rest =>
    if b < 0x80 then
      some (Char.ofNat b.toNat, rest)
    else if 0xC0 ≤ b ∧ b < 0xE0 then do
      let (value, rest) ← continue? 1 (b.toNat - 0xC0) rest
      return (← scalar? 0x80 value, rest)
    else if 0xE0 ≤ b ∧ b < 0xF0 then do
      let (value, rest) ← continue? 2 (b.toNat - 0xE0) rest
      return (← scalar? 0x800 value, rest)
    else if 0xF0 ≤ b ∧ b < 0xF8 then do
      let (value, rest) ← continue? 3 (b.toNat - 0xF0) rest
      return (← scalar? 0x10000 value, rest)
    else
      none

/-- The replacement character U+FFFD. -/
def replacement : Char := '�'

/-- The characters of at most as many steps as `fuel` is long. -/
def decodeLossyAux : List UInt8 → List UInt8 → List Char
  | [], _ => []
  | _, [] => []
  | _ :: fuel, b :: rest =>
    match decode? (b :: rest) with
    | some (c, rest') => c :: decodeLossyAux fuel rest'
    | none => replacement :: decodeLossyAux fuel rest

/-- The characters of the bytes; a byte that starts no valid character gives U+FFFD.  Every
character takes at least one byte, so the bytes themselves bound the number of steps. -/
def decodeLossy (bytes : List UInt8) : List Char := decodeLossyAux bytes bytes

/-- The bytes of a text. -/
def encode (s : String) : List UInt8 := s.toByteArray.data.toList

end RegisterTransfer.Utf8
