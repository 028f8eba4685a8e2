import Interpose.Bytes.Word
import Interpose.Error
import Interpose.Text.Utf16

/-!
# Reading bytes

A cursor is a position in a sequence of bytes.  A read takes what it needs from the position on; a
read that fails part of the way leaves the cursor behind what it has taken so far.

## Main definitions

* `Cursor` — bytes and a position in them
* `Read` — computations that move a cursor and may fail
* `Read.bytes`, `Read.byte` — the reads that all others are made of
* `Read.compressedNat`, `Read.compressedInt`, `Read.length` — numbers of variable width
* `Read.utf8`, `Read.utf16` — strings with their length in front
-/

namespace Interpose

/-- A position in a sequence of bytes. -/
structure Cursor where
  data : Array UInt8
  position : Nat := 0
deriving DecidableEq, Repr

namespace Cursor

/-- The cursor at the start of the given bytes. -/
def ofBytes (bytes : List UInt8) : Cursor := ⟨bytes.toArray, 0⟩

/-- The number of bytes from the position to the end. -/
def remaining (c : Cursor) : Nat := c.data.size - c.position

/-- Whether the position is before the end. -/
def hasMore (c : Cursor) : Bool := c.position < c.data.size

/-- The bytes from the position to the end. -/
def rest (c : Cursor) : List UInt8 := c.data.toList.drop c.position

end Cursor

/-- A computation that moves a cursor and may fail; it moves the cursor also when it fails. -/
abbrev Read := ExceptT Error (StateM Cursor)

namespace Read

/-- Fails because of the form of the data. -/
def malformed {α : Type} (defect : Defect) : Read α := throw (.malformed defect)

/-- The first number that is too large for a machine word. -/
def wordLimit : Nat := 0x10000000000000000

/-- The present position. -/
def position : Read Nat := return (← get).position

/-- Whether there are bytes left. -/
def hasMore : Read Bool := return (← get).hasMore

/-- The number of bytes left. -/
def remaining : Read Nat := return (← get).remaining

/-- Moves to a position, at most to the end. -/
def seek (position : Nat) : Read Unit := do
  let c ← get
  if c.data.size < position then throw .outOfBounds
  set { c with position }

/-- Moves on by a number of bytes, at most to the end.  The new position is a machine word: a sum
that no word can hold starts again at zero. -/
def advance (step : Nat) : Read Unit := do
  let c ← get
  let position := (c.position + step) % wordLimit
  if c.data.size < position then throw .outOfBounds
  set { c with position }

/-- Takes the given number of bytes, or none at all if there are fewer. -/
def bytes (count : Nat) : Read (List UInt8) := do
  let c ← get
  if c.data.size < c.position + count then throw .outOfBounds
  set { c with position := c.position + count }
  return (c.data.extract c.position (c.position + count)).toList

/-- Takes one byte. -/
def byte : Read UInt8 := do
  let c ← get
  match c.data[c.position]? with
  | some b =>
    set { c with position := c.position + 1 }
    return b
  | none => throw .outOfBounds

/-- Takes a word of the given number of bytes. -/
def word (width : Nat) : Read Nat := return ofLittleEndian (← bytes width)

/-- Takes a 16-bit word. -/
def word16 : Read UInt16 := return UInt16.ofNat (← word 2)

/-- Takes a 32-bit word. -/
def word32 : Read UInt32 := return UInt32.ofNat (← word 4)

/-- Takes a 64-bit word. -/
def word64 : Read UInt64 := return UInt64.ofNat (← word 8)

/-- Takes a token. -/
def token : Read Token := return ⟨← word32⟩

/-- Takes a compressed number: one byte below `0x80`, two bytes marked by `10`, or four bytes marked
by `110` in the high bits, most significant byte first. -/
def compressedNat : Read Nat := do
  let first ← byte
  if first < 0x80 then
    return first.toNat
  else if first < 0xC0 then
    let second ← byte
    return first.toNat % 64 * 256 + second.toNat
  else if first < 0xE0 then
    let second ← byte
    let third ← byte
    let fourth ← byte
    return first.toNat % 32 * 0x1000000 + second.toNat * 0x10000 + third.toNat * 0x100 + fourth.toNat
  else
    malformed (.compressedWidth first)

/-- The integer that a compressed number stands for: its sign is in the lowest bit, and the rest
counts from zero up or from minus one down. -/
def unfoldSign (n : Nat) : Int :=
  if n % 2 = 0 then (n / 2 : Nat) else -(n / 2 : Nat) - 1

/-- Takes a compressed integer. -/
def compressedInt : Read Int := return unfoldSign (← compressedNat)

/-- Takes a length and checks that so many bytes are left. -/
def length : Read Nat := do
  let length ← compressedNat
  if (← remaining) < length then throw .outOfBounds
  return length

/-- Takes a length and so many bytes of UTF-8. -/
def utf8 : Read String := do
  let length ← length
  let start ← position
  let bytes ← bytes length
  match String.fromUTF8? ⟨bytes.toArray⟩ with
  | some text => return text
  | none => malformed (.invalidUtf8 start)

/-- Runs a read the given number of times. -/
def times {α : Type} (read : Read α) : (count : Nat) → Read (List α)
  | 0 => return []
  | count + 1 => return (← read) :: (← times read count)

/-- Takes a length and so many values. -/
def list {α : Type} (read : Read α) : Read (List α) := do
  let count ← length
  -- Every value takes a byte at least, so no more values than bytes can follow.
  times read count

/-- Takes a count and so many units of UTF-16. -/
def utf16 : Read String := do
  let count ← compressedNat
  if (← remaining) < 2 * count then throw .outOfBounds
  let units ← times word16 count
  match ofUtf16Units? units with
  | some text => return text
  | none => malformed .invalidUtf16

/-- Runs a read on the given bytes from their start. -/
def run {α : Type} (read : Read α) (bytes : Array UInt8) : Except Error α :=
  (ExceptT.run read ⟨bytes, 0⟩).1

end Read

end Interpose
