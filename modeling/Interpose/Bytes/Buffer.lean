import Interpose.Bytes.Word
import Interpose.Error
import Interpose.Text.Utf16

/-!
# Writing bytes

The counterparts of the reads, as functions from a value to its bytes.  Only numbers and lengths of
variable width can fail to have a written form.

## Main definitions

* `Bytes` — a sequence of bytes
* `Write` — bytes, or the reason why a value has no written form
* `Write.compressedNat`, `Write.compressedInt`, `Write.length` — numbers of variable width
* `Write.utf8`, `Write.utf16` — strings with their length in front
-/

namespace Interpose

/-- A sequence of bytes. -/
abbrev Bytes := List UInt8

/-- The written form of a value, or the reason why it has none. -/
abbrev Write := Except Error Bytes

namespace Write

/-- Fails because of a value that is out of range. -/
def malformed {α : Type} (defect : Defect) : Except Error α := throw (.malformed defect)

/-- A number in one, two or four bytes, with the width in the high bits of the first. -/
def compressedNat (n : Nat) : Write :=
  if n < 0x80 then
    return [UInt8.ofNat n]
  else if n < 0x4000 then
    return [UInt8.ofNat (0x80 + n / 0x100), UInt8.ofNat n]
  else if n < 0x20000000 then
    return [UInt8.ofNat (0xC0 + n / 0x1000000), UInt8.ofNat (n / 0x10000), UInt8.ofNat (n / 0x100),
      UInt8.ofNat n]
  else
    malformed (.compressedRange n)

/-- The 32-bit number that stands for a 32-bit integer, with the sign in its lowest bit. -/
def foldSign (n : Int32) : UInt32 :=
  if 0 ≤ n then n.toUInt32 <<< 1 else (~~~ n.toUInt32) <<< 1 ||| 1

/-- An integer as a compressed number. -/
def compressedInt (n : Int32) : Write := compressedNat (foldSign n).toNat

/-- A length as a compressed number. -/
def length (n : Nat) : Write :=
  if n < 0x100000000 then compressedNat n else malformed (.lengthRange n)

/-- A string as UTF-8, with the number of bytes in front. -/
def utf8 (text : String) : Write := do
  let bytes := text.toUTF8.data.toList
  return (← length bytes.length) ++ bytes

/-- A string as UTF-16, with the number of units in front. -/
def utf16 (text : String) : Write := do
  let units := utf16Units text
  return (← length units.length) ++ units.flatMap fun unit => littleEndian 2 unit.toNat

/-- The written forms of values one after the other. -/
def concat {α : Type} (write : α → Write) : List α → Write
  | [] => return []
  | a :: rest => do
    let first ← write a
    let others ← concat write rest
    return first ++ others

/-- Values one after the other, with their number in front. -/
def list {α : Type} (write : α → Write) (values : List α) : Write := do
  let count ← length values.length
  let contents ← concat write values
  return count ++ contents

/-- A token. -/
def token (t : Token) : Bytes := littleEndian 4 t.value.toNat

/-- A truth value as one byte. -/
def flag (b : Bool) : Bytes := [if b then 1 else 0]

end Write

end Interpose
