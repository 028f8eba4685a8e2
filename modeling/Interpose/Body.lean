import Interpose.SequencePoints
import Interpose.Ty.Basic

/-!
# Method bodies

The code of a method with what it needs to run.  In their written form bodies start with a header:
one byte for small bodies that declare nothing, twelve bytes for all others.  Local variables and
sequence points are kept outside.

## Main definitions

* `Body` — method bodies
* `Body.encode` — header and code
* `Body.decode` — a body at the start of some bytes, and how many of them it takes
-/

namespace Interpose

/-- The code of a method with what it needs to run. -/
structure Body where
  maxStack : UInt16 := 8
  initLocals : Bool := true
  locals : List Ty := []
  code : List UInt8
  points : SequencePoints := []
deriving DecidableEq, Repr, Inhabited

namespace Body

/-- The greatest length of code behind a small header. -/
def tinyCodeLimit : Nat := 63

/-- The stack size that a small header stands for. -/
def tinyStack : UInt16 := 8

/-- Whether code, stack size and local variables leave room for a small header. -/
def fitsTiny (b : Body) : Bool :=
  b.code.length ≤ tinyCodeLimit && b.maxStack ≤ tinyStack && b.locals.isEmpty

/-- The flag of exception sections behind the code. -/
def moreSections : Nat := 0x8

/-- The flag of local variables that start out with defaults. -/
def initLocalsFlag : Nat := 0x10

/-- The size of the large header. -/
def fatHeaderSize : Nat := 12

/-- Header and code of a body. -/
def encode (b : Body) : Write := do
  if b.fitsTiny && !b.initLocals then
    return UInt8.ofNat (b.code.length * 4 + 2) :: b.code
  if 0x100000000 ≤ b.code.length then throw (.malformed .bodyRange)
  let flags := 3 + (if b.initLocals then initLocalsFlag else 0)
  return littleEndian 2 (3 * 0x1000 + flags) ++ littleEndian 2 b.maxStack.toNat ++
    littleEndian 4 b.code.length ++ littleEndian 4 0 ++ b.code

/-- The body behind a small header that starts with `first`. -/
def decodeTiny (first : UInt8) (data : List UInt8) : Except Error (Body × Nat) :=
  let size := first.toNat / 4
  if data.length < size + 1 then throw .outOfBounds
  else return ({ initLocals := false, code := (data.drop 1).take size }, size + 1)

/-- The body behind a large header. -/
def decodeFat (data : List UInt8) : Except Error (Body × Nat) := do
  if data.length < fatHeaderSize then throw .outOfBounds
  let flags := ofLittleEndian (data.take 2)
  let maxStack := ofLittleEndian ((data.drop 2).take 2)
  let size := ofLittleEndian ((data.drop 4).take 4)
  let headerSize := flags / 0x1000 * 4
  if headerSize ≠ fatHeaderSize then throw (.malformed (.headerSize headerSize))
  if data.length < fatHeaderSize + size then throw .outOfBounds
  -- Code that is not all there is reported before sections that cannot be read.
  if flags / moreSections % 2 = 1 then throw (.malformed .exceptionSections)
  return ({
    maxStack := UInt16.ofNat maxStack
    initLocals := flags / initLocalsFlag % 2 = 1
    code := (data.drop fatHeaderSize).take size }, fatHeaderSize + size)

/-- The body at the start of some bytes, without its local variables, and the number of bytes it
takes.  The two low bits of the first byte tell the headers apart. -/
def decode (data : List UInt8) : Except Error (Body × Nat) :=
  match data with
  | [] => throw (.malformed .emptyBody)
  | first :: _ =>
    match first.toNat % 4 with
    | 2 => decodeTiny first data
    | 3 => decodeFat data
    | _ => throw (.malformed (.unknownHeader first))

end Body

end Interpose
