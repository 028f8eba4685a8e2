import Interpose.Code.Instruction

/-!
# Writing code

Code is written instruction by instruction.  Branches go to labels, which may be placed before or
after the branch; when all is written, each branch gets its displacement.

## Main definitions

* `Encoder` — the code so far, the labels placed and the displacements still to be filled in
* `Emit` — computations that write code and may fail
* `Emit.instruction`, `Emit.branch`, `Emit.label` — the three things that can be written
* `Emit.ldarg`, `Emit.ldloc`, `Emit.stloc`, `Emit.constant` — the shortest form of each
* `Encoder.finish` — fills in the displacements
-/

namespace Interpose

/-- A displacement to be filled in. -/
structure Fixup where
  label : String
  /-- Where the displacement is in the code. -/
  position : Nat
  /-- The number of bytes of the displacement, one or four. -/
  width : Nat
deriving DecidableEq, Repr

/-- Code under construction. -/
structure Encoder where
  code : Array UInt8 := #[]
  /-- The labels and their offsets, the last one first. -/
  labels : List (String × Nat) := []
  fixups : Array Fixup := #[]
deriving DecidableEq, Repr

/-- A computation that writes code; what it writes before it fails stays written. -/
abbrev Emit := ExceptT Error (StateM Encoder)

namespace Emit

/-- Writes bytes. -/
def bytes (bytes : List UInt8) : Emit Unit :=
  modify fun e => { e with code := e.code ++ bytes }

/-- The bytes of an operand of the given operation, if the operation takes it. -/
def operandBytes (op : Opcode) (operand : Option Operand) : Except Error (List UInt8) :=
  match op.operandKind, operand with
  | .none, none => return []
  | .int8, some (.int8 value) => return [value.toUInt8]
  | .index8, some (.argument index) | .index8, some (.localVar index) =>
    if index.toNat < 0x100 then return [index.toUInt8]
    else throw (.malformed (.indexRange index.toNat op.mnemonic))
  | .index16, some (.argument index) | .index16, some (.localVar index) =>
    return littleEndian 2 index.toNat
  | .int32, some (.int32 value) => return littleEndian 4 value.toUInt32.toNat
  | .int64, some (.int64 value) => return littleEndian 8 value.toUInt64.toNat
  | .float64, some (.float64 bits) => return littleEndian 8 bits.toNat
  | .token, some (.token token) => return littleEndian 4 token.value.toNat
  | kind, operand =>
    throw (.malformed (.operandMismatch (Operand.optionDetail operand) op.mnemonic kind.name))

/-- Writes an instruction that does not branch. -/
def instruction (op : Opcode) (operand : Option Operand := none) : Emit Unit := do
  if op.isBranch then throw (.invalidBranch (.needsLabel op.mnemonic))
  bytes op.bytes
  bytes (← operandBytes op operand)

/-- Writes an instruction as it was read, except that its offset may be another one. -/
def decoded (i : Instruction) : Emit Unit :=
  instruction i.op (if i.operand = .none then none else some i.operand)

/-- Writes a branch to a label. -/
def branch (op : Opcode) (label : String) : Emit Unit := do
  if !op.flow.isBranch then throw (.invalidBranch (.notABranch op.mnemonic))
  bytes op.bytes
  -- The displacement stays zero until all labels are placed.
  let width := if op.operandKind = .shortTarget then 1 else 4
  modify fun e => { e with
    code := e.code ++ List.replicate width (0 : UInt8)
    fixups := e.fixups.push ⟨label, e.code.size, width⟩ }

/-- The operation of the given name. -/
def named (mnemonic : String) : Emit Opcode :=
  match Opcode.ofMnemonic? mnemonic with
  | some op => return op
  | none => throw (.invalidMnemonic mnemonic)

/-- The offset of what is written next. -/
def position : Emit Nat := do
  let size := (← get).code.size
  if 0x100000000 ≤ size then throw (.malformed .codeRange)
  return size

/-- Places a label at what is written next. -/
def label (name : String) : Emit Unit := do
  -- A label that is placed twice is refused even if it is never branched to.
  if ((← get).labels.lookup name).isSome then throw (.duplicateLabel name)
  let offset ← position
  modify fun e => { e with labels := (name, offset) :: e.labels }

/-- Writes an instruction with a token as its operand. -/
def token (op : Opcode) (token : Token) : Emit Unit := instruction op (some (.token token))

/-- Loads an argument. -/
def ldarg (index : UInt16) : Emit Unit :=
  if index = 0 then instruction .ldarg0
  else if index = 1 then instruction .ldarg1
  else if index = 2 then instruction .ldarg2
  else if index = 3 then instruction .ldarg3
  else if index < 256 then instruction .ldargS (some (.argument index))
  else instruction .ldarg (some (.argument index))

/-- Stores into an argument. -/
def starg (index : UInt16) : Emit Unit :=
  if index < 256 then instruction .stargS (some (.argument index))
  else instruction .starg (some (.argument index))

/-- Loads a local variable. -/
def ldloc (index : UInt16) : Emit Unit :=
  if index = 0 then instruction .ldloc0
  else if index = 1 then instruction .ldloc1
  else if index = 2 then instruction .ldloc2
  else if index = 3 then instruction .ldloc3
  else if index < 256 then instruction .ldlocS (some (.localVar index))
  else instruction .ldloc (some (.localVar index))

/-- Stores into a local variable. -/
def stloc (index : UInt16) : Emit Unit :=
  if index = 0 then instruction .stloc0
  else if index = 1 then instruction .stloc1
  else if index = 2 then instruction .stloc2
  else if index = 3 then instruction .stloc3
  else if index < 256 then instruction .stlocS (some (.localVar index))
  else instruction .stloc (some (.localVar index))

/-- Loads a 32-bit constant. -/
def constant (value : Int32) : Emit Unit :=
  if value = -1 then instruction .ldcI4M1
  else if value = 0 then instruction .ldcI40
  else if value = 1 then instruction .ldcI41
  else if value = 2 then instruction .ldcI42
  else if value = 3 then instruction .ldcI43
  else if value = 4 then instruction .ldcI44
  else if value = 5 then instruction .ldcI45
  else if value = 6 then instruction .ldcI46
  else if value = 7 then instruction .ldcI47
  else if value = 8 then instruction .ldcI48
  else if -128 ≤ value ∧ value ≤ 127 then instruction .ldcI4S (some (.int8 value.toInt8))
  else instruction .ldcI4 (some (.int32 value))

end Emit

namespace Encoder

/-- The offset of a label. -/
def offset? (e : Encoder) (label : String) : Option Nat := e.labels.lookup label

/-- The bytes of a displacement, if it is in the reach of its width. -/
def displacementBytes (fixup : Fixup) (displacement : Int) : Except Error (List UInt8) :=
  if fixup.width = 1 then
    if -0x80 ≤ displacement ∧ displacement < 0x80 then
      return littleEndian 1 (displacement % 0x100).toNat
    else throw (.invalidBranch (.shortRange displacement fixup.label))
  else
    if -0x80000000 ≤ displacement ∧ displacement < 0x80000000 then
      return littleEndian 4 (displacement % 0x100000000).toNat
    else throw (.invalidBranch (.longRange displacement))

/-- The code with bytes written over what is at a position. -/
def overwrite (code : Array UInt8) (position : Nat) : List UInt8 → Array UInt8
  | [] => code
  | byte :: rest => overwrite (code.setIfInBounds position byte) (position + 1) rest

/-- Fills in one displacement, which counts from the end of its branch. -/
def fill (e : Encoder) (code : Array UInt8) (fixup : Fixup) : Except Error (Array UInt8) := do
  match e.offset? fixup.label with
  | none => throw (.undefinedLabel fixup.label)
  | some offset =>
    let displacement : Int := (offset : Int) - (fixup.position + fixup.width : Nat)
    return overwrite code fixup.position (← displacementBytes fixup displacement)

/-- The finished code and the labels in it. -/
def finish (e : Encoder) : Except Error (List UInt8 × List (String × Nat)) := do
  let code ← e.fixups.foldlM e.fill e.code
  return (code.toList, e.labels)

end Encoder

end Interpose
