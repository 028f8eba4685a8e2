import Interpose.Bytes.Cursor
import Interpose.Code.Opcode
import Interpose.Number.Float

/-!
# Instructions

An instruction is an operation at an offset in the code, with its operand.  Branch operands are kept
as absolute offsets.

## Main definitions

* `Operand` — operands, after decoding
* `Instruction` — an operation with offset and operand
* `Instruction.argument?`, `Instruction.localVar?`, `Instruction.constant?` — what short and
  long forms have in common
* `Instruction.decode`, `decodeCode` — reads one instruction, or all of a method
-/

namespace Interpose

/-- The operand of an instruction. -/
inductive Operand where
  | none
  | int8 (value : Int8)
  | int32 (value : Int32)
  | int64 (value : Int64)
  /-- A double, by its bits. -/
  | float64 (bits : UInt64)
  /-- The offset a branch goes to. -/
  | target (offset : Nat)
  | token (token : Token)
  | localVar (index : UInt16)
  | argument (index : UInt16)
deriving DecidableEq, Repr, Inhabited

namespace Operand

/-- The text of an operand that names its kind. -/
def detail : Operand → String
  | none => "None"
  | int8 value => "Immediate(Int8(" ++ toString value.toInt ++ "))"
  | int32 value => "Immediate(Int32(" ++ toString value.toInt ++ "))"
  | int64 value => "Immediate(Int64(" ++ toString value.toInt ++ "))"
  | float64 bits => "Immediate(Float64(" ++ Number.FloatFormat.literal.render bits ++ "))"
  | target offset => "Target(" ++ toString offset ++ ")"
  | .token t => "Token(" ++ t.detail ++ ")"
  | localVar index => "Local(" ++ toString index.toNat ++ ")"
  | argument index => "Argument(" ++ toString index.toNat ++ ")"

/-- The text of an operand that may be left out, naming its kind. -/
def optionDetail : Option Operand → String
  | some operand => "Some(" ++ operand.detail ++ ")"
  | .none => "None"

/-- The text of an operand in a listing; no operand leaves no text. -/
def listing? : Operand → Option String
  | none => .none
  | int8 value => toString value.toInt
  | int32 value => toString value.toInt
  | int64 value => toString value.toInt
  | float64 bits => Number.FloatFormat.plain.render bits
  | target offset => ilLabel offset
  | .token t => t.text
  | localVar index => "V_" ++ toString index.toNat
  | argument index => "A_" ++ toString index.toNat

end Operand

namespace Opcode

/-- Whether the index operand of an operation is the number of an argument. -/
def namesArgument : Opcode → Bool
  | ldargS | stargS | ldarg | starg => true
  | _ => false

/-- The argument that an operation names by itself. -/
def impliedArgument? : Opcode → Option UInt16
  | ldarg0 => some 0
  | ldarg1 => some 1
  | ldarg2 => some 2
  | ldarg3 => some 3
  | _ => none

/-- The local variable that an operation names by itself. -/
def impliedLocal? : Opcode → Option UInt16
  | ldloc0 | stloc0 => some 0
  | ldloc1 | stloc1 => some 1
  | ldloc2 | stloc2 => some 2
  | ldloc3 | stloc3 => some 3
  | _ => none

/-- The constant that an operation names by itself. -/
def impliedConstant? : Opcode → Option Int32
  | ldcI4M1 => some (-1)
  | ldcI40 => some 0
  | ldcI41 => some 1
  | ldcI42 => some 2
  | ldcI43 => some 3
  | ldcI44 => some 4
  | ldcI45 => some 5
  | ldcI46 => some 6
  | ldcI47 => some 7
  | ldcI48 => some 8
  | _ => none

end Opcode

/-- An operation at an offset in the code, with its operand. -/
structure Instruction where
  offset : Nat
  op : Opcode
  operand : Operand := .none
deriving DecidableEq, Repr, Inhabited

namespace Instruction

/-- The number of bytes of an instruction. -/
def size (i : Instruction) : Nat := i.op.size + i.op.operandKind.size

/-- The offset right behind an instruction. -/
def next (i : Instruction) : Nat := i.offset + i.size

/-- The offset a branch goes to. -/
def target? (i : Instruction) : Option Nat :=
  match i.operand with
  | .target offset => some offset
  | _ => none

/-- The token an instruction refers to. -/
def token? (i : Instruction) : Option Token :=
  match i.operand with
  | .token token => some token
  | _ => none

/-- Whether an instruction calls a method on what it finds on the stack. -/
def isCall (i : Instruction) : Bool := i.op = .call || i.op = .callvirt

/-- Whether an instruction creates an object. -/
def isConstruction (i : Instruction) : Bool := i.op = .newobj

/-- The argument an instruction refers to. -/
def argument? (i : Instruction) : Option UInt16 :=
  match i.op.impliedArgument?, i.operand with
  | some index, _ => some index
  | none, .argument index => some index
  | none, _ => none

/-- The local variable an instruction refers to. -/
def localVar? (i : Instruction) : Option UInt16 :=
  match i.op.impliedLocal?, i.operand with
  | some index, _ => some index
  | none, .localVar index => some index
  | none, _ => none

/-- The 32-bit constant an instruction loads. -/
def constant? (i : Instruction) : Option Int32 :=
  match i.op.impliedConstant?, i.op, i.operand with
  | some value, _, _ => some value
  | none, .ldcI4S, .int8 value => some value.toInt32
  | none, .ldcI4S, .int32 value => some value
  | none, .ldcI4, .int8 value => some value.toInt32
  | none, .ldcI4, .int32 value => some value
  | none, _, _ => none

/-- The text of an instruction in a listing. -/
def text (i : Instruction) : String :=
  let start := ilLabel i.offset ++ ": " ++ i.op.mnemonic
  match i.operand.listing? with
  | some operand => start ++ " " ++ operand
  | none => start

end Instruction

/-- Reads the code of an operation. -/
def Opcode.decode : Read Opcode := do
  let first ← Read.byte
  if first = Opcode.extendedMark then
    let second ← Read.byte
    match Opcode.ofCode? true second with
    | some op => return op
    | none => Read.malformed (.unknownExtendedOpcode second)
  else
    match Opcode.ofCode? false first with
    | some op => return op
    | none => Read.malformed (.unknownOpcode first)

/-- The target of a branch at `offset` whose displacement counts from `next`. -/
def destination (offset next : Nat) (displacement : Int) : Except Error Nat :=
  let target : Int := next + displacement
  if 0 ≤ target ∧ target < 0x100000000 then return target.toNat
  else throw (.malformed (.branchBeforeStart offset))

/-- Reads the operand of an operation at `offset`. -/
def Operand.decode (offset : Nat) (op : Opcode) : Read Operand :=
  let next := offset + op.size + op.operandKind.size
  let index (i : UInt16) : Operand := if op.namesArgument then .argument i else .localVar i
  match op.operandKind with
  | .none => return .none
  | .int8 => return .int8 (← Read.byte).toInt8
  | .index8 => return index (← Read.byte).toUInt16
  | .index16 => return index (← Read.word16)
  | .int32 => return .int32 (← Read.word32).toInt32
  | .int64 => return .int64 (← Read.word64).toInt64
  | .float64 => return .float64 (← Read.word64)
  | .token => return .token (← Read.token)
  | .shortTarget => do
    let displacement ← Read.byte
    return .target (← destination offset next displacement.toInt8.toInt)
  | .target => do
    let displacement ← Read.word32
    return .target (← destination offset next displacement.toInt32.toInt)

/-- Reads an instruction. -/
def Instruction.decode : Read Instruction := do
  let offset ← Read.position
  if 0x100000000 ≤ offset then Read.malformed .bodyRange
  let op ← Opcode.decode
  let operand ← Operand.decode offset op
  return ⟨offset, op, operand⟩

/-- Reads instructions to the end of the data, at most `fuel` of them. -/
def decodeInstructions : (fuel : Nat) → Read (List Instruction)
  | 0 => return []
  | fuel + 1 => do
    if ← Read.hasMore then
      let instruction ← Instruction.decode
      return instruction :: (← decodeInstructions fuel)
    else
      return []

/-- The first branch that does not go to an instruction. -/
def strayBranch? (instructions : List Instruction) : Option (Nat × Nat) :=
  instructions.findSome? fun i => do
    let target ← i.target?
    if instructions.any (·.offset = target) then none else some (i.offset, target)

/-- The instructions of a method.  Every instruction takes at least one byte, so no code holds more
instructions than bytes. -/
def decodeCode (code : List UInt8) : Except Error (List Instruction) := do
  let instructions ← Read.run (decodeInstructions code.length) code.toArray
  match strayBranch? instructions with
  | some (offset, target) => throw (.malformed (.branchOffBoundary offset target))
  | none => return instructions

end Interpose
