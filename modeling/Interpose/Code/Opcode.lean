import Interpose.Text.Hex

/-!
# Operations

The operations of the instruction set, with the name, the code and the kind of operand of each.

## Main definitions

* `Opcode` — the operations
* `Opcode.mnemonic`, `Opcode.code`, `Opcode.isExtended` — name and encoding
* `Opcode.operandKind`, `Opcode.flow` — what follows the code, and where control goes next
* `Opcode.ofCode?`, `Opcode.ofMnemonic?` — look-up by encoding and by name
* `Opcode.widened` — the branch of the same meaning with a four-byte displacement

## Main results

* `Opcode.ofCode?_code`, `Opcode.ofMnemonic?_mnemonic` — different operations differ in both
-/

namespace Interpose

/-- What follows the code of an operation. -/
inductive OperandKind where
  | none
  | int8
  /-- The number of a local variable or argument, in one byte. -/
  | index8
  /-- The number of a local variable or argument, in two bytes. -/
  | index16
  | int32
  | int64
  | float64
  | token
  /-- A displacement of one byte. -/
  | shortTarget
  /-- A displacement of four bytes. -/
  | target
deriving DecidableEq, Repr

namespace OperandKind

/-- The number of bytes of an operand. -/
def size : OperandKind → Nat
  | none => 0
  | int8 | index8 | shortTarget => 1
  | index16 => 2
  | int32 | token | target => 4
  | int64 | float64 => 8

/-- The name of a kind of operand. -/
def name : OperandKind → String
  | none => "None"
  | int8 => "Int8"
  | index8 => "UInt8"
  | index16 => "UInt16"
  | int32 => "Int32"
  | int64 => "Int64"
  | float64 => "Float64"
  | token => "Token"
  | shortTarget => "ShortTarget"
  | target => "Target"

/-- Whether the operand is a displacement. -/
def isTarget : OperandKind → Bool
  | shortTarget | target => true
  | _ => false

end OperandKind

/-- Where control goes after an instruction. -/
inductive Flow where
  | sequential
  | conditionalBranch
  | unconditionalBranch
  | call
  | ret
  | raise
deriving DecidableEq, Repr

namespace Flow

/-- The name of a kind of flow. -/
def name : Flow → String
  | sequential => "Sequential"
  | conditionalBranch => "ConditionalBranch"
  | unconditionalBranch => "UnconditionalBranch"
  | call => "Call"
  | ret => "Return"
  | raise => "Throw"

/-- Whether control may go to a target. -/
def isBranch : Flow → Bool
  | conditionalBranch | unconditionalBranch => true
  | _ => false

end Flow

/-- The operations of the instruction set. -/
inductive Opcode where
  | nop
  | ldarg0
  | ldarg1
  | ldarg2
  | ldarg3
  | ldloc0
  | ldloc1
  | ldloc2
  | ldloc3
  | stloc0
  | stloc1
  | stloc2
  | stloc3
  | ldargS
  | stargS
  | ldlocS
  | stlocS
  | ldnull
  | ldcI4M1
  | ldcI40
  | ldcI41
  | ldcI42
  | ldcI43
  | ldcI44
  | ldcI45
  | ldcI46
  | ldcI47
  | ldcI48
  | ldcI4S
  | ldcI4
  | ldcI8
  | ldcR8
  | dup
  | pop
  | call
  | ret
  | brS
  | brfalseS
  | brtrueS
  | beqS
  | bgeS
  | bgtS
  | bleS
  | bltS
  | bneUnS
  | br
  | brfalse
  | brtrue
  | beq
  | bge
  | bgt
  | ble
  | blt
  | bneUn
  | add
  | sub
  | mul
  | div
  | rem
  | andOp
  | orOp
  | xor
  | neg
  | notOp
  | convI4
  | convI8
  | convR8
  | callvirt
  | ldstr
  | newobj
  | castclass
  | isinst
  | throw
  | ldfld
  | stfld
  | ldsfld
  | stsfld
  | box
  | newarr
  | ldlen
  | ldelemRef
  | stelemRef
  | unboxAny
  | ldtoken
  | ceq
  | cgt
  | clt
  | ldarg
  | starg
  | ldloc
  | stloc
deriving DecidableEq, Repr, Inhabited

namespace Opcode

/-- Every operation, in the order of the instruction table. -/
def all : List Opcode := [
  .nop, .ldarg0, .ldarg1, .ldarg2, .ldarg3, .ldloc0, .ldloc1, .ldloc2, .ldloc3, .stloc0, .stloc1,
  .stloc2, .stloc3, .ldargS, .stargS, .ldlocS, .stlocS, .ldnull, .ldcI4M1, .ldcI40, .ldcI41,
  .ldcI42, .ldcI43, .ldcI44, .ldcI45, .ldcI46, .ldcI47, .ldcI48, .ldcI4S, .ldcI4, .ldcI8, .ldcR8,
  .dup, .pop, .call, .ret, .brS, .brfalseS, .brtrueS, .beqS, .bgeS, .bgtS, .bleS, .bltS, .bneUnS,
  .br, .brfalse, .brtrue, .beq, .bge, .bgt, .ble, .blt, .bneUn, .add, .sub, .mul, .div, .rem,
  .andOp, .orOp, .xor, .neg, .notOp, .convI4, .convI8, .convR8, .callvirt, .ldstr, .newobj,
  .castclass, .isinst, .throw, .ldfld, .stfld, .ldsfld, .stsfld, .box, .newarr, .ldlen,
  .ldelemRef, .stelemRef, .unboxAny, .ldtoken, .ceq, .cgt, .clt, .ldarg, .starg, .ldloc, .stloc]

/-- The name of an operation. -/
def mnemonic : Opcode → String
  | nop => "nop"
  | ldarg0 => "ldarg.0"
  | ldarg1 => "ldarg.1"
  | ldarg2 => "ldarg.2"
  | ldarg3 => "ldarg.3"
  | ldloc0 => "ldloc.0"
  | ldloc1 => "ldloc.1"
  | ldloc2 => "ldloc.2"
  | ldloc3 => "ldloc.3"
  | stloc0 => "stloc.0"
  | stloc1 => "stloc.1"
  | stloc2 => "stloc.2"
  | stloc3 => "stloc.3"
  | ldargS => "ldarg.s"
  | stargS => "starg.s"
  | ldlocS => "ldloc.s"
  | stlocS => "stloc.s"
  | ldnull => "ldnull"
  | ldcI4M1 => "ldc.i4.m1"
  | ldcI40 => "ldc.i4.0"
  | ldcI41 => "ldc.i4.1"
  | ldcI42 => "ldc.i4.2"
  | ldcI43 => "ldc.i4.3"
  | ldcI44 => "ldc.i4.4"
  | ldcI45 => "ldc.i4.5"
  | ldcI46 => "ldc.i4.6"
  | ldcI47 => "ldc.i4.7"
  | ldcI48 => "ldc.i4.8"
  | ldcI4S => "ldc.i4.s"
  | ldcI4 => "ldc.i4"
  | ldcI8 => "ldc.i8"
  | ldcR8 => "ldc.r8"
  | dup => "dup"
  | pop => "pop"
  | call => "call"
  | ret => "ret"
  | brS => "br.s"
  | brfalseS => "brfalse.s"
  | brtrueS => "brtrue.s"
  | beqS => "beq.s"
  | bgeS => "bge.s"
  | bgtS => "bgt.s"
  | bleS => "ble.s"
  | bltS => "blt.s"
  | bneUnS => "bne.un.s"
  | br => "br"
  | brfalse => "brfalse"
  | brtrue => "brtrue"
  | beq => "beq"
  | bge => "bge"
  | bgt => "bgt"
  | ble => "ble"
  | blt => "blt"
  | bneUn => "bne.un"
  | add => "add"
  | sub => "sub"
  | mul => "mul"
  | div => "div"
  | rem => "rem"
  | andOp => "and"
  | orOp => "or"
  | xor => "xor"
  | neg => "neg"
  | notOp => "not"
  | convI4 => "conv.i4"
  | convI8 => "conv.i8"
  | convR8 => "conv.r8"
  | callvirt => "callvirt"
  | ldstr => "ldstr"
  | newobj => "newobj"
  | castclass => "castclass"
  | isinst => "isinst"
  | throw => "throw"
  | ldfld => "ldfld"
  | stfld => "stfld"
  | ldsfld => "ldsfld"
  | stsfld => "stsfld"
  | box => "box"
  | newarr => "newarr"
  | ldlen => "ldlen"
  | ldelemRef => "ldelem.ref"
  | stelemRef => "stelem.ref"
  | unboxAny => "unbox.any"
  | ldtoken => "ldtoken"
  | ceq => "ceq"
  | cgt => "cgt"
  | clt => "clt"
  | ldarg => "ldarg"
  | starg => "starg"
  | ldloc => "ldloc"
  | stloc => "stloc"

/-- The byte that stands for an operation. -/
def code : Opcode → UInt8
  | nop => 0x00
  | ldarg0 => 0x02
  | ldarg1 => 0x03
  | ldarg2 => 0x04
  | ldarg3 => 0x05
  | ldloc0 => 0x06
  | ldloc1 => 0x07
  | ldloc2 => 0x08
  | ldloc3 => 0x09
  | stloc0 => 0x0A
  | stloc1 => 0x0B
  | stloc2 => 0x0C
  | stloc3 => 0x0D
  | ldargS => 0x0E
  | stargS => 0x10
  | ldlocS => 0x11
  | stlocS => 0x13
  | ldnull => 0x14
  | ldcI4M1 => 0x15
  | ldcI40 => 0x16
  | ldcI41 => 0x17
  | ldcI42 => 0x18
  | ldcI43 => 0x19
  | ldcI44 => 0x1A
  | ldcI45 => 0x1B
  | ldcI46 => 0x1C
  | ldcI47 => 0x1D
  | ldcI48 => 0x1E
  | ldcI4S => 0x1F
  | ldcI4 => 0x20
  | ldcI8 => 0x21
  | ldcR8 => 0x23
  | dup => 0x25
  | pop => 0x26
  | call => 0x28
  | ret => 0x2A
  | brS => 0x2B
  | brfalseS => 0x2C
  | brtrueS => 0x2D
  | beqS => 0x2E
  | bgeS => 0x2F
  | bgtS => 0x30
  | bleS => 0x31
  | bltS => 0x32
  | bneUnS => 0x33
  | br => 0x38
  | brfalse => 0x39
  | brtrue => 0x3A
  | beq => 0x3B
  | bge => 0x3C
  | bgt => 0x3D
  | ble => 0x3E
  | blt => 0x3F
  | bneUn => 0x40
  | add => 0x58
  | sub => 0x59
  | mul => 0x5A
  | div => 0x5B
  | rem => 0x5D
  | andOp => 0x5F
  | orOp => 0x60
  | xor => 0x61
  | neg => 0x65
  | notOp => 0x66
  | convI4 => 0x69
  | convI8 => 0x6A
  | convR8 => 0x6C
  | callvirt => 0x6F
  | ldstr => 0x72
  | newobj => 0x73
  | castclass => 0x74
  | isinst => 0x75
  | throw => 0x7A
  | ldfld => 0x7B
  | stfld => 0x7D
  | ldsfld => 0x7E
  | stsfld => 0x80
  | box => 0x8C
  | newarr => 0x8D
  | ldlen => 0x8E
  | ldelemRef => 0x9A
  | stelemRef => 0xA2
  | unboxAny => 0xA5
  | ldtoken => 0xD0
  | ceq => 0x01
  | cgt => 0x02
  | clt => 0x04
  | ldarg => 0x09
  | starg => 0x0B
  | ldloc => 0x0C
  | stloc => 0x0E

/-- The byte in front of the code of an extended operation. -/
def extendedMark : UInt8 := 0xFE

/-- Whether the code of an operation follows the mark of extended operations. -/
def isExtended : Opcode → Bool
  | ceq | cgt | clt | ldarg | starg | ldloc | stloc => true
  | _ => false

/-- The byte in front of the code of an operation; zero when there is none. -/
def lead (op : Opcode) : UInt8 := if op.isExtended then extendedMark else 0

/-- What follows the code of an operation. -/
def operandKind : Opcode → OperandKind
  | ldargS | stargS | ldlocS | stlocS => .index8
  | ldcI4S => .int8
  | ldcI4 => .int32
  | ldcI8 => .int64
  | ldcR8 => .float64
  | call | callvirt | ldstr | newobj | castclass | isinst | ldfld | stfld | ldsfld | stsfld
    | box | newarr | unboxAny | ldtoken => .token
  | brS | brfalseS | brtrueS | beqS | bgeS | bgtS | bleS | bltS | bneUnS => .shortTarget
  | br | brfalse | brtrue | beq | bge | bgt | ble | blt | bneUn => .target
  | ldarg | starg | ldloc | stloc => .index16
  | _ => .none

/-- Where control goes after an operation. -/
def flow : Opcode → Flow
  | call | callvirt | newobj => .call
  | ret => .ret
  | brS | br => .unconditionalBranch
  | brfalseS | brtrueS | beqS | bgeS | bgtS | bleS | bltS | bneUnS | brfalse | brtrue | beq
    | bge | bgt | ble | blt | bneUn => .conditionalBranch
  | throw => .raise
  | _ => .sequential

/-- The number of bytes that stand for an operation. -/
def size (op : Opcode) : Nat := if op.isExtended then 2 else 1

/-- The bytes that stand for an operation. -/
def bytes (op : Opcode) : List UInt8 :=
  if op.isExtended then [extendedMark, op.code] else [op.code]

/-- Whether the operand is a displacement. -/
def isBranch (op : Opcode) : Bool := op.operandKind.isTarget

/-- The operation with the given code, with or without the mark of extended operations. -/
def ofCode? (extended : Bool) (code : UInt8) : Option Opcode :=
  all.find? fun op => op.isExtended = extended && op.code = code

/-- The operation with the given byte in front of its code. -/
def ofLead? (lead code : UInt8) : Option Opcode :=
  all.find? fun op => op.lead = lead && op.code = code

/-- The operation with the given name. -/
def ofMnemonic? (mnemonic : String) : Option Opcode :=
  all.find? (·.mnemonic = mnemonic)

/-- The branch of the same meaning with a four-byte displacement; other operations stay. -/
def widened : Opcode → Opcode
  | brS => br
  | brfalseS => brfalse
  | brtrueS => brtrue
  | beqS => beq
  | bgeS => bge
  | bgtS => bgt
  | bleS => ble
  | bltS => blt
  | bneUnS => bneUn
  | op => op

theorem ofCode?_code (op : Opcode) : ofCode? op.isExtended op.code = some op := by
  cases op <;> decide

theorem ofLead?_lead (op : Opcode) : ofLead? op.lead op.code = some op := by
  cases op <;> decide

theorem ofMnemonic?_mnemonic (op : Opcode) : ofMnemonic? op.mnemonic = some op := by
  cases op <;> decide

theorem mem_all (op : Opcode) : op ∈ all := by
  cases op <;> decide

end Opcode

end Interpose
