import Interpose.Machine.Arithmetic
import Interpose.Machine.Dispatch

/-!
# Single instructions

What each instruction does to the frame of the running method, and where control goes next.  Calls
are run by an executor that is passed in, so that the meaning of one instruction is defined apart
from that of whole methods.

## Main definitions

* `Control` — where control goes after an instruction
* `Machine.call`, `Machine.construct` — calls, and the creation of objects
* `Machine.step` — the meaning of an instruction
-/

namespace Interpose

/-- Where control goes after an instruction. -/
inductive Control where
  /-- To the instruction behind it. -/
  | next
  /-- To the instruction at an offset. -/
  | jump (offset : Nat)
  /-- Back to the caller, with a result. -/
  | finish (result : Value)
deriving Inhabited

namespace Step

/-- Fails because an instruction has an operand of another kind. -/
def wrongOperand {α : Type} (i : Instruction) (expected : String) : Step α :=
  mismatch i.op.mnemonic ("operand " ++ i.operand.detail ++ ", expected " ++ expected)

/-- What an instruction must have for an operand. -/
def expecting {α : Type} (i : Instruction) (expected : String) (found : Option α) : Step α :=
  match found with
  | some operand => return operand
  | none => wrongOperand i expected

/-- The token operand of an instruction. -/
def tokenOf (i : Instruction) : Step Token := expecting i "token" i.token?

/-- Goes to the target of a branch. -/
def jump (i : Instruction) : Step Control :=
  return .jump (← expecting i "branch target" i.target?)

/-- Goes to the target of a branch if a condition holds. -/
def jumpIf (i : Instruction) (condition : Bool) : Step Control :=
  if condition then jump i else return .next

/-- Whether a comparison holds of the two topmost values. -/
def comparison (c : Comparison) : Step Bool := do
  let right ← pop
  let left ← pop
  match c.holds? left right with
  | some result => return result
  | none => mismatch "compare" ((← debugText left) ++ " and " ++ (← debugText right))

/-- Puts the outcome of a comparison on the stack. -/
def pushComparison (c : Comparison) : Step Unit := do
  push (.int32 (if ← comparison c then 1 else 0))

/-- An operation on the two topmost values. -/
def arithmetic (op : BinaryOperation) : Step Unit := do
  let right ← pop
  let left ← pop
  match Value.binary op left right with
  | .ok result => push result
  | .error .divisionByZero => fault .divisionByZero
  | .error .mismatch =>
    mismatch "arithmetic" ((← debugText left) ++ " and " ++ (← debugText right))

/-- An operation on the topmost value. -/
def unary (i : Instruction) (operation : Value → Option Value) : Step Unit := do
  let value ← pop
  match operation value with
  | some result => push result
  | none => mismatch i.op.mnemonic (← debugText value)

/-- Goes back to the caller.  Constructors and methods without result leave nothing. -/
def finish : Step Control := do
  let f ← get
  if f.method.isConstructor || f.method.returnType = .void then return .finish .void
  let value ← pop
  return .finish (value.adaptTo (f.close f.method.returnType))

/-- Throws the topmost value, which nothing handles. -/
def throwTop : Step Control := do
  match ← pop with
  | .null => fault .nullReference
  | .object ref =>
    let exception ← act (Act.object ref)
    let message :=
      match ← exception.field? Natives.messageField with
      | some (.string text) => some text
      | _ => none
    fault (.unhandledException exception.type.text message)
  | other => fault (.unhandledException ((← Run.typeOf other).text) none)

/-- The length of the array on the stack. -/
def loadLength : Step Unit := do
  let array ← pop
  let length ← (← act (Act.object (← referent array))).length
  push (.int32 (Int32.ofNat (min length 0x7FFFFFFF)))

/-- An element of the array on the stack. -/
def loadElement : Step Unit := do
  let index ← popIndex
  let array ← pop
  push (← (← act (Act.object (← referent array))).element index)

/-- Stores into an element of the array on the stack. -/
def storeElement : Step Unit := do
  let value ← pop
  let index ← popIndex
  let array ← pop
  let ref ← referent array
  act (Act.modifyObject ref (·.setElement index value))

end Step

namespace Machine

/-- The method that a token stands for in the running method. -/
def methodFor (m : Machine) (token : Token) : Step Method := do
  let method ← m.module.methodAt token
  let f ← get
  -- A definition is meant as it stands; only references take the type arguments of the frame.
  if token.isIn .methodDef then return method.closeDeclaring
  else return f.closeCall method.closeDeclaring

/-- The type that a token stands for in the running method. -/
def typeFor (m : Machine) (token : Token) : Step Ty := do
  let type ← m.module.typeAt token
  return (← get).close type

/-- The type operand of an instruction. -/
def typeOperand (m : Machine) (i : Instruction) : Step Ty := do
  m.typeFor (← Step.tokenOf i)

/-- The field operand of an instruction. -/
def fieldOperand (m : Machine) (i : Instruction) : Step (Token × FieldDef) := do
  let token ← Step.tokenOf i
  if token.isIn .field then return (token, ← m.module.fieldDefAt token)
  else Step.wrongOperand i "field token"

/-- Takes the arguments of a method from the stack. -/
def popArguments (method : Method) : Step (List Value) := do
  return (← Step.popMany method.parameters.length).zipWith Value.adaptTo method.parameters

/-- Calls a method with what the stack holds. -/
def call (m : Machine) (execute : Executor) (i : Instruction) (isVirtual : Bool) : Step Unit := do
  let method ← m.methodFor (← Step.tokenOf i)
  let arguments ← popArguments method
  -- The receiver was put on the stack before the arguments.
  let receiver ← if method.hasThis then some <$> Step.pop else pure none
  let result ← m.dispatch execute method receiver arguments isVirtual
  if method.returnType ≠ .void && !method.isConstructor then
    Step.push (result.adaptTo method.returnType)

/-- Creates an object and runs its constructor.  The context of a call is created by the intrinsic
alone. -/
def construct (m : Machine) (execute : Executor) (i : Instruction) : Step Unit := do
  let method ← m.methodFor (← Step.tokenOf i)
  let arguments ← popArguments method
  if Intrinsic.ofMethod? method = some .newContext then
    Step.push (← m.intrinsic .newContext none arguments)
  else
    let object ← Step.act (Act.newInstance method.declaringType)
    let _ ← m.dispatch execute method (some object) arguments false
    Step.push object

/-- Checks that the topmost value is null or of the type an instruction names; if it is neither, it
becomes what `otherwise` says. -/
def cast (m : Machine) (i : Instruction) (otherwise : Value → Ty → Step Value) : Step Unit := do
  let type ← m.typeOperand i
  let value ← Step.pop
  if value.isNull || type.assignableFrom m.module.hierarchy (← Run.typeOf value) then
    Step.push value
  else
    Step.push (← otherwise value type)

/-- Loads a field of the object on the stack. -/
def loadField (m : Machine) (i : Instruction) : Step Unit := do
  let (_, field) ← m.fieldOperand i
  let target ← Step.pop
  let stored ← (← Step.act (Act.object (← Step.referent target))).field? field.name
  let f ← get
  Step.push (stored.getD (Value.default (f.close field.type)))

/-- Stores into a field of the object on the stack. -/
def storeField (m : Machine) (i : Instruction) : Step Unit := do
  let (_, field) ← m.fieldOperand i
  let value ← Step.pop
  let target ← Step.pop
  let f ← get
  let ref ← Step.referent target
  Step.act (Act.modifyObject ref (·.setField field.name (value.adaptTo (f.close field.type))))

/-- Loads a static field. -/
def loadStatic (m : Machine) (i : Instruction) : Step Unit := do
  let (token, field) ← m.fieldOperand i
  Step.push (← Run.static token field.type)

/-- Stores into a static field. -/
def storeStatic (m : Machine) (i : Instruction) : Step Unit := do
  let (token, field) ← m.fieldOperand i
  let value ← Step.pop
  Run.setStatic token (value.adaptTo field.type)

/-- Wraps the topmost value as an object. -/
def box (m : Machine) (i : Instruction) : Step Unit := do
  let type ← m.typeOperand i
  let value ← Step.pop
  Step.push (value.wrapAs type)

/-- Takes the topmost value as one of the type an instruction names. -/
def unbox (m : Machine) (i : Instruction) : Step Unit := do
  let type ← m.typeOperand i
  let value ← Step.pop
  Step.push (← Step.act (value.extractAs type m.module.hierarchy))

/-- Creates an array of the length on the stack. -/
def newArray (m : Machine) (i : Instruction) : Step Unit := do
  let element ← m.typeOperand i
  let length ← Step.pop
  match length.asInt64? with
  | some size =>
    if 0 ≤ size then Step.push (← Step.act (Act.newArray element size.toInt.toNat))
    else Step.mismatch "newarr" ("length " ++ (← Step.debugText length))
  | none => Step.mismatch "newarr" ("length " ++ (← Step.debugText length))

/-- Loads the handle of a type or a method. -/
def loadToken (m : Machine) (i : Instruction) : Step Unit := do
  let token ← Step.tokenOf i
  match token.table? with
  | some .typeDef | some .typeSpec => Step.push (.handle (.type (← m.typeFor token)))
  | some .methodDef | some .memberRef | some .methodSpec =>
    Step.push (.handle (.method (← m.methodFor token)))
  | _ => Step.wrongOperand i "type or method token"

/-- Loads a constant that is an operand. -/
def loadConstant (i : Instruction) : Step Unit :=
  match i.op, i.operand with
  | .ldcI8, .int64 value => Step.push (.int64 value)
  | .ldcI8, _ => Step.wrongOperand i "int64"
  | .ldcR8, .float64 bits => Step.push (.float64 (Float.ofBits bits))
  | .ldcR8, _ => Step.wrongOperand i "float64"
  | _, _ => do Step.push (.int32 (← Step.expecting i "int32" i.constant?))

/-- Fails because an operation is not one that the machine runs. -/
def unsupported (i : Instruction) : Step Unit :=
  Step.fault (.unsupportedOpcode i.op.mnemonic i.offset)

/-- What an instruction with an extended code does. -/
def extendedEffect (i : Instruction) : Step Unit :=
  match i.op with
  | .ceq => Step.pushComparison .eq
  | .cgt => Step.pushComparison .gt
  | .clt => Step.pushComparison .lt
  | .ldarg => do Step.loadArgument (← Step.expecting i "argument" i.argument?).toNat
  | .starg => do Step.storeArgument (← Step.expecting i "argument" i.argument?).toNat
  | .ldloc => do Step.loadLocal (← Step.expecting i "local" i.localVar?).toNat
  | .stloc => do Step.storeLocal (← Step.expecting i "local" i.localVar?).toNat
  | _ => unsupported i

/-- What an instruction does after which control goes to the one behind it. -/
def effect (m : Machine) (execute : Executor) (i : Instruction) : Step Unit :=
  if i.op.isExtended then extendedEffect i else
  match i.op with
  | .nop => return
  | .ldarg0 | .ldarg1 | .ldarg2 | .ldarg3 | .ldargS => do
    Step.loadArgument (← Step.expecting i "argument" i.argument?).toNat
  | .stargS => do
    Step.storeArgument (← Step.expecting i "argument" i.argument?).toNat
  | .ldloc0 | .ldloc1 | .ldloc2 | .ldloc3 | .ldlocS => do
    Step.loadLocal (← Step.expecting i "local" i.localVar?).toNat
  | .stloc0 | .stloc1 | .stloc2 | .stloc3 | .stlocS => do
    Step.storeLocal (← Step.expecting i "local" i.localVar?).toNat
  | .ldnull => Step.push .null
  | .ldcI4M1 | .ldcI40 | .ldcI41 | .ldcI42 | .ldcI43 | .ldcI44 | .ldcI45 | .ldcI46 | .ldcI47
  | .ldcI48 | .ldcI4S | .ldcI4 | .ldcI8 | .ldcR8 => loadConstant i
  | .dup => do Step.push (← Step.peek)
  | .pop => do let _ ← Step.pop
  | .call => m.call execute i false
  | .callvirt => m.call execute i true
  | .newobj => m.construct execute i
  | .add => Step.arithmetic .add
  | .sub => Step.arithmetic .sub
  | .mul => Step.arithmetic .mul
  | .div => Step.arithmetic .div
  | .rem => Step.arithmetic .rem
  | .andOp => Step.arithmetic .and
  | .orOp => Step.arithmetic .or
  | .xor => Step.arithmetic .xor
  | .neg => Step.unary i Value.negate
  | .notOp => Step.unary i Value.complement
  | .convI4 => Step.unary i Value.toInt32?
  | .convI8 => Step.unary i Value.toInt64?
  | .convR8 => Step.unary i Value.toFloat64?
  | .ldstr => do Step.push (.string (← m.module.stringAt (← Step.tokenOf i)))
  | .castclass => m.cast i fun value type => Step.act (Act.invalidCast value type)
  | .isinst => m.cast i fun _ _ => return .null
  | .ldfld => m.loadField i
  | .stfld => m.storeField i
  | .ldsfld => m.loadStatic i
  | .stsfld => m.storeStatic i
  | .box => m.box i
  | .unboxAny => m.unbox i
  | .newarr => m.newArray i
  | .ldlen => Step.loadLength
  | .ldelemRef => Step.loadElement
  | .stelemRef => Step.storeElement
  | .ldtoken => m.loadToken i
  | _ => unsupported i

/-- The meaning of an instruction. -/
def step (m : Machine) (execute : Executor) (i : Instruction) : Step Control :=
  match i.op with
  | .br | .brS => Step.jump i
  | .brfalse | .brfalseS => do Step.jumpIf i (!(← Step.pop).takesBranch)
  | .brtrue | .brtrueS => do Step.jumpIf i (← Step.pop).takesBranch
  | .beq | .beqS => do Step.jumpIf i (← Step.comparison .eq)
  | .bge | .bgeS => do Step.jumpIf i (← Step.comparison .ge)
  | .bgt | .bgtS => do Step.jumpIf i (← Step.comparison .gt)
  | .ble | .bleS => do Step.jumpIf i (← Step.comparison .le)
  | .blt | .bltS => do Step.jumpIf i (← Step.comparison .lt)
  | .bneUn | .bneUnS => do Step.jumpIf i (← Step.comparison .ne)
  | .ret => Step.finish
  | .throw => Step.throwTop
  | _ => do
    m.effect execute i
    return .next

end Machine

end Interpose
