import Interpose.Code.Instruction
import Interpose.Substitution.Rules
import Interpose.Machine.Native
import Interpose.Module.Resolve

/-!
# The machine

The machine runs the methods of a module.  What it runs is fixed: the module with its code, the
native methods and the limits.  What changes while it runs is its state.

## Main definitions

* `Code`, `Program` — decoded bodies, and a module together with them
* `Limits`, `Machine` — what is fixed while code runs
* `MachineState`, `Run` — what changes, and computations that change it
* `Frame`, `Step` — the variables and the stack of a running method, and computations on them
* `Step.push`, `Step.pop`, `Step.popMany` — the evaluation stack
-/

namespace Interpose

/-- The decoded body of a method. -/
structure Code where
  instructions : Array Instruction
  locals : List Ty
  maxStack : Nat
deriving Repr, Inhabited

namespace Code

/-- The decoded form of a body; a body without any instruction has none. -/
def ofBody (body : Body) : Except Error (Option Code) := do
  let instructions ← decodeCode body.code
  if instructions.isEmpty then return none
  return some ⟨instructions.toArray, body.locals, body.maxStack.toNat⟩

/-- The position of the instruction at an offset. -/
def indexOf? (c : Code) (offset : Nat) : Option Nat :=
  c.instructions.findIdx? (·.offset = offset)

end Code

/-- A module together with the decoded bodies of its methods. -/
structure Program where
  module : Module
  /-- The decoded body of each method, if it has one with instructions. -/
  codes : Array (Except Error (Option Code))

namespace Program

/-- A module with all its bodies decoded. -/
def ofModule (m : Module) : Program where
  module := m
  codes := m.methods.map fun d =>
    match d.body with
    | some body => Code.ofBody body
    | none => .ok none

/-- The decoded body of a method that runs under the given name. -/
def code (p : Program) (token : Token) (name : String) : Except Error Code := do
  let decoded := ((token.index?).bind (p.codes[·]?)).getD (.ok none)
  match ← decoded with
  | some code => return code
  | none => throw (.fault (.noMethodBody name))

end Program

/-- The limits of a machine. -/
structure Limits where
  /-- The greatest number of methods that run at the same time. -/
  callDepth : Nat := 256
  /-- The greatest number of instructions of one invocation. -/
  instructions : Nat := 10000000
deriving DecidableEq, Repr, Inhabited

/-- What is fixed while code runs. -/
structure Machine where
  program : Program
  natives : Natives := .standard
  limits : Limits := {}

/-- The module whose code is run. -/
def Machine.module (m : Machine) : Module := m.program.module

/-- What changes while code runs. -/
structure MachineState where
  store : Store := {}
  rules : Rules := {}
  /-- The static fields that were given a value. -/
  statics : List (Token × Value) := []
  /-- The methods that are running, the innermost first. -/
  callStack : StackTrace := []
  /-- The number of instructions since the last invocation began. -/
  executed : Nat := 0

/-- A computation of the machine; changes made before it fails stay. -/
abbrev Run := ExceptT Error (StateM MachineState)

namespace Run

/-- Fails because of a fault. -/
def fault {α : Type} (f : Fault) : Run α := throw (.fault f)

/-- Fails because an operation does not apply to what it found. -/
def mismatch {α : Type} (operation found : String) : Run α := fault (.typeMismatch operation found)

/-- Runs a computation on the store. -/
def act {α : Type} (a : Act α) : Run α := fun s =>
  let (result, store) := a.run s.store
  (result, { s with store })

/-- Runs a computation on the rules. -/
def intercept {α : Type} (i : Intercept α) : Run α := fun s =>
  let (result, rules) := i.run s.rules
  (result, { s with rules })

/-- The text of a value with strings and characters quoted. -/
def debugText (value : Value) : Run String := return (← get).store.debugText value

/-- The type of a value as it is at run time. -/
def typeOf (value : Value) : Run Ty := return (← get).store.typeOf value

/-- The value of a static field of the given type. -/
def static (token : Token) (type : Ty) : Run Value :=
  return ((← get).statics.lookup token).getD (Value.default type)

/-- Gives a static field a value. -/
def setStatic (token : Token) (value : Value) : Run Unit :=
  modify fun s =>
    { s with statics := (token, value) :: s.statics.filter fun entry => entry.1 ≠ token }

/-- Runs a computation with one more method on the call stack, which is taken off again whether the
computation fails or not. -/
def within {α : Type} (method : Method) (run : Run α) : Run α := fun s =>
  let (result, inner) := run { s with callStack := ⟨method, 0⟩ :: s.callStack }
  (result, { inner with callStack := inner.callStack.tail })

end Run

/-- The variables and the evaluation stack of a running method. -/
structure Frame where
  method : Method
  arguments : Array Value
  locals : Array Value
  /-- The values on the stack, the topmost first. -/
  stack : List Value := []
  maxStack : Nat
deriving Inhabited

namespace Frame

/-- The type with the type arguments that the method runs with. -/
def close (f : Frame) (type : Ty) : Ty :=
  type.instantiate f.method.declaringType.arguments f.method.typeArguments

/-- The method with the type arguments that the running method runs with. -/
def closeCall (f : Frame) (m : Method) : Method :=
  { m with
    declaringType := f.close m.declaringType
    parameters := m.parameters.map f.close
    returnType := f.close m.returnType
    typeArguments := m.typeArguments.map f.close }

/-- The frame in which a method starts. -/
def start (method : Method) (arguments : List Value) (code : Code) : Frame :=
  let closed (type : Ty) : Ty :=
    type.instantiate method.declaringType.arguments method.typeArguments
  { method
    arguments := arguments.toArray
    locals := (code.locals.map fun type => Value.default (closed type)).toArray
    maxStack := code.maxStack }

end Frame

/-- A computation of a running method. -/
abbrev Step := StateT Frame Run

namespace Step

/-- Fails because of a fault. -/
def fault {α : Type} (f : Fault) : Step α := throw (.fault f)

/-- Fails because an operation does not apply to what it found. -/
def mismatch {α : Type} (operation found : String) : Step α :=
  fault (.typeMismatch operation found)

/-- Puts a value on the stack. -/
def push (value : Value) : Step Unit := do
  let f ← get
  if f.maxStack ≤ f.stack.length then fault (.stackOverflow f.maxStack)
  set { f with stack := value :: f.stack }

/-- Takes the topmost value from the stack. -/
def pop : Step Value := do
  let f ← get
  match f.stack with
  | value :: stack =>
    set { f with stack }
    return value
  | [] => fault .stackUnderflow

/-- The topmost value of the stack. -/
def peek : Step Value := do
  match (← get).stack with
  | value :: _ => return value
  | [] => fault .stackUnderflow

/-- Takes the given number of values from the stack, in the order in which they were put there. -/
def popMany (count : Nat) : Step (List Value) := do
  let f ← get
  if f.stack.length < count then fault .stackUnderflow
  set { f with stack := f.stack.drop count }
  return (f.stack.take count).reverse

/-- Loads an argument. -/
def loadArgument (index : Nat) : Step Unit := do
  let f ← get
  match f.arguments[index]? with
  | some value => push value
  | none => fault (.argumentIndex index f.arguments.size)

/-- Stores into an argument. -/
def storeArgument (index : Nat) : Step Unit := do
  let value ← pop
  let f ← get
  if index < f.arguments.size then
    set { f with arguments := f.arguments.setIfInBounds index value }
  else fault (.argumentIndex index f.arguments.size)

/-- Loads a local variable. -/
def loadLocal (index : Nat) : Step Unit := do
  let f ← get
  match f.locals[index]? with
  | some value => push value
  | none => fault (.localIndex index f.locals.size)

/-- Stores into a local variable. -/
def storeLocal (index : Nat) : Step Unit := do
  let value ← pop
  let f ← get
  if index < f.locals.size then
    set { f with locals := f.locals.setIfInBounds index value }
  else fault (.localIndex index f.locals.size)

/-- Runs a computation on the store. -/
def act {α : Type} (a : Act α) : Step α := liftM (Run.act a)

/-- The text of a value with strings and characters quoted. -/
def debugText (value : Value) : Step String := liftM (Run.debugText value)

/-- The object that a value refers to. -/
def referent (value : Value) : Step Nat := do
  match value with
  | .object ref => return ref
  | .null => fault .nullReference
  | other => mismatch "object access" (← debugText other)

/-- Takes the topmost value from the stack as the number of an array element. -/
def popIndex : Step Int64 := do
  let value ← pop
  match value.asInt64? with
  | some index => return index
  | none => mismatch "array index" (← debugText value)

end Step

end Interpose
