import Interpose.Machine.Step

/-!
# Running methods

The loop that runs the instructions of a method, and what can be asked of a machine from outside.
The number of instructions that one invocation may run bounds the recursion.

## Main definitions

* `Machine.enter` — runs a method in a frame of its own
* `Machine.runFrom` — runs the code of a method from a position on
* `Machine.invoke`, `Machine.invokeNamed`, `Machine.create` — invocations from outside
* `Machine.readStatic`, `Machine.writeStatic` — access to static fields
-/

namespace Interpose.Machine

/-- Runs a method in a frame of its own, unless too many methods are running already. -/
def enter (m : Machine) (run : Code → Step Value) : Executor := fun token method arguments => do
  -- Too many methods is a fault even if the one to be entered has no body.
  if m.limits.callDepth ≤ (← get).callStack.length then
    Run.fault (.callDepth m.limits.callDepth)
  let code ← m.program.code token method.fullName
  Run.within method ((run code).run' (Frame.start method arguments code))

/-- Counts an instruction and notes its offset on the call stack. -/
def count (m : Machine) (i : Instruction) : Run Unit := do
  -- The instruction that exceeds the limit is counted as well.
  modify fun s => { s with executed := s.executed + 1 }
  if m.limits.instructions < (← get).executed then
    Run.fault (.instructionLimit m.limits.instructions)
  modify fun s =>
    match s.callStack with
    | frame :: outer => { s with callStack := { frame with offset := i.offset } :: outer }
    | [] => s

/-- The position of the instruction that a branch goes to. -/
def positionOf (code : Code) (offset : Nat) : Except Error Nat :=
  match code.indexOf? offset with
  | some position => return position
  | none => throw (.invalidBranch (.noInstruction offset))

/-- Runs the code of a method from a position on.  Each instruction takes one unit of fuel, so fuel
that exceeds the limit on instructions never runs out. -/
def runFrom (m : Machine) : (fuel : Nat) → Code → (position : Nat) → Step Value
  | 0, _, _ => Step.fault (.instructionLimit m.limits.instructions)
  | fuel + 1, code, position => do
    match code.instructions[position]? with
    | none => Step.fault (.fellThrough (← get).method.fullName)
    | some i =>
      m.count i
      match ← m.step (m.enter fun callee => m.runFrom fuel callee 0) i with
      | .next => m.runFrom fuel code (position + 1)
      | .jump offset => m.runFrom fuel code (← positionOf code offset)
      | .finish result => return result

/-- Runs a method whose arguments are all there. -/
def execute (m : Machine) : Executor :=
  m.enter fun code => m.runFrom (m.limits.instructions + 1) code 0

/-- Invokes a method of the module.  A missing receiver is null. -/
def invoke (m : Machine) (token : Token) (receiver : Option Value) (arguments : List Value) :
    Run Value := do
  let method ← m.module.definedMethod token
  if arguments.length ≠ method.parameters.length then
    Run.fault (.argumentIndex arguments.length method.parameters.length)
  let arguments := arguments.zipWith Value.adaptTo method.parameters
  modify fun s => { s with executed := 0, callStack := [] }
  m.execute token method (withReceiver method receiver arguments)

/-- Invokes the first method of the given type and name. -/
def invokeNamed (m : Machine) (typeName name : String) (receiver : Option Value)
    (arguments : List Value) : Run Value := do
  match m.module.methodToken? typeName name with
  | some token => m.invoke token receiver arguments
  | none => Run.fault (.missingMethod (typeName ++ "::" ++ name))

/-- The first constructor of a type with the given number of parameters. -/
def constructorOf? (m : Module) (owner : Token) (arity : Nat) : Option Token :=
  (m.methodsWithTokens.find? fun (_, d) =>
    d.owner = owner && d.name = constructorName && d.parameters.length = arity).map Prod.fst

/-- Creates an object with the constructor that takes so many arguments. -/
def create (m : Machine) (typeName : String) (arguments : List Value) : Run Value := do
  let found := do
    let owner ← m.module.typeToken? typeName
    return (owner, ← constructorOf? m.module owner arguments.length)
  match found with
  | some (owner, constructor) =>
    let type := (← m.module.typeDefAt owner).type
    let object ← Run.act (Act.newInstance type)
    let _ ← m.invoke constructor (some object) arguments
    return object
  | none => Run.fault (.missingMethod (typeName ++ "::" ++ constructorName))

/-- The static field of the given type and name. -/
def findStatic (m : Module) (typeName name : String) : Except Error (Token × FieldDef) :=
  let found := do
    let owner ← m.typeToken? typeName
    let token ← m.fieldToken? owner name
    let field ← (m.fieldDefAt token).toOption
    if field.isStatic then some (token, field) else none
  match found with
  | some field => return field
  | none => throw (.fault (.missingField (typeName ++ "::" ++ name)))

/-- The value of a static field. -/
def readStatic (m : Machine) (typeName name : String) : Run Value := do
  let (token, field) ← findStatic m.module typeName name
  Run.static token field.type

/-- Gives a static field a value. -/
def writeStatic (m : Machine) (typeName name : String) (value : Value) : Run Unit := do
  let (token, field) ← findStatic m.module typeName name
  Run.setStatic token (value.adaptTo field.type)

end Interpose.Machine
