import Interpose.Machine.Intrinsics

/-!
# Dispatch

Which code a call runs: an intrinsic, a method of the module, or a native method.  Methods of the
module are searched for in a type and then in its base types, starting at the type of the receiver
for virtual calls and at the declaring type for others.

## Main definitions

* `Executor` — what runs the code of a method
* `Module.definitionOn?` — the definition of a method on one type
* `Module.implementation?` — the definition found along the base types
* `Machine.dispatch` — runs a call
-/

namespace Interpose

/-- What runs the code of a method, given its token, how it is called, and all its arguments. -/
abbrev Executor := Token → Method → List Value → Run Value

namespace Module

/-- Whether a definition of the given type has the name and the numbers of parameters and type
arguments of a method, and a receiver just if the method has one. -/
def resembles (owner : Token) (method : Method) (d : MethodDef) : Bool :=
  d.owner = owner && d.name = method.name && d.parameters.length = method.parameters.length &&
    d.genericArity.toNat = method.typeArguments.length && d.hasThis = method.hasThis

/-- Whether the parameters of a definition are those of a method that is found on the given type. -/
def sameParameters (type : Ty) (method : Method) (d : MethodDef) : Bool :=
  d.parameters.map (Ty.instantiate type.arguments method.typeArguments) = method.parameters

/-- The definition of a method on one type.  If only one definition comes into question it is the
one; otherwise the parameters decide. -/
def definitionOn? (m : Module) (method : Method) (type : Ty) : Option Token := do
  let owner ← m.typeToken? type.typeName
  match m.methodsWithTokens.filter fun (_, d) => resembles owner method d with
  | [(token, _)] => some token
  | candidates =>
    (candidates.find? fun (_, d) => sameParameters type method d).map Prod.fst

/-- The first type on the way along the base types that defines a method, and its definition.  The
search ends after `fuel` types. -/
def implementation? (m : Module) (method : Method) : (fuel : Nat) → Ty → Option (Ty × Token)
  | 0, _ => none
  | fuel + 1, type =>
    match m.definitionOn? method type with
    | some token => some (type, token)
    | none => (m.baseOf type).bind (m.implementation? method fuel)

end Module

namespace Machine

/-- The number of types that the search for a method looks at. -/
def dispatchLimit : Nat := 65

/-- Whether the type of the receiver decides which method a virtual call runs. -/
def isDynamic (m : Machine) (method : Method) : Bool :=
  method.hasThis &&
    (method.flags.contains .isVirtual || method.flags.contains .isAbstract ||
      (m.module.typeToken? method.declaringType.typeName).isNone)

/-- The type at which the search for a method starts. -/
def startType (m : Machine) (method : Method) (receiver : Option Value) (isVirtual : Bool) :
    Run Ty := do
  match receiver with
  | some value =>
    if isVirtual && value.isNull then Run.fault .nullReference
    else if isVirtual && m.isDynamic method then Run.typeOf value
    else return method.declaringType
  | none => return method.declaringType

/-- How a definition is called that was found for a method on the given type. -/
def calleeOn (m : Machine) (method : Method) (type : Ty) (token : Token) : Except Error Method := do
  let defined ← m.module.definedMethod token
  return ({ defined with declaringType := type }.closeDeclaring).instantiate method.typeArguments

/-- The arguments of a method together with its receiver. -/
def withReceiver (method : Method) (receiver : Option Value) (arguments : List Value) :
    List Value :=
  if method.hasThis then receiver.getD .null :: arguments else arguments

/-- Runs a call. -/
def dispatch (m : Machine) (execute : Executor) (method : Method) (receiver : Option Value)
    (arguments : List Value) (isVirtual : Bool) : Run Value := do
  match Intrinsic.ofMethod? method with
  | some i => m.intrinsic i receiver arguments
  | none =>
    let start ← m.startType method receiver isVirtual
    match m.module.implementation? method dispatchLimit start with
    | some (type, token) =>
      let callee ← m.calleeOn method type token
      execute token callee (withReceiver callee receiver arguments)
    | none =>
      match m.natives.get? method with
      | some native => Run.act (native { method, receiver, arguments })
      | none => Run.fault (.missingMethod method.fullName)

end Machine

end Interpose
