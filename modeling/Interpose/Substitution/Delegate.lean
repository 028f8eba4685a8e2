import Interpose.Value.Store

/-!
# Substitutes

What runs in place of an intercepted call.  A substitute sees the whole context of the call.  A
delegate is a function with a signature, and sees the arguments only.

## Main definitions

* `Delegate` — functions with a signature
* `Delegate.call`, `Delegate.invoke` — running a delegate on arguments, or on an intercepted call
* `Substitute` — what runs in place of a call
-/

namespace Interpose

/-- A function with a signature. -/
structure Delegate where
  signature : Method
  /-- The result for the given arguments and type arguments. -/
  body : List Value → List Ty → Act Value

namespace Delegate

/-- The signature of delegates with the given parameters and result. -/
def shape (parameters : List Ty) (returnType : Ty) (genericArity : UInt32 := 0) : Method where
  declaringType := .classType "Dotshim.Runtime.Delegate"
  name := "Invoke"
  parameters
  returnType
  genericArity
  flags := .isStatic

/-- Runs a delegate on as many arguments as it has parameters. -/
def call (d : Delegate) (arguments : List Value) (typeArguments : List Ty) : Act Value :=
  if arguments.length = d.signature.parameters.length then d.body arguments typeArguments
  else throw (.signatureMismatch d.signature.name)

/-- Runs a delegate in place of an intercepted call: it gets the arguments unwrapped, and its result
becomes an object. -/
def invoke (d : Delegate) (context : CallContext) : Act Value := do
  let result ← d.call (context.arguments.map Value.unwrapped) context.typeArguments
  return result.toObject

end Delegate

/-- What runs in place of an intercepted call. -/
structure Substitute where
  identity : SubstituteId := .registered 0
  /-- The signature that decides which calls it can stand in for, if it has one. -/
  signature : Option Method
  invoke : CallContext → Act Value

/-- The substitute that runs a delegate. -/
def Delegate.toSubstitute (d : Delegate) : Substitute where
  signature := some d.signature
  invoke := d.invoke

/-- The substitute that runs a function of the context and stands in for any call. -/
def Substitute.ofFunction (invoke : CallContext → Act Value) : Substitute where
  signature := none
  invoke

end Interpose
