import Interpose.Intrinsic
import Interpose.Machine.Basic

/-!
# Running intrinsics

What the methods of the interception runtime do when running code calls them: they find the provider
and the call map of the running method, ask the map, and run substitutes.

## Main definitions

* `Machine.callMapFor` — the call map of a method, made when it is first asked for
* `Machine.invokeSubstitute` — runs the substitute that a handle refers to
* `Machine.intrinsic` — runs an intrinsic
-/

namespace Interpose

namespace Run

/-- Fails because an intrinsic does not apply to a value. -/
def unexpected {α : Type} (i : Intrinsic) (found : Value) : Run α := do
  mismatch i.name (← debugText found)

/-- The method that a value stands for. -/
def methodOf (i : Intrinsic) (value : Value) : Run Method :=
  match value with
  | .handle (.method method) => return method
  | other => unexpected i other

/-- The stack trace that a value stands for; null is the empty one. -/
def traceOf (i : Intrinsic) (value : Value) : Run StackTrace :=
  match value with
  | .handle (.stackTrace id) => return ((← get).store.traces[id]?).getD []
  | .null => return []
  | other => unexpected i other

/-- The elements of the array that a value refers to; null is an array without elements. -/
def elementsOf (i : Intrinsic) (value : Value) : Run (List Value) :=
  match value with
  | .object ref => do
    let array ← act (Act.object ref)
    return ← array.elements
  | .null => return []
  | other => unexpected i other

/-- The call map that the receiver of an intrinsic stands for, with its number. -/
def callMapOf (i : Intrinsic) (receiver : Option Value) : Run (Nat × CallMap) :=
  match receiver with
  | some (.handle (.callMap id)) => do
    match (← get).rules.publication.maps[id]? with
    | some map => return (id, map)
    | none => fault .nullReference
  | some .null | none => fault .nullReference
  | some other => unexpected i other

end Run

namespace Machine

/-- The provider for a calling object and its type, or null. -/
def chooseProvider (callingInstance type : Value) : Run Value := do
  match type with
  | .handle (.type declaringType) =>
    match ← Run.intercept (Intercept.chooseProvider callingInstance declaringType) with
    | some id => return .handle (.provider id)
    | none => return .null
  | other => Run.unexpected .getProvider other

/-- The call map of a method, made by the provider when it is first asked for.  Without a provider
there is no map. -/
def callMapFor (m : Machine) (provider callingInstance host intercepted trace : Value) :
    Run Value := do
  match provider with
  | .handle (.provider id) => do
    let host ← Run.methodOf .getMap host
    let intercepted ← (← Run.elementsOf .getMap intercepted).mapM (Run.methodOf .getMap)
    let stackTrace ← Run.traceOf .getMap trace
    let caller : Caller := { callingInstance, host, intercepted, stackTrace }
    return .handle (.callMap
      (← Run.intercept (Intercept.publishedMap id caller m.module.hierarchy)))
  | .null => return .null
  | other => Run.unexpected .getMap other

/-- The methods that are running. -/
def captureStackTrace : Run Value := do
  Run.act (Act.newTrace (← get).callStack)

/-- Whether a call map has a substitute for a method. -/
def containsMapping (receiver : Option Value) (target : Value) : Run Value := do
  let (_, map) ← Run.callMapOf .containsMapping receiver
  return .bool (map.contains (← Run.methodOf .containsMapping target))

/-- The substitute that a call map has for a method, or null. -/
def substituteFor (receiver : Option Value) (target : Value) : Run Value := do
  let (id, map) ← Run.callMapOf .getSubstitute receiver
  let target ← Run.methodOf .getSubstitute target
  match map.find? target with
  | some position =>
    match map.entries[position]? with
    | some entry => return .handle (.substitute id position entry.substitute.identity)
    | none => return .null
  | none => return .null

/-- The entry of a call map that the receiver of an intrinsic stands for. -/
def entryOf (receiver : Option Value) : Run CallEntry :=
  match receiver with
  | some (.handle (.substitute map entry _)) => do
    match ((← get).rules.publication.maps[map]?).bind (·.entries[entry]?) with
    | some found => return found
    | none => Run.fault .nullReference
  | some .null | none => Run.fault .nullReference
  | some other => Run.unexpected .invoke other

/-- The context that a value stands for. -/
def contextOf (value : Value) : Run CallContext :=
  match value with
  | .handle (.context id) => do
    match (← get).store.contexts[id]? with
    | some (context, _) => return context
    | none => Run.fault .nullReference
  | other => Run.unexpected .invoke other

/-- Runs a substitute for a call.  Its result becomes an object; no result becomes null. -/
def invokeSubstitute (receiver : Option Value) (context : Value) : Run Value := do
  let entry ← entryOf receiver
  let context ← contextOf context
  match ← Run.act (entry.substitute.invoke context) with
  | .void => return .null
  | result => return result.toObject

/-- The context of an intercepted call. -/
def newContext (target callingInstance callingMethod targetMethod trace arguments : Value) :
    Run Value := do
  let callingMethod ← Run.methodOf .newContext callingMethod
  let targetMethod ← Run.methodOf .newContext targetMethod
  let stackTrace ← Run.traceOf .newContext trace
  let arguments ← Run.elementsOf .newContext arguments
  Run.act (Act.newContext
    { target, callingInstance, callingMethod, targetMethod, stackTrace, arguments })

/-- Runs an intrinsic. -/
def intrinsic (m : Machine) (i : Intrinsic) (receiver : Option Value) (arguments : List Value) :
    Run Value :=
  match i, arguments with
  | .getProvider, [callingInstance, type] => chooseProvider callingInstance type
  | .getMap, [provider, callingInstance, host, intercepted, trace] =>
    m.callMapFor provider callingInstance host intercepted trace
  | .captureStackTrace, _ => captureStackTrace
  | .containsMapping, [target] => containsMapping receiver target
  | .getSubstitute, [target] => substituteFor receiver target
  | .invoke, [context] => invokeSubstitute receiver context
  | .newContext,
      [target, callingInstance, callingMethod, targetMethod, trace, arguments] =>
    newContext target callingInstance callingMethod targetMethod trace arguments
  | .getMethodFromHandle, [handle] | .getTypeFromHandle, [handle] => return handle
  | i, arguments => Run.fault (.argumentIndex arguments.length i.method.parameters.length)

end Machine

end Interpose
