import Interpose.Substitution.Delegate
import Interpose.Machine.Native

/-!
# Scripted doubles

Test doubles that are described by data.  Each notes in the journal what it is called with, and then
does what its script says.

## Main definitions

* `Script` — what a double does
* `Script.run` — runs a script for a call
* `Script.delegate`, `Script.substitute`, `Script.native` — doubles of the three kinds
-/

namespace Interpose

/-- What a double does. -/
inductive Script where
  /-- Returns nothing. -/
  | nothing
  | give (value : Value)
  /-- Returns one of its arguments. -/
  | argument (index : Nat)
  /-- Returns its receiver, or null without one. -/
  | receiver
  /-- Returns its receiver and fails without one. -/
  | requiredReceiver
  /-- Returns one of its arguments as a string. -/
  | stringArgument (index : Nat)
  /-- Returns the text of the call. -/
  | text
  | fail (reason : String)
deriving Inhabited

namespace Script

/-- Runs a script for a call with the given text. -/
def run (s : Script) (call : NativeCall) (text : String) : Act Value :=
  match s with
  | nothing => return .void
  | give value => return value
  | argument index =>
    match call.arguments[index]? with
    | some value => return value
    | none => Act.fault (.argumentIndex index call.arguments.length)
  | receiver => return call.receiver.getD .null
  | requiredReceiver => call.this
  | stringArgument index => do return .string (← call.stringArgument index)
  | .text => return .string text
  | fail reason => throw (.substitute reason)

/-- A delegate that follows a script.  If it takes type parameters it notes its type arguments. -/
def delegate (s : Script) (label : Option String) (parameters : List Ty) (returnType : Ty)
    (genericArity : Option UInt32) : Delegate :=
  let signature := Delegate.shape parameters returnType (genericArity.getD 0)
  { signature
    body := fun arguments typeArguments => do
      let texts ← Act.debugTexts arguments
      let typeTexts := if genericArity.isSome then typeArguments.map Ty.text else []
      Act.record (.delegate label texts typeTexts)
      s.run { method := signature, receiver := none, arguments } (", ".intercalate texts) }

/-- A substitute that follows a script and stands in for any call. -/
def substitute (s : Script) (label : Option String) : Substitute :=
  Substitute.ofFunction fun context => do
    let summary := (← get).summary context
    Act.record (.context label summary)
    s.run
      { method := context.targetMethod
        receiver := some context.target
        arguments := context.arguments }
      summary.call

/-- A native method that follows a script. -/
def native (s : Script) : Native := fun call => do
  let texts ← Act.debugTexts call.arguments
  let receiver := call.receiver.map (← get).debugText
  Act.record (.native call.method.text receiver texts)
  s.run call (", ".intercalate texts)

end Script

end Interpose
