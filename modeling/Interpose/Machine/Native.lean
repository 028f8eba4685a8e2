import Interpose.Text.Utf16
import Interpose.Value.Store

/-!
# Native methods

Methods of types that no module defines.  They are found by the name of the type, the name of the
method and the number of parameters.

## Main definitions

* `NativeCall` — a call of a native method
* `Natives` — the native methods
* `Natives.standard` — those of objects, strings and exceptions
-/

namespace Interpose

/-- A call of a native method. -/
structure NativeCall where
  method : Method
  receiver : Option Value
  arguments : List Value

namespace NativeCall

/-- The receiver, which must not be null. -/
def this (c : NativeCall) : Act Value :=
  match c.receiver with
  | some value => if value.isNull then Act.fault .nullReference else return value
  | none => Act.fault .nullReference

/-- An argument as a string; null is the empty string. -/
def stringArgument (c : NativeCall) (index : Nat) : Act String := do
  match c.arguments[index]? with
  | some (.string text) => return text
  | some .null => return ""
  | some other =>
    Act.fault (.typeMismatch "native string argument" ((← get).debugText other))
  | none => Act.fault (.argumentIndex index c.arguments.length)

end NativeCall

/-- What a native method does. -/
abbrev Native := NativeCall → Act Value

/-- The native methods, by type, name and number of parameters. -/
structure Natives where
  entries : List ((String × String × Nat) × Native) := []

namespace Natives

/-- No native methods. -/
def empty : Natives := {}

/-- The native methods with one more, which replaces the one of the same key. -/
def register (n : Natives) (typeName name : String) (arity : Nat) (native : Native) : Natives :=
  let key := (typeName, name, arity)
  { entries := (key, native) :: n.entries.filter fun entry => entry.1 ≠ key }

/-- The native method with the given key. -/
def find? (n : Natives) (key : String × String × Nat) : Option Native :=
  (n.entries.find? fun entry => entry.1 = key).map Prod.snd

/-- Whether there is a native method with the given key. -/
def contains (n : Natives) (key : String × String × Nat) : Bool := (n.find? key).isSome

/-- The native method that a method is. -/
def get? (n : Natives) (method : Method) : Option Native := n.find? method.key

/-- The number of native methods. -/
def size (n : Natives) : Nat := n.entries.length

/-- The field that holds the message of an exception. -/
def messageField : String := "_message"

/-- The types of exceptions with native constructors. -/
def exceptionTypes : List String :=
  ["System.Exception", "System.InvalidOperationException", "System.ArgumentException",
    "System.NotImplementedException"]

/-- Does nothing. -/
def nothing : Native := fun _ => return .void

/-- The text of an object: strings are their own, wrapped values have that of their contents, and
others have the name of their type. -/
def objectText : Native := fun call => do
  let receiver ← call.this
  let s ← get
  match receiver with
  | .string _ => return receiver
  | .boxed content => return .string (s.displayText content)
  | other => return .string (s.typeOf other).typeName

/-- The given number of strings one after the other. -/
def concat (count : Nat) : Native := fun call => do
  let parts ← (List.range count).mapM call.stringArgument
  return .string (String.join parts)

/-- The length of a string, in units of UTF-16. -/
def stringLength : Native := fun call => do
  match ← call.this with
  -- No length exceeds the greatest 32-bit integer.
  | .string text => return .int32 (Int32.ofNat (min (utf16Units text).length 0x7FFFFFFF))
  | other =>
    Act.fault (.typeMismatch "System.String::get_Length" ((← get).debugText other))

/-- Whether the two arguments are equal. -/
def equal : Native := fun call =>
  match call.arguments[0]?, call.arguments[1]? with
  | some a, some b => return .bool (a.same b)
  | none, none => return .bool true
  | _, _ => return .bool false

/-- Stores the message of a new exception. -/
def setMessage : Native := fun call => do
  let message := (call.arguments[0]?).getD .null
  match ← call.this with
  | .object ref => Act.modifyObject ref (·.setField messageField message)
  | _ => pure ()
  return .void

/-- The message of an exception. -/
def message : Native := fun call => do
  match ← call.this with
  | .object ref => return ((← (← Act.object ref).field? messageField)).getD .null
  | _ => return .null

/-- The native methods of one type of exceptions. -/
def withException (n : Natives) (typeName : String) : Natives :=
  ((n.register typeName constructorName 0 nothing).register typeName constructorName 1
    setMessage).register typeName "get_Message" 0 message

/-- The native methods of objects, strings and exceptions. -/
def standard : Natives :=
  let objects :=
    (empty.register "System.Object" constructorName 0 nothing).register "System.Object" "ToString" 0
      objectText
  let strings :=
    (((objects.register "System.String" "Concat" 2 (concat 2)).register "System.String" "Concat" 3
      (concat 3)).register "System.String" "get_Length" 0 stringLength).register "System.String"
      "op_Equality" 2 equal
  exceptionTypes.foldl withException strings

end Natives

end Interpose
