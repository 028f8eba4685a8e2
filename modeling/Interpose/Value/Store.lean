import Interpose.Error
import Interpose.Ty.Assignability
import Interpose.Value.Basic

/-!
# The store

What values refer to: objects with their contents, the contexts of intercepted calls, stack traces.
The store also keeps a journal of what substitutes and native methods were called with.

## Main definitions

* `StoredObject` — an object with its contents
* `TraceEntry`, `CallContext` — where a call comes from, and all that is known of it
* `Record` — an entry of the journal
* `Store`, `Act` — the store, and computations on it
* `Store.typeOf`, `Store.debugText`, `Store.displayText` — type and texts of a value
* `Value.extractAs` — a value as one of a given type
-/

namespace Interpose

/-- An object with its contents. -/
inductive StoredObject where
  | instance (type : Ty) (fields : List (String × Value))
  | array (element : Ty) (items : Array Value)
deriving Inhabited

namespace StoredObject

/-- The type of an object. -/
def type : StoredObject → Ty
  | .instance type _ => type
  | array element _ => .array element

/-- Fails because an operation does not apply to what it found. -/
def mismatch {α : Type} (operation found : String) : Except Error α :=
  throw (.fault (.typeMismatch operation found))

/-- The value of a field, if it was ever given one. -/
def field? (o : StoredObject) (name : String) : Except Error (Option Value) :=
  match o with
  | .instance _ fields => return fields.lookup name
  | array .. => mismatch "ldfld" "array"

/-- The fields with one of them given a value. -/
def insertField (name : String) (value : Value) : List (String × Value) → List (String × Value)
  | [] => [(name, value)]
  | (other, old) :: rest =>
    if other = name then (name, value) :: rest else (other, old) :: insertField name value rest

/-- The object with a field given a value. -/
def setField (o : StoredObject) (name : String) (value : Value) : Except Error StoredObject :=
  match o with
  | .instance type fields => return .instance type (insertField name value fields)
  | array .. => mismatch "stfld" "array"

/-- The elements of an array. -/
def elements (o : StoredObject) : Except Error (List Value) :=
  match o with
  | array _ items => return items.toList
  | .instance type _ => mismatch "ldelem" type.text

/-- The number of elements of an array. -/
def length (o : StoredObject) : Except Error Nat :=
  match o with
  | array _ items => return items.size
  | .instance type _ => mismatch "ldlen" type.text

/-- The position of an element, if there is one. -/
def position? (index : Int64) (size : Nat) : Option Nat :=
  if 0 ≤ index ∧ index.toInt.toNat < size then some index.toInt.toNat else none

/-- An element of an array. -/
def element (o : StoredObject) (index : Int64) : Except Error Value :=
  match o with
  | array _ items =>
    match (position? index items.size).bind (items[·]?) with
    | some value => return value
    | none => throw (.fault (.arrayIndex index.toInt items.size))
  | .instance type _ => mismatch "ldelem" type.text

/-- The array with another element. -/
def setElement (o : StoredObject) (index : Int64) (value : Value) : Except Error StoredObject :=
  match o with
  | array type items =>
    match position? index items.size with
    | some position => return array type (items.setIfInBounds position value)
    | none => throw (.fault (.arrayIndex index.toInt items.size))
  | .instance type _ => mismatch "stelem" type.text

end StoredObject

/-- A method that is running, and the offset of the instruction it is at. -/
structure TraceEntry where
  method : Method
  offset : Nat
deriving DecidableEq, Repr, Inhabited

/-- The methods that are running, the innermost first. -/
abbrev StackTrace := List TraceEntry

/-- The text of a stack trace, one line for each method. -/
def StackTrace.text (trace : StackTrace) : String :=
  String.join (trace.map fun frame =>
    "   at " ++ frame.method.fullName ++ " [" ++ ilLabel frame.offset ++ "]\n")

/-- All that is known of an intercepted call. -/
structure CallContext where
  /-- The object the method is called on. -/
  target : Value
  /-- The object whose method makes the call. -/
  callingInstance : Value
  callingMethod : Method
  targetMethod : Method
  stackTrace : StackTrace
  arguments : List Value
deriving Inhabited

namespace CallContext

/-- The types of the parameters of the method that is called. -/
def parameterTypes (c : CallContext) : List Ty := c.targetMethod.parameters

/-- The type arguments of the method that is called. -/
def typeArguments (c : CallContext) : List Ty := c.targetMethod.typeArguments

end CallContext

/-- The texts of all that is known of an intercepted call. -/
structure ContextSummary where
  call : String
  target : String
  callingInstance : String
  callingMethod : String
  targetMethod : String
  parameterTypes : List String
  typeArguments : List String
  arguments : List String
  stackTrace : String
  depth : Nat
deriving DecidableEq, Repr, Inhabited

/-- An entry of the journal. -/
inductive Record where
  /-- A substitute was run for a call. -/
  | context (label : Option String) (summary : ContextSummary)
  /-- A delegate was run with arguments and type arguments. -/
  | delegate (label : Option String) (arguments typeArguments : List String)
  /-- A native method was run. -/
  | native (method : String) (receiver : Option String) (arguments : List String)
deriving DecidableEq, Repr, Inhabited

/-- What values refer to, and the journal. -/
structure Store where
  objects : Array StoredObject := #[]
  /-- The contexts, each with its text. -/
  contexts : Array (CallContext × String) := #[]
  traces : Array StackTrace := #[]
  journal : Array Record := #[]
deriving Inhabited

/-- A computation on the store; changes made before it fails stay. -/
abbrev Act := ExceptT Error (StateM Store)

namespace Store

/-- The type of a value as it is at run time. -/
def typeOf (s : Store) : Value → Ty
  | .void => .void
  | .null => .object
  | .int32 _ => .int32
  | .int64 _ => .int64
  | .float64 _ => .float64
  | .bool _ => .bool
  | .char _ => .char
  | .string _ => .string
  | .object ref => ((s.objects[ref]?).map StoredObject.type).getD .object
  | .boxed content => s.typeOf content
  | .handle handle => .classType handle.typeName

/-- The text of a handle. -/
def handleText (s : Store) : Handle → String
  | .type type => "Type(" ++ type.text ++ ")"
  | .method method => "Method(" ++ method.text ++ ")"
  | .context id => "Context(" ++ ((s.contexts[id]?).map Prod.snd).getD "" ++ ")"
  | handle => handle.typeName

/-- The text of a value with strings and characters quoted. -/
def debugText (s : Store) : Value → String
  | .void => "void"
  | .null => "null"
  | .int32 value => toString value.toInt
  | .int64 value => toString value.toInt ++ "L"
  | .float64 value => Number.FloatFormat.literal.render value.toBits
  | .bool value => if value then "true" else "false"
  | .char value => quoteChar value
  | .string value => quoteString value
  | .object ref => "<" ++ (s.typeOf (.object ref)).text ++ ">"
  | .boxed content => "box(" ++ s.debugText content ++ ")"
  | .handle handle => s.handleText handle

/-- The text of a value as an argument of a call: strings between plain quotation marks, and wrapped
values like their contents. -/
def displayText (s : Store) : Value → String
  | .string value => "\"" ++ value ++ "\""
  | .boxed content => s.displayText content
  | value => s.debugText value

/-- The text of an intercepted call. -/
def callText (s : Store) (c : CallContext) : String :=
  c.targetMethod.declaringType.text ++ "." ++ c.targetMethod.name ++ "(" ++
    ", ".intercalate (c.arguments.map s.displayText) ++ ")"

/-- The texts of all that is known of an intercepted call. -/
def summary (s : Store) (c : CallContext) : ContextSummary where
  call := s.callText c
  target := s.debugText c.target
  callingInstance := s.debugText c.callingInstance
  callingMethod := c.callingMethod.fullName
  targetMethod := c.targetMethod.text
  parameterTypes := c.parameterTypes.map Ty.text
  typeArguments := c.typeArguments.map Ty.text
  arguments := c.arguments.map s.debugText
  stackTrace := StackTrace.text c.stackTrace
  depth := c.stackTrace.length

end Store

namespace Act

/-- Fails because of a fault. -/
def fault {α : Type} (f : Fault) : Act α := throw (.fault f)

/-- Makes a new object. -/
def newObject (o : StoredObject) : Act Value := do
  let s ← get
  set { s with objects := s.objects.push o }
  return .object s.objects.size

/-- Makes a new object without field values. -/
def newInstance (type : Ty) : Act Value := newObject (.instance type [])

/-- Makes a new array of defaults. -/
def newArray (element : Ty) (length : Nat) : Act Value :=
  newObject (.array element (Array.replicate length (Value.default element)))

/-- The object of the given number. -/
def object (ref : Nat) : Act StoredObject := do
  match (← get).objects[ref]? with
  | some o => return o
  | none => fault .nullReference

/-- Changes an object. -/
def modifyObject (ref : Nat) (change : StoredObject → Except Error StoredObject) : Act Unit := do
  let o ← object ref
  let o ← change o
  modify fun s => { s with objects := s.objects.setIfInBounds ref o }

/-- Makes a handle of a context. -/
def newContext (c : CallContext) : Act Value := do
  let s ← get
  set { s with contexts := s.contexts.push (c, s.callText c) }
  return .handle (.context s.contexts.size)

/-- Makes a handle of a stack trace. -/
def newTrace (trace : StackTrace) : Act Value := do
  let s ← get
  set { s with traces := s.traces.push trace }
  return .handle (.stackTrace s.traces.size)

/-- Adds an entry to the journal. -/
def record (r : Record) : Act Unit :=
  modify fun s => { s with journal := s.journal.push r }

/-- The texts of values with strings and characters quoted. -/
def debugTexts (values : List Value) : Act (List String) := return values.map (← get).debugText

/-- Fails because a value of one type is not one of another. -/
def invalidCast {α : Type} (value : Value) (target : Ty) : Act α := do
  fault (.invalidCast ((← get).typeOf value).text target.text)

end Act

/-- The value as one of the given type: for types held in place the content of the wrapped value,
for others the value itself if it can be held as one. -/
def Value.extractAs (value : Value) (type : Ty) (h : Hierarchy) : Act Value := do
  let s ← get
  if type.isValueType then
    match value with
    | .boxed content =>
      let content := content.adaptTo type
      if s.typeOf content = type then return content else Act.invalidCast content type
    | .null => Act.fault .nullReference
    | value => if s.typeOf value = type then return value else Act.invalidCast value type
  else if value.isNull || type.assignableFrom h (s.typeOf value) then
    return value
  else
    Act.invalidCast value type

end Interpose
