import Interpose.Method
import Interpose.Text.Quoted
import Interpose.Number.Float

/-!
# Values

The values that running code handles.  Objects, contexts, call maps and the like are held by
reference; what they contain is kept elsewhere.

## Main definitions

* `SubstituteId` — the identity of a substitute
* `Handle` — references to what the runtime itself works with
* `Value` — values
* `Value.same` — equality as running code sees it
* `Value.adaptTo`, `Value.wrapAs`, `Value.unwrapped` — the changes of form between types
-/

namespace Interpose

/-- The identity of a substitute. -/
inductive SubstituteId where
  /-- A substitute that was registered, by its number. -/
  | registered (number : Nat)
  /-- A substitute made for one entry of a call map. -/
  | ofEntry (map entry : Nat)
deriving DecidableEq, Repr, Inhabited

/-- References to what the runtime itself works with. -/
inductive Handle where
  | type (type : Ty)
  | method (method : Method)
  | provider (id : Nat)
  | callMap (id : Nat)
  /-- A substitute, by the place where it is found and by its identity. -/
  | substitute (map entry : Nat) (identity : SubstituteId)
  | context (id : Nat)
  | stackTrace (id : Nat)
deriving DecidableEq, Repr, Inhabited

namespace Handle

/-- The name of the type of a handle. -/
def typeName : Handle → String
  | type _ => "System.Type"
  | method _ => "System.Reflection.MethodBase"
  | provider _ => "Dotshim.Runtime.ICallProvider"
  | callMap _ => "Dotshim.Runtime.CallMap"
  | substitute .. => "Dotshim.Runtime.ISubstitute"
  | context _ => "Dotshim.Runtime.InvocationContext"
  | stackTrace _ => "System.Diagnostics.StackTrace"

/-- Whether two handles refer to the same thing. -/
def same : Handle → Handle → Bool
  | substitute _ _ a, substitute _ _ b => a = b
  | a, b => a = b

end Handle

/-- The values that running code handles. -/
inductive Value where
  /-- What a call without result leaves. -/
  | void
  | null
  | int32 (value : Int32)
  | int64 (value : Int64)
  | float64 (value : Float)
  | bool (value : Bool)
  | char (value : Char)
  | string (value : String)
  /-- An object, by its number. -/
  | object (ref : Nat)
  /-- A value wrapped as an object. -/
  | boxed (content : Value)
  | handle (handle : Handle)
deriving DecidableEq, Inhabited

namespace Value

/-- The value that storage of the given type starts out with. -/
def default : Ty → Value
  | .bool => bool false
  | .char => char (Char.ofNat 0)
  | .int32 => int32 0
  | .int64 => int64 0
  | .float64 => float64 0
  | _ => null

/-- Whether the value is null. -/
def isNull : Value → Bool
  | null => true
  | _ => false

/-- An integer of either width, a truth value or a character as a 64-bit integer. -/
def asInt64? : Value → Option Int64
  | int32 value => some value.toInt64
  | int64 value => some value
  | bool value => some (if value then 1 else 0)
  | char value => some (Int64.ofNat value.toNat)
  | _ => none

/-- A short integer, a truth value or a character as a 32-bit integer. -/
def asInt32? : Value → Option Int32
  | int32 value => some value
  | bool value => some (if value then 1 else 0)
  | char value => some (Int32.ofNat value.toNat)
  | _ => none

/-- A number of any kind as a double. -/
def asFloat? : Value → Option Float
  | float64 value => some value
  | value => value.asInt64?.map Int64.toFloat

/-- Whether a branch on the value is taken. -/
def takesBranch : Value → Bool
  | void | null => false
  | float64 value => value != 0
  | value =>
    match value.asInt64? with
    | some n => n ≠ 0
    | none => true

/-- The character with the given code point. -/
def charOfInt? (n : Int32) : Option Char :=
  if 0 ≤ n ∧ Nat.isValidChar n.toInt.toNat then some (Char.ofNat n.toInt.toNat) else none

/-- A short integer as a truth value, a character or a long integer, where the type asks for one. -/
def adaptTo (value : Value) (type : Ty) : Value :=
  match type, value with
  | .bool, int32 n => bool (n ≠ 0)
  | .char, int32 n =>
    match charOfInt? n with
    | some c => char c
    | none => value
  | .int64, int32 n => int64 n.toInt64
  | _, _ => value

/-- Whether the value is held in place. -/
def isPrimitive : Value → Bool
  | int32 _ | int64 _ | float64 _ | bool _ | char _ => true
  | _ => false

/-- A value held in place, wrapped as one of the given type; other values stay. -/
def wrapAs (value : Value) (type : Ty) : Value :=
  if value.isPrimitive then boxed (value.adaptTo type) else value

/-- A value held in place, wrapped as it is; other values stay. -/
def toObject (value : Value) : Value := if value.isPrimitive then boxed value else value

/-- The content of a wrapped value; other values stay. -/
def unwrapped : Value → Value
  | boxed content => content
  | value => value

/-- Whether two values are equal to running code: numbers by their value, whatever their width, and
objects by their identity. -/
def same : Value → Value → Bool
  | void, void => true
  | null, null => true
  | float64 a, float64 b => a == b
  | string a, string b => a = b
  | object a, object b => a = b
  | boxed a, boxed b => same a b
  | handle a, handle b => a.same b
  | a, b =>
    -- Integers, truth values and characters are compared as integers.
    match a.asInt64?, b.asInt64? with
    | some a, some b => a = b
    | _, _ => false

end Value

end Interpose
