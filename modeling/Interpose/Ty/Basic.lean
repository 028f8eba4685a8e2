import Interpose.Text.Hex

/-!
# Types

The types that signatures mention: built-in types, named classes and value types, instances of
generic types, type parameters, references to storage and arrays.

## Main definitions

* `Builtin` — the types that have no definition in any module
* `Ty` — types
* `Ty.text`, `Ty.typeName` — the full text of a type, and the name of its definition
* `Ty.isValueType`, `Ty.isGenericParameter`, `Ty.needsWrapping` — how values of a type are held

## Main results

* `Ty.same_iff` — the structural comparison decides equality
-/

namespace Interpose

/-- The types that have no definition in any module. -/
inductive Builtin where
  | void
  | bool
  | char
  | int32
  | int64
  | float64
  | string
  | object
deriving DecidableEq, Repr, Inhabited

namespace Builtin

/-- Every built-in type. -/
def all : List Builtin := [.void, .bool, .char, .int32, .int64, .float64, .string, .object]

/-- The full name of a built-in type. -/
def name : Builtin → String
  | void => "System.Void"
  | bool => "System.Boolean"
  | char => "System.Char"
  | int32 => "System.Int32"
  | int64 => "System.Int64"
  | float64 => "System.Double"
  | string => "System.String"
  | object => "System.Object"

/-- The built-in type of the given name. -/
def ofName? (name : String) : Option Builtin := all.find? (·.name = name)

/-- Whether values of the type are held in place. -/
def isValueType : Builtin → Bool
  | bool | char | int32 | int64 | float64 => true
  | void | string | object => false

end Builtin

/-- Types, as signatures mention them. -/
inductive Ty where
  /-- A built-in type. -/
  | builtin (type : Builtin)
  /-- A class or an interface, by its full name. -/
  | classType (name : String)
  /-- A value type, by its full name. -/
  | valueType (name : String)
  /-- An instance of a generic type. -/
  | inst (generic : Ty) (arguments : List Ty)
  /-- A type parameter of the declaring type. -/
  | typeParameter (index : UInt32)
  /-- A type parameter of the method. -/
  | methodParameter (index : UInt32)
  /-- A reference to a storage location. -/
  | byRef (target : Ty)
  /-- An array with one dimension and lower bound zero. -/
  | array (element : Ty)
deriving Repr, Inhabited

namespace Ty

/-- No value. -/
@[match_pattern] abbrev void : Ty := builtin .void
/-- Truth values. -/
@[match_pattern] abbrev bool : Ty := builtin .bool
/-- Characters. -/
@[match_pattern] abbrev char : Ty := builtin .char
/-- Integers of 32 bits. -/
@[match_pattern] abbrev int32 : Ty := builtin .int32
/-- Integers of 64 bits. -/
@[match_pattern] abbrev int64 : Ty := builtin .int64
/-- Double-precision numbers. -/
@[match_pattern] abbrev float64 : Ty := builtin .float64
/-- Strings. -/
@[match_pattern] abbrev string : Ty := builtin .string
/-- The root of the class hierarchy. -/
@[match_pattern] abbrev object : Ty := builtin .object

mutual

/-- Whether two types are the same. -/
def same : Ty → Ty → Bool
  | builtin a, builtin b => a = b
  | classType a, classType b => a = b
  | valueType a, valueType b => a = b
  | inst a as, inst b bs => same a b && sameAll as bs
  | typeParameter a, typeParameter b => a = b
  | methodParameter a, methodParameter b => a = b
  | byRef a, byRef b => same a b
  | array a, array b => same a b
  | _, _ => false

/-- Whether two lists of types are the same. -/
def sameAll : List Ty → List Ty → Bool
  | [], [] => true
  | a :: as, b :: bs => same a b && sameAll as bs
  | _, _ => false

end

mutual

theorem same_iff : (a b : Ty) → (same a b = true ↔ a = b)
  | builtin a, b => by cases b <;> simp [same]
  | classType a, b => by cases b <;> simp [same]
  | valueType a, b => by cases b <;> simp [same]
  | typeParameter a, b => by cases b <;> simp [same]
  | methodParameter a, b => by cases b <;> simp [same]
  | byRef a, b => by cases b <;> simp [same, same_iff a]
  | array a, b => by cases b <;> simp [same, same_iff a]
  | inst a as, b => by cases b <;> simp [same, same_iff a, sameAll_iff as]

theorem sameAll_iff : (as bs : List Ty) → (sameAll as bs = true ↔ as = bs)
  | [], bs => by cases bs <;> simp [sameAll]
  | a :: as, bs => by cases bs <;> simp [sameAll, same_iff a, sameAll_iff as]

end

instance : DecidableEq Ty := fun a b => decidable_of_iff _ (same_iff a b)

/-- The type of the given full name, a class unless the name is that of a built-in type. -/
def ofName (name : String) : Ty :=
  match Builtin.ofName? name with
  | some type => builtin type
  | none => classType name

mutual

/-- The full text of a type. -/
def text : Ty → String
  | builtin type => type.name
  | classType name => name
  | valueType name => name
  | inst generic arguments => generic.text ++ "<" ++ textList arguments ++ ">"
  | typeParameter index => "!" ++ toString index.toNat
  | methodParameter index => "!!" ++ toString index.toNat
  | byRef target => target.text ++ "&"
  | array element => element.text ++ "[]"

/-- The texts of types, separated by commas. -/
def textList : List Ty → String
  | [] => ""
  | [type] => type.text
  | type :: next :: rest => type.text ++ "," ++ textList (next :: rest)

end

/-- The name of the definition of a type; types without definition go by their full text. -/
def typeName : Ty → String
  | inst generic _ => generic.typeName
  | type => type.text

/-- Whether values of the type are held in place. -/
def isValueType : Ty → Bool
  | builtin type => type.isValueType
  | valueType _ => true
  | inst generic _ => generic.isValueType
  | _ => false

/-- Whether the type is a type parameter. -/
def isGenericParameter : Ty → Bool
  | typeParameter _ | methodParameter _ => true
  | _ => false

/-- Whether the type is a reference to storage. -/
def isByRef : Ty → Bool
  | byRef _ => true
  | _ => false

/-- Whether a value of the type has to be boxed to become an object. -/
def needsWrapping (type : Ty) : Bool := type.isValueType || type.isGenericParameter

/-- The type arguments of an instance of a generic type; other types have none. -/
def arguments : Ty → List Ty
  | inst _ arguments => arguments
  | _ => []

end Ty

end Interpose
