import Interpose.Bytes.Buffer
import Interpose.Bytes.Cursor
import Interpose.Ty.Basic

/-!
# Types as bytes

A type starts with an element byte that says which kind of type it is; names, indices and the types
it is made of follow.  Any type can be written whose names and indices can, but only types nested at
most `Ty.nestingLimit` deep are read back.

## Main definitions

* `Ty.encode` — the written form of a type
* `Ty.decode` — reads a type
-/

namespace Interpose

/-- The element byte of a built-in type. -/
def Builtin.element : Builtin → UInt8
  | void => 0x01
  | bool => 0x02
  | char => 0x03
  | int32 => 0x08
  | int64 => 0x0A
  | float64 => 0x0D
  | string => 0x0E
  | object => 0x1C

/-- The built-in type with the given element byte. -/
def Builtin.ofElement? (element : UInt8) : Option Builtin :=
  Builtin.all.find? (·.element = element)

namespace Ty

/-- The element byte of a reference to storage. -/
def byRefElement : UInt8 := 0x10
/-- The element byte of a named value type. -/
def valueTypeElement : UInt8 := 0x11
/-- The element byte of a named class. -/
def classTypeElement : UInt8 := 0x12
/-- The element byte of a type parameter of the declaring type. -/
def typeParameterElement : UInt8 := 0x13
/-- The element byte of an instance of a generic type. -/
def instElement : UInt8 := 0x15
/-- The element byte of an array. -/
def arrayElement : UInt8 := 0x1D
/-- The element byte of a type parameter of the method. -/
def methodParameterElement : UInt8 := 0x1E

/-- The greatest depth at which a part of a type is read, the whole type being at depth zero. -/
def nestingLimit : Nat := 32

mutual

/-- The written form of a type. -/
def encode : Ty → Write
  | builtin type => return [type.element]
  | classType name => return classTypeElement :: (← Write.utf8 name)
  | valueType name => return valueTypeElement :: (← Write.utf8 name)
  | inst generic arguments => do
    let base ← generic.encode
    let count ← Write.length arguments.length
    let rest ← encodeAll arguments
    return instElement :: base ++ count ++ rest
  | typeParameter index => return typeParameterElement :: (← Write.compressedNat index.toNat)
  | methodParameter index => return methodParameterElement :: (← Write.compressedNat index.toNat)
  | byRef target => return byRefElement :: (← target.encode)
  | array element => return arrayElement :: (← element.encode)

/-- The written forms of types, one after the other. -/
def encodeAll : List Ty → Write
  | [] => return []
  | type :: rest => do
    let first ← type.encode
    let others ← encodeAll rest
    return first ++ others

end

theorem encodeAll_eq_concat (list : List Ty) : encodeAll list = Write.concat encode list := by
  induction list with
  | nil => rfl
  | cons type rest ih => simp [encodeAll, Write.concat, ih]

/-- The written form of a list of types, with their number in front. -/
def encodeList (types : List Ty) : Write := Write.list encode types

/-- Reads a type that may have at most `levels` levels. -/
def decodeLevels : (levels : Nat) → Read Ty
  | 0 => Read.malformed (.typeNesting nestingLimit)
  | levels + 1 => do
    let offset ← Read.position
    let element ← Read.byte
    if let some type := Builtin.ofElement? element then
      return builtin type
    else if element = classTypeElement then
      return classType (← Read.utf8)
    else if element = valueTypeElement then
      return valueType (← Read.utf8)
    else if element = instElement then
      let generic ← decodeLevels levels
      return inst generic (← Read.list (decodeLevels levels))
    else if element = typeParameterElement then
      return typeParameter (UInt32.ofNat (← Read.compressedNat))
    else if element = methodParameterElement then
      return methodParameter (UInt32.ofNat (← Read.compressedNat))
    else if element = byRefElement then
      return byRef (← decodeLevels levels)
    else if element = arrayElement then
      return array (← decodeLevels levels)
    else
      Read.malformed (.unknownElement element offset)

/-- Reads a type. -/
def decode : Read Ty := decodeLevels (nestingLimit + 1)

/-- Reads a list of types with their number in front. -/
def decodeList : Read (List Ty) := Read.list decode

end Ty

end Interpose
