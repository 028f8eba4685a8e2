import Interpose.Body
import Interpose.Method
import Interpose.Error

/-!
# Modules

A module is a set of tables: type, field and method definitions, references to methods of other
modules, instantiations of generic methods, composed types and string literals.  Rows are named by
tokens.  It also remembers which methods have been woven.

## Main definitions

* `TypeFlags`, `TypeDef`, `FieldDef`, `MethodDef`, `MemberRef`, `MethodSpec` — the rows
* `Module` — the tables
* `Module.row` — the row a token names in a table
* `Module.typeDefAt`, `Module.methodDefAt`, … — the rows of the several tables
-/

namespace Interpose

/-- The properties a type may have, as bits of a word. -/
structure TypeFlags where
  bits : UInt32 := 0
deriving DecidableEq, Repr, Inhabited

namespace TypeFlags

/-- Nothing is marked. -/
def none : TypeFlags := ⟨0⟩
/-- The type is an interface. -/
def isInterface : TypeFlags := ⟨0x0020⟩
/-- The type has no objects of its own. -/
def isAbstract : TypeFlags := ⟨0x0080⟩
/-- The type cannot be extended. -/
def isSealed : TypeFlags := ⟨0x0100⟩
/-- Values of the type are held in place. -/
def isValueType : TypeFlags := ⟨0x1000⟩

/-- The flags among the bits of a word; other bits are dropped. -/
def ofBits (bits : UInt32) : TypeFlags := ⟨bits &&& 0x11A0⟩

/-- The properties marked in either. -/
def union (a b : TypeFlags) : TypeFlags := ⟨a.bits ||| b.bits⟩

instance : OrOp TypeFlags := ⟨union⟩

/-- Whether all properties of `other` are marked. -/
def contains (flags other : TypeFlags) : Bool := flags.bits &&& other.bits = other.bits

end TypeFlags

/-- The definition of a type. -/
structure TypeDef where
  name : String
  base : Option Ty
  interfaces : List Ty := []
  flags : TypeFlags := .none
  genericArity : UInt32 := 0
deriving DecidableEq, Repr, Inhabited

namespace TypeDef

/-- A class directly below the root of the class hierarchy. -/
def ofClass (name : String) : TypeDef := { name, base := some .object }

/-- An interface. -/
def ofInterface (name : String) : TypeDef :=
  { name, base := none, flags := .isInterface ||| .isAbstract }

/-- Whether the definition is that of an interface. -/
def isInterface (d : TypeDef) : Bool := d.flags.contains .isInterface

/-- The type that is defined. -/
def type (d : TypeDef) : Ty :=
  if d.flags.contains .isValueType then .valueType d.name else .ofName d.name

end TypeDef

/-- The definition of a field. -/
structure FieldDef where
  owner : Token
  name : String
  type : Ty
  isStatic : Bool := false
deriving DecidableEq, Repr, Inhabited

/-- The definition of a method. -/
structure MethodDef where
  owner : Token
  name : String
  flags : MethodFlags := .none
  parameters : List Ty := []
  returnType : Ty := .void
  genericArity : UInt32 := 0
  body : Option Body := none
deriving DecidableEq, Repr, Inhabited

namespace MethodDef

/-- Whether the method has a receiver. -/
def hasThis (d : MethodDef) : Bool := !d.flags.contains .isStatic

/-- The number of arguments, counting the receiver. -/
def argumentCount (d : MethodDef) : Nat := d.parameters.length + if d.hasThis then 1 else 0

end MethodDef

/-- A reference to a method by its declaring type, name and signature. -/
structure MemberRef where
  parent : Ty
  name : String
  signature : MethodSig
deriving DecidableEq, Repr, Inhabited

/-- The method referred to. -/
def MemberRef.method (m : MemberRef) : Method := m.signature.toMethod m.parent m.name

/-- A generic method with type arguments. -/
structure MethodSpec where
  method : Token
  instantiation : List Ty
deriving DecidableEq, Repr, Inhabited

/-- A module. -/
structure Module where
  name : String
  /-- The sixteen bytes that identify this version of the module. -/
  versionId : List UInt8 := List.replicate 16 0
  types : Array TypeDef := #[]
  fields : Array FieldDef := #[]
  methods : Array MethodDef := #[]
  memberRefs : Array MemberRef := #[]
  methodSpecs : Array MethodSpec := #[]
  typeSpecs : Array Ty := #[]
  userStrings : Array String := #[]
  /-- The methods that have been woven, in increasing order and each once. -/
  finished : List Token := []
deriving DecidableEq, Repr, Inhabited

namespace Module

/-- The row that a token names in the given table. -/
def row {α : Type} (table : Array α) (id : Table) (token : Token) : Except Error α :=
  if !token.isIn id then throw (.malformed (.wrongTable token id))
  else
    match token.index?.bind (table[·]?) with
    | some row => return row
    | none => throw (.malformed (.missingRow token id))

/-- The definition of a type. -/
def typeDefAt (m : Module) (token : Token) : Except Error TypeDef := row m.types .typeDef token

/-- The definition of a field. -/
def fieldDefAt (m : Module) (token : Token) : Except Error FieldDef := row m.fields .field token

/-- The definition of a method. -/
def methodDefAt (m : Module) (token : Token) : Except Error MethodDef :=
  row m.methods .methodDef token

/-- A reference to a method. -/
def memberRefAt (m : Module) (token : Token) : Except Error MemberRef :=
  row m.memberRefs .memberRef token

/-- An instantiation of a generic method. -/
def methodSpecAt (m : Module) (token : Token) : Except Error MethodSpec :=
  row m.methodSpecs .methodSpec token

/-- A string literal. -/
def stringAt (m : Module) (token : Token) : Except Error String :=
  row m.userStrings .userString token

/-- The token of the row at a position. -/
def tokenAt (id : Table) (index : Nat) : Token := .ofRow id (index + 1)

/-- The rows of a table with their tokens. -/
def withTokens {α : Type} (id : Table) (table : Array α) : List (Token × α) :=
  table.toList.zipIdx.map fun (row, index) => (tokenAt id index, row)

/-- The method definitions with their tokens. -/
def methodsWithTokens (m : Module) : List (Token × MethodDef) := withTokens .methodDef m.methods

/-- The type a token stands for. -/
def typeAt (m : Module) (token : Token) : Except Error Ty :=
  match token.table? with
  | some .typeDef => return (← m.typeDefAt token).type
  | some .typeSpec => row m.typeSpecs .typeSpec token
  | _ => throw (.malformed (.notAType token))

/-- The first type of the given name. -/
def typeToken? (m : Module) (name : String) : Option Token :=
  (m.types.findIdx? (·.name = name)).map (tokenAt .typeDef)

/-- The first method of the given name that the given type defines. -/
def methodToken? (m : Module) (typeName name : String) : Option Token := do
  let owner ← m.typeToken? typeName
  let index ← m.methods.findIdx? fun d => d.owner = owner && d.name = name
  return tokenAt .methodDef index

/-- The first field of the given name that the given type defines. -/
def fieldToken? (m : Module) (owner : Token) (name : String) : Option Token :=
  (m.fields.findIdx? fun d => d.owner = owner && d.name = name).map (tokenAt .field)

/-- Whether a method has been woven. -/
def isFinished (m : Module) (token : Token) : Bool := token ∈ m.finished

end Module

end Interpose
