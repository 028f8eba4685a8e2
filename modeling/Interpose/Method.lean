import Interpose.Ty.Instantiation

/-!
# Methods

What is known of a method where it is called: the type that declares it, its name, its parameter and
return types, its flags, and the type arguments of a generic method.

## Main definitions

* `MethodFlags` — the properties a method may have
* `Method` — a method, as it is called
* `Method.instantiate`, `Method.closeDeclaring` — type arguments of the method and of its type
* `Method.key` — what methods are first looked up by
* `MethodSig` — the part of a method that a reference to it stores
-/

namespace Interpose

/-- The properties a method may have, as bits of a word. -/
structure MethodFlags where
  bits : UInt16 := 0
deriving DecidableEq, Repr, Inhabited

namespace MethodFlags

/-- Nothing is marked. -/
def none : MethodFlags := ⟨0⟩
/-- The method has no receiver. -/
def isStatic : MethodFlags := ⟨0x0001⟩
/-- The method can be overridden. -/
def isVirtual : MethodFlags := ⟨0x0002⟩
/-- The method must be overridden. -/
def isAbstract : MethodFlags := ⟨0x0004⟩
/-- The name of the method has a special meaning. -/
def specialName : MethodFlags := ⟨0x0008⟩
/-- The method initializes a new object. -/
def constructor : MethodFlags := ⟨0x0010⟩
/-- The method initializes a type. -/
def typeInitializer : MethodFlags := ⟨0x0020⟩

/-- The flags among the bits of a word; other bits are dropped. -/
def ofBits (bits : UInt16) : MethodFlags := ⟨bits &&& 0x003F⟩

/-- The properties marked in either. -/
def union (a b : MethodFlags) : MethodFlags := ⟨a.bits ||| b.bits⟩

instance : OrOp MethodFlags := ⟨union⟩

/-- Whether all properties of `other` are marked. -/
def contains (flags other : MethodFlags) : Bool := flags.bits &&& other.bits = other.bits

end MethodFlags

/-- The name of constructors. -/
def constructorName : String := ".ctor"

/-- The name of type initializers. -/
def typeInitializerName : String := ".cctor"

/-- A method, as it is called. -/
structure Method where
  declaringType : Ty
  name : String
  parameters : List Ty := []
  returnType : Ty := .void
  /-- The number of type parameters of the method itself. -/
  genericArity : UInt32 := 0
  /-- The type arguments of an instantiated generic method. -/
  typeArguments : List Ty := []
  flags : MethodFlags := .none
deriving DecidableEq, Repr, Inhabited

namespace Method

/-- The constructor of a type with the given parameters. -/
def constructor (declaringType : Ty) (parameters : List Ty) : Method where
  declaringType
  name := constructorName
  parameters
  flags := .constructor ||| .specialName

/-- The method with the given type arguments for its own type parameters. -/
def instantiate (m : Method) (typeArguments : List Ty) : Method :=
  { m with
    parameters := m.parameters.map (Ty.instantiate [] typeArguments)
    returnType := m.returnType.instantiate [] typeArguments
    typeArguments }

/-- The method with the type arguments of its declaring type, if that is an instance of a generic
type, for the type parameters that the declaration uses. -/
def closeDeclaring (m : Method) : Method :=
  match m.declaringType with
  | .inst _ arguments =>
    { m with
      parameters := m.parameters.map (Ty.instantiate arguments [])
      returnType := m.returnType.instantiate arguments [] }
  | _ => m

/-- Whether the method has no receiver. -/
def isStatic (m : Method) : Bool := m.flags.contains .isStatic

/-- Whether the method has a receiver. -/
def hasThis (m : Method) : Bool := !m.isStatic

/-- Whether the method initializes a new object. -/
def isConstructor (m : Method) : Bool :=
  m.flags.contains .constructor || m.name = constructorName

/-- Whether the method initializes a type. -/
def isTypeInitializer (m : Method) : Bool :=
  m.flags.contains .typeInitializer || m.name = typeInitializerName

/-- Whether the method is generic and has not been given type arguments. -/
def isGenericDefinition (m : Method) : Bool := 0 < m.genericArity && m.typeArguments.isEmpty

/-- The type of what a call leaves: for a constructor, the new object. -/
def resultType (m : Method) : Ty := if m.isConstructor then m.declaringType else m.returnType

/-- The number of values a call takes from the evaluation stack. -/
def poppedCount (m : Method) : Nat := m.parameters.length + if m.hasThis then 1 else 0

/-- The declaring type and the name. -/
def fullName (m : Method) : String := m.declaringType.text ++ "::" ++ m.name

/-- What methods are first looked up by: name of the declaring type, name and number of
parameters. -/
def key (m : Method) : String × String × Nat :=
  (m.declaringType.typeName, m.name, m.parameters.length)

/-- The full text of a method. -/
def text (m : Method) : String :=
  let generics :=
    if m.typeArguments ≠ [] then "<" ++ ",".intercalate (m.typeArguments.map Ty.text) ++ ">"
    else if 0 < m.genericArity then "\x60" ++ toString m.genericArity.toNat
    else ""
  m.returnType.text ++ " " ++ m.fullName ++ generics ++ "(" ++
    ", ".intercalate (m.parameters.map Ty.text) ++ ")"

end Method

/-- The part of a method that a reference to it stores. -/
structure MethodSig where
  hasThis : Bool
  parameters : List Ty := []
  returnType : Ty := .void
  genericArity : UInt32 := 0
deriving DecidableEq, Repr, Inhabited

/-- The method of the given parent and name that has this signature.  Constructors and type
initializers are known by their names. -/
def MethodSig.toMethod (sig : MethodSig) (parent : Ty) (name : String) : Method :=
  let receiver := if sig.hasThis then MethodFlags.none else .isStatic
  let special :=
    if name = constructorName then MethodFlags.constructor ||| .specialName
    else if name = typeInitializerName then .typeInitializer ||| .specialName
    else .none
  Method.closeDeclaring
    { declaringType := parent
      name
      parameters := sig.parameters
      returnType := sig.returnType
      genericArity := sig.genericArity
      flags := receiver ||| special }

end Interpose
