import Interpose.Module.Basic
import Interpose.Ty.Assignability

/-!
# Resolving references

What the tokens of a module refer to, and the hierarchy that its type definitions describe.

## Main definitions

* `Module.methodAt` — the method a definition, reference or instantiation stands for
* `Module.hierarchy` — base types and interfaces
* `Module.knownMethods` — all methods of a type that a module knows of
-/

namespace Interpose.Module

/-- The method that a definition stands for. -/
def definedMethod (m : Module) (token : Token) : Except Error Method := do
  let d ← m.methodDefAt token
  let owner ← m.typeDefAt d.owner
  return {
    declaringType := owner.type
    name := d.name
    parameters := d.parameters
    returnType := d.returnType
    genericArity := d.genericArity
    flags := d.flags }

/-- The method that a definition or a reference stands for. -/
def genericMethodAt (m : Module) (token : Token) : Except Error Method :=
  match token.table? with
  | some .methodDef => m.definedMethod token
  | some .memberRef => return (← m.memberRefAt token).method
  | _ => throw (.malformed (.notAMethod token))

/-- The method that a token stands for.  An instantiation has as many type arguments as the method
it instantiates has type parameters. -/
def methodAt (m : Module) (token : Token) : Except Error Method :=
  match token.table? with
  | some .methodSpec => do
    let spec ← m.methodSpecAt token
    if spec.method.isIn .methodSpec then throw (.malformed (.nestedInstantiation token))
    let generic ← m.genericMethodAt spec.method
    if generic.genericArity.toNat ≠ spec.instantiation.length then
      throw (.malformed (.instantiationArity token spec.instantiation.length generic.text))
    return generic.instantiate spec.instantiation
  | _ => m.genericMethodAt token

/-- The name and the type arguments of a type that may have a definition. -/
def definition? : Ty → Option (String × List Ty)
  | .classType name | .valueType name => some (name, [])
  | .inst (.classType name) arguments | .inst (.valueType name) arguments => some (name, arguments)
  | _ => none

/-- The first definition of the given name. -/
def typeNamed? (m : Module) (name : String) : Option TypeDef := m.types.find? (·.name = name)

/-- The base type that the definition of a type names, with the arguments of the type. -/
def baseOf (m : Module) (type : Ty) : Option Ty := do
  let (name, arguments) ← definition? type
  let base ← (← m.typeNamed? name).base
  return base.instantiate arguments []

/-- The interfaces that the definition of a type names. -/
def interfacesOf (m : Module) (type : Ty) : List Ty :=
  ((m.typeNamed? type.typeName).map (·.interfaces)).getD []

/-- The hierarchy that the type definitions describe. -/
def hierarchy (m : Module) : Hierarchy := ⟨m.baseOf, m.interfacesOf⟩

/-- The methods that the first type of the given name defines. -/
def ownMethods (m : Module) (typeName : String) : List Method :=
  match m.typeToken? typeName with
  | some owner =>
    m.methodsWithTokens.filterMap fun (token, d) =>
      if d.owner = owner then (m.definedMethod token).toOption else none
  | none => []

/-- The methods that the types of the given name define, and then those that references mention and
that are none of the ones before. -/
def knownMethods (m : Module) (typeName : String) : List Method :=
  m.memberRefs.toList.foldl
    (fun found reference =>
      if reference.parent.typeName = typeName then
        let method := reference.method
        if method ∈ found then found else found ++ [method]
      else found)
    (m.ownMethods typeName)

end Interpose.Module
