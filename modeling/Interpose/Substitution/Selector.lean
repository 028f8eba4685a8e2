import Interpose.Substitution.Rules
import Interpose.Module.Resolve

/-!
# Selecting what to replace

Rules are registered for methods that are looked up by type and name: single methods, groups of
methods, the constructors of a type, and the accessors of a property.

## Main definitions

* `Selector.method`, `Selector.replace`, `Selector.substitute` — one method
* `Selector.restrictTo` — the methods of one type among those a predicate selects
* `Selector.constructors`, `Selector.replaceConstruction` — the creation of objects
* `Selector.property`, `Accessors.replaceGetter`, `Accessors.replaceSetter`,
  `Accessors.replaceAccessors` — properties
-/

namespace Interpose

/-- The methods of the types of a given name. -/
abbrev Catalog := String → List Method

/-- The accessors of a property. -/
structure Accessors where
  name : String
  getter : Option Method
  setter : Option Method

namespace Selector

/-- The method of the given type, name and parameters. -/
def method (catalog : Catalog) (typeName name : String) (parameters : List Ty) :
    Except Error Method :=
  match (catalog typeName).find? fun m => m.name = name && m.parameters = parameters with
  | some found => return found
  | none =>
    throw (.memberNotFound (typeName ++ "::" ++ name ++ "(" ++
      ", ".intercalate (parameters.map Ty.text) ++ ")"))

/-- Registers a delegate that stands in for a method. -/
def replace (target : Method) (delegate : Delegate) : Intercept Unit :=
  Intercept.registerRule (.exact target) delegate.toSubstitute

/-- Whether a method belongs to the type of the target and can stand in for it. -/
def standsFor (target method : Method) : Bool :=
  method.declaringType.typeName = target.declaringType.typeName &&
    method.canReplace .unknown target

/-- Registers a substitute for all methods that can stand in for the target. -/
def substitute (target : Method) (s : Substitute) : Intercept Unit :=
  Intercept.registerRule (.filter (standsFor target)) s

/-- The methods of one type among those a predicate selects. -/
def restrictTo (typeName : String) (selects : Method → Bool) (m : Method) : Bool :=
  selects m && m.declaringType.typeName = typeName

/-- The constructors of a type, of which there has to be one. -/
def constructors (catalog : Catalog) (typeName : String) : Except Error (List Method) :=
  match (catalog typeName).filter (·.isConstructor) with
  | [] => throw (.memberNotFound (typeName ++ "::" ++ constructorName))
  | found => return found

/-- The constructor that a factory can stand in for. -/
def constructorFor? (candidates : List Method) (factory : Delegate) : Option Method :=
  let wanted := { Requirements.ofMethod factory.signature with name := none, returnType := none }
  (wanted.best? .unknown candidates).map (·.candidate)

/-- Registers a factory for the constructor that it can stand in for. -/
def replaceConstruction (typeName : String) (candidates : List Method) (factory : Delegate) :
    Intercept Unit :=
  match constructorFor? candidates factory with
  | some target => replace target factory
  | none => throw (.noCompatibleConstructor typeName)

/-- The accessors of a property, of which there has to be one. -/
def property (catalog : Catalog) (typeName name : String) : Except Error Accessors :=
  let methods := catalog typeName
  let getter := methods.find? fun m => m.name = "get_" ++ name && m.parameters.isEmpty
  let setter := methods.find? fun m => m.name = "set_" ++ name && m.parameters.length = 1
  if getter.isNone && setter.isNone then throw (.memberNotFound (typeName ++ "::" ++ name))
  else return { name, getter, setter }

end Selector

namespace Accessors

/-- Registers a delegate that stands in for the getter. -/
def replaceGetter (p : Accessors) (delegate : Delegate) : Intercept Unit :=
  match p.getter with
  | some target => Selector.replace target delegate
  | none => throw (.missingAccessor p.name .getter)

/-- Registers a delegate that stands in for the setter. -/
def replaceSetter (p : Accessors) (delegate : Delegate) : Intercept Unit :=
  match p.setter with
  | some target => Selector.replace target delegate
  | none => throw (.missingAccessor p.name .setter)

/-- Registers delegates that stand in for the accessors, the getter first; if the setter fails, the
getter stays. -/
def replaceAccessors (p : Accessors) (getter setter : Option Delegate) : Intercept Unit := do
  getter.forM p.replaceGetter
  setter.forM p.replaceSetter

end Accessors

end Interpose
