import Interpose.Method

/-!
# Predicates on methods

Which methods to select, described by simple properties and their combinations.

## Main definitions

* `MethodPredicate` — the descriptions
* `MethodPredicate.selects` — the methods that a predicate selects
-/

namespace Interpose

/-- A predicate on methods. -/
inductive MethodPredicate where
  /-- All methods, or none. -/
  | constant (answer : Bool)
  | named (name : String)
  /-- The methods of the type of the given name. -/
  | declaredBy (typeName : String)
  | arity (count : Nat)
  | isStatic (expected : Bool)
  | isConstructor (expected : Bool)
  | not (filter : MethodPredicate)
  | all (filters : List MethodPredicate)
deriving Repr, Inhabited

namespace MethodPredicate

mutual

/-- Whether a filter selects a method. -/
def selects : MethodPredicate → Method → Bool
  | constant answer, _ => answer
  | named name, m => m.name = name
  | declaredBy typeName, m => m.declaringType.typeName = typeName
  | arity count, m => m.parameters.length = count
  | isStatic expected, m => m.isStatic = expected
  | isConstructor expected, m => m.isConstructor = expected
  | .not filter, m => !filter.selects m
  | all filters, m => selectedByAll filters m

/-- Whether all of the filters select a method. -/
def selectedByAll : List MethodPredicate → Method → Bool
  | [], _ => true
  | filter :: rest, m => filter.selects m && selectedByAll rest m

end

end MethodPredicate

end Interpose
