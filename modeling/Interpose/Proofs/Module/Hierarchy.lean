import Interpose.Module.Resolve
import Interpose.Proofs.Ty.Transitivity

/-!
# The hierarchy of a module

The types of a module are looked up by name, and types without definition have names as well.  As long
as no definition has taken one of these names, the hierarchy that a module describes is about the
types it defines.

## Main definitions

* `Module.NamesApart` — no definition has the name of a type without definition

## Main results

* `fewAbove_of_named` — few types are above each type if few types are named as such
* `hierarchy_leavesUndefined` — types without definition take no part in the hierarchy
-/

namespace Interpose

namespace Module

variable {m : Module} {type : Ty}

/-- No definition has the name of a built-in type, of an array or of a reference. -/
def NamesApart (m : Module) : Prop :=
  ∀ d ∈ m.types, Builtin.ofName? d.name = none ∧
    ¬ "[]".toList <:+ d.name.toList ∧ ¬ "&".toList <:+ d.name.toList

instance (m : Module) : Decidable m.NamesApart := inferInstanceAs (Decidable (∀ d ∈ m.types, _))

/-- A type has no interfaces if no definition has its name. -/
theorem interfacesOf_eq_nil (unnamed : ∀ d ∈ m.types, d.name ≠ type.typeName) :
    m.interfacesOf type = [] := by
  have none : m.typeNamed? type.typeName = none := by
    apply Array.find?_eq_none.mpr
    simpa using unnamed
  unfold interfacesOf
  rw [none]
  rfl

/-- There are few types above each type of a module if the definitions name few types, and the base types
do not depend on type arguments. -/
theorem fewAbove_of_named (types : List Ty) (short : types.length ≤ Hierarchy.ancestorLimit)
    (root : Ty.object ∈ types)
    (bases : ∀ d ∈ m.types, ∀ base ∈ d.base, base.isOpen = false ∧ base ∈ types)
    (interfaces : ∀ d ∈ m.types, ∀ interface ∈ d.interfaces, interface ∈ types) (type : Ty) :
    m.hierarchy.FewAbove type := by
  apply Hierarchy.fewAbove_of_parents short
  intro type parent step
  -- A base type without type parameters is the same for all instances of the type.
  have ofBase (base : Ty) (named : m.baseOf type = some base) : base ∈ types := by
    obtain ⟨⟨name, arguments⟩, -, rest⟩ := Option.bind_eq_some_iff.mp named
    obtain ⟨d, found, rest⟩ := Option.bind_eq_some_iff.mp rest
    obtain ⟨base', has, same⟩ := Option.bind_eq_some_iff.mp rest
    obtain ⟨closed, member⟩ := bases d (Array.mem_of_find?_eq_some found) base' has
    obtain rfl : base'.instantiate arguments [] = base := Option.some.inj same
    rwa [Ty.instantiate_of_not_isOpen _ _ _ closed]
  have ofInterfaces : ∀ interface ∈ m.interfacesOf type, interface ∈ types := by
    unfold interfacesOf
    cases found : m.typeNamed? type.typeName with
    | none => simp
    | some d => exact interfaces d (Array.mem_of_find?_eq_some found)
  obtain above | implemented := List.mem_append.mp step
  · have base := Option.mem_toList.mp above
    split at base
    · exact Option.some.inj base ▸ root
    · exact Option.some.inj base ▸ root
    · exact ofBase parent base
  · exact ofInterfaces parent implemented
namespace NamesApart

variable (apart : m.NamesApart)

include apart

theorem ne_builtin {d : TypeDef} (member : d ∈ m.types) (type : Builtin) : d.name ≠ type.name := by
  intro named
  have none := List.find?_eq_none.mp (apart d member).1 type (by cases type <;> decide)
  exact none (by simp [named])

theorem interfacesOf_builtin (type : Builtin) : m.interfacesOf (.builtin type) = [] :=
  interfacesOf_eq_nil fun _ member => apart.ne_builtin member type

theorem interfacesOf_array (element : Ty) : m.interfacesOf (.array element) = [] := by
  apply interfacesOf_eq_nil
  intro d member named
  apply (apart d member).2.1
  have text : d.name = element.text ++ "[]" := named
  exact ⟨element.text.toList, by rw [text, String.toList_append]⟩

theorem interfacesOf_byRef (target : Ty) : m.interfacesOf (.byRef target) = [] := by
  apply interfacesOf_eq_nil
  intro d member named
  apply (apart d member).2.2
  have text : d.name = target.text ++ "&" := named
  exact ⟨target.text.toList, by rw [text, String.toList_append]⟩

/-- Types without definition take no part in the hierarchy of a module. -/
theorem hierarchy_leavesUndefined : m.hierarchy.LeavesUndefined where
  void := apart.interfacesOf_builtin .void
  object := apart.interfacesOf_builtin .object
  byRef := apart.interfacesOf_byRef
  array element := congrArg (Ty.object :: ·) (apart.interfacesOf_array element)

end NamesApart

end Module

end Interpose
