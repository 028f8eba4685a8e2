import Interpose.Ty.Assignability

/-!
# Assignability of composed types

When different types of one shape can hold each other: references, arrays and instances of generic
types.

## Main results

* `assignableFrom_self` — every type can hold itself
* `assignableFrom_byRef`, `assignableFrom_array`, `assignableFrom_inst` — types of one shape
* `assignableFrom_methodParameter` — every type of values can hold a type parameter
-/

namespace Interpose.Ty

variable {h : Hierarchy}

theorem assignableFrom_self (h : Hierarchy) (type : Ty) : type.assignableFrom h type = true := by
  cases type with
  | builtin b => cases b <;> exact if_pos rfl
  | _ => exact if_pos rfl

/-- References to different types can hold each other only if one of these is a type parameter. -/
theorem assignableFrom_byRef {target source : Ty} (differs : target ≠ source) :
    (byRef target).assignableFrom h (byRef source) =
      (target.isGenericParameter || source.isGenericParameter) := by
  have differ : byRef target ≠ byRef source := fun same => differs (byRef.inj same)
  calc (byRef target).assignableFrom h (byRef source)
      = (target.isGenericParameter || source.isGenericParameter || decide (target = source)) :=
        if_neg differ
    _ = (target.isGenericParameter || source.isGenericParameter) := by
        rw [decide_eq_false differs, Bool.or_false]

/-- Arrays of different types can hold each other only if their elements are objects. -/
theorem assignableFrom_array {target source : Ty} (differs : target ≠ source) :
    (array target).assignableFrom h (array source) =
      (!target.isValueType && !source.isValueType && target.assignableFrom h source) := by
  have differ : array target ≠ array source := fun same => differs (array.inj same)
  exact if_neg differ

/-- Different instances of generic types can hold each other only if the hierarchy says so, and never
if they are held in place. -/
theorem assignableFrom_inst {target source : Ty} {targets sources : List Ty}
    (differ : inst target targets ≠ inst source sources) :
    (inst target targets).assignableFrom h (inst source sources) =
      (!target.isValueType && !source.isValueType &&
        decide (inst target targets ∈ h.ancestors (inst source sources))) := by
  have among : (h.ancestors (inst source sources)).any (· = inst target targets) =
      decide (inst target targets ∈ h.ancestors (inst source sources)) := by
    rw [Bool.eq_iff_iff]
    simp
  have held (generic : Ty) (types : List Ty) :
      (inst generic types).isValueType = generic.isValueType := by
    rw [isValueType]
  calc (inst target targets).assignableFrom h (inst source sources)
      = if (inst source sources).isGenericParameter then true
        else if (inst target targets).isValueType || (inst source sources).isValueType then false
        else (h.ancestors (inst source sources)).any (· = inst target targets) := if_neg differ
    _ = _ := by
        simp only [isGenericParameter, held, among]
        cases target.isValueType <;> cases source.isValueType <;> simp

/-- Every type of values can hold what a type parameter stands for. -/
theorem assignableFrom_methodParameter {type : Ty} (closed : type.isOpen = false)
    (valueLike : type.isValueLike = true) (index : UInt32) :
    type.assignableFrom h (methodParameter index) = true := by
  cases type with
  | builtin b =>
    cases b with
    | void => cases valueLike
    | _ => rfl
  | byRef => cases valueLike
  | methodParameter => cases closed
  | _ => rfl

end Interpose.Ty
