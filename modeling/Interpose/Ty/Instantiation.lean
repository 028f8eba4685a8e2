import Interpose.Ty.Basic

/-!
# Instantiation of type parameters

Type arguments take the place of type parameters, all at once.  A parameter without argument stays.

## Main definitions

* `Ty.instantiate` — the type with arguments for the parameters of the declaring type and the method
* `Ty.isOpen` — whether a type mentions a type parameter

## Main results

* `Ty.instantiate_of_not_isOpen` — closed types stay as they are
-/

namespace Interpose.Ty

mutual

/-- The type with `types` for the parameters of the declaring type and `methods` for those of the
method. -/
def instantiate (types methods : List Ty) : Ty → Ty
  | typeParameter index => types[index.toNat]?.getD (typeParameter index)
  | methodParameter index => methods[index.toNat]?.getD (methodParameter index)
  | inst generic arguments =>
    inst (generic.instantiate types methods) (instantiateAll types methods arguments)
  | byRef target => byRef (target.instantiate types methods)
  | array element => array (element.instantiate types methods)
  | type => type

/-- The types of a list, each instantiated. -/
def instantiateAll (types methods : List Ty) : List Ty → List Ty
  | [] => []
  | type :: rest => type.instantiate types methods :: instantiateAll types methods rest

end

theorem instantiateAll_eq_map (types methods list : List Ty) :
    instantiateAll types methods list = list.map (instantiate types methods) := by
  induction list with
  | nil => rfl
  | cons type rest ih => simp [instantiateAll, ih]

mutual

/-- Whether the type mentions a type parameter. -/
def isOpen : Ty → Bool
  | typeParameter _ | methodParameter _ => true
  | inst generic arguments => generic.isOpen || anyOpen arguments
  | byRef target => target.isOpen
  | array element => element.isOpen
  | _ => false

/-- Whether one of the types mentions a type parameter. -/
def anyOpen : List Ty → Bool
  | [] => false
  | type :: rest => type.isOpen || anyOpen rest

end

mutual

/-- Closed types stay as they are. -/
theorem instantiate_of_not_isOpen (types methods : List Ty) :
    (type : Ty) → type.isOpen = false → type.instantiate types methods = type
  | builtin _, _ => by simp [instantiate]
  | classType _, _ => by simp [instantiate]
  | valueType _, _ => by simp [instantiate]
  | typeParameter _, h => by simp [isOpen] at h
  | methodParameter _, h => by simp [isOpen] at h
  | byRef target, h => by
    have closed : target.isOpen = false := by simpa [isOpen] using h
    simp only [instantiate, instantiate_of_not_isOpen types methods target closed]
  | array element, h => by
    have closed : element.isOpen = false := by simpa [isOpen] using h
    simp only [instantiate, instantiate_of_not_isOpen types methods element closed]
  | inst generic arguments, h => by
    simp only [isOpen, Bool.or_eq_false_iff] at h
    simp only [instantiate, instantiate_of_not_isOpen types methods generic h.1,
      instantiateAll_of_not_anyOpen types methods arguments h.2]

/-- Lists of closed types stay as they are. -/
theorem instantiateAll_of_not_anyOpen (types methods : List Ty) :
    (list : List Ty) → anyOpen list = false → instantiateAll types methods list = list
  | [], _ => rfl
  | type :: rest, h => by
    simp only [anyOpen, Bool.or_eq_false_iff] at h
    simp only [instantiateAll, instantiate_of_not_isOpen types methods type h.1,
      instantiateAll_of_not_anyOpen types methods rest h.2]

end

end Interpose.Ty
