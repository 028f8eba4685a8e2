import Interpose.Ty.Instantiation

/-!
# Which types instantiation changes

A type parameter of the declaring type is replaced where it occurs and has an argument.  So type
arguments change a type just if one of the parameters that occur in it stands for another type.

## Main definitions

* `Ty.mentions` — a type parameter of the declaring type occurs in a type

## Main results

* `instantiate_nil` — without arguments nothing changes
* `instantiate_eq_self_iff` — the types that arguments do not change
-/

namespace Interpose.Ty

mutual

/-- Whether the given type parameter of the declaring type occurs in a type. -/
def mentions (index : UInt32) : Ty → Bool
  | typeParameter other => other = index
  | inst generic arguments => generic.mentions index || anyMentions index arguments
  | byRef target => target.mentions index
  | array element => element.mentions index
  | _ => false

/-- Whether the given type parameter of the declaring type occurs in one of the types. -/
def anyMentions (index : UInt32) : List Ty → Bool
  | [] => false
  | type :: rest => type.mentions index || anyMentions index rest

end

/-- What a type parameter of the declaring type stands for. -/
def argumentFor (types : List Ty) (index : UInt32) : Ty :=
  types[index.toNat]?.getD (typeParameter index)

mutual

/-- Type arguments do not change a type just if each of the parameters that occur in it stands for
itself. -/
theorem instantiate_eq_self_iff (types : List Ty) : (type : Ty) →
    (type.instantiate types [] = type ↔
      ∀ index, type.mentions index = true → argumentFor types index = typeParameter index)
  | builtin _ => by simp [instantiate, mentions]
  | classType _ => by simp [instantiate, mentions]
  | valueType _ => by simp [instantiate, mentions]
  | methodParameter _ => by simp [instantiate, mentions]
  | typeParameter index => by simp [instantiate, mentions, argumentFor]
  | byRef target => by simp [instantiate, mentions, instantiate_eq_self_iff types target]
  | array element => by simp [instantiate, mentions, instantiate_eq_self_iff types element]
  | inst generic arguments => by
    simp only [instantiate, mentions, inst.injEq, instantiate_eq_self_iff types generic,
      instantiateAll_eq_self_iff types arguments, Bool.or_eq_true, or_imp, forall_and]

theorem instantiateAll_eq_self_iff (types : List Ty) : (list : List Ty) →
    (instantiateAll types [] list = list ↔
      ∀ index, anyMentions index list = true → argumentFor types index = typeParameter index)
  | [] => by simp [instantiateAll, anyMentions]
  | type :: rest => by
    simp only [instantiateAll, anyMentions, List.cons.injEq, instantiate_eq_self_iff types type,
      instantiateAll_eq_self_iff types rest, Bool.or_eq_true, or_imp, forall_and]

end

/-- Without arguments nothing changes. -/
@[simp] theorem instantiate_nil (type : Ty) : type.instantiate [] [] = type :=
  (instantiate_eq_self_iff [] type).mpr fun _ _ => rfl

end Interpose.Ty
