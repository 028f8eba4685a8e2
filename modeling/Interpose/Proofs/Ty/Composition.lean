import Interpose.Machine.Basic

/-!
# Instantiation in two steps

Type arguments may mention type parameters themselves: those of the code that gives the arguments.
When that code is given arguments in its turn, they go into what the first step has made.  It is the
same to put them into the first arguments before these are used, provided that each parameter of the
type has an argument; a parameter without one would be left for the second step.

## Main definitions

* `Ty.isWithin` — all type parameters of a type are below given numbers

## Main results

* `instantiate_instantiate` — two steps are one step with instantiated arguments
* `isOpen_instantiate_of_closed` — closed arguments leave no type parameter
* `instantiate_of_isWithin` — both, for types whose parameters all have arguments
* `Frame.close_eq_of_closeCall` — a type in generic code that is called from generic code
-/

namespace Interpose.Ty

mutual

/-- Whether all type parameters of a type are below the given numbers, the first for those of the
declaring type and the second for those of the method. -/
def isWithin (types methods : Nat) : Ty → Bool
  | typeParameter index => index.toNat < types
  | methodParameter index => index.toNat < methods
  | inst generic arguments => generic.isWithin types methods && allWithin types methods arguments
  | byRef target => target.isWithin types methods
  | array element => element.isWithin types methods
  | _ => true

/-- Whether this is so for all types of a list. -/
def allWithin (types methods : Nat) : List Ty → Bool
  | [] => true
  | type :: rest => type.isWithin types methods && allWithin types methods rest

end

section Composition

variable {types methods : List Ty}

mutual

/-- Instantiating twice is instantiating once, with arguments that have been instantiated. -/
theorem instantiate_instantiate (outerTypes outerMethods : List Ty) :
    (type : Ty) → type.isWithin types.length methods.length = true →
      (type.instantiate types methods).instantiate outerTypes outerMethods =
        type.instantiate (types.map (instantiate outerTypes outerMethods))
          (methods.map (instantiate outerTypes outerMethods))
  | builtin _, _ | classType _, _ | valueType _, _ => by simp [instantiate]
  | typeParameter index, h => by
    have inside : index.toNat < types.length := by simpa [isWithin] using h
    simp [instantiate, inside]
  | methodParameter index, h => by
    have inside : index.toNat < methods.length := by simpa [isWithin] using h
    simp [instantiate, inside]
  | byRef target, h => by
    have inside : target.isWithin types.length methods.length = true := by simpa [isWithin] using h
    simp only [instantiate, instantiate_instantiate outerTypes outerMethods target inside]
  | array element, h => by
    have inside : element.isWithin types.length methods.length = true := by simpa [isWithin] using h
    simp only [instantiate, instantiate_instantiate outerTypes outerMethods element inside]
  | inst generic arguments, h => by
    simp only [isWithin, Bool.and_eq_true] at h
    simp only [instantiate, instantiate_instantiate outerTypes outerMethods generic h.1,
      instantiateAll_instantiateAll outerTypes outerMethods arguments h.2]

theorem instantiateAll_instantiateAll (outerTypes outerMethods : List Ty) :
    (list : List Ty) → allWithin types.length methods.length list = true →
      instantiateAll outerTypes outerMethods (instantiateAll types methods list) =
        instantiateAll (types.map (instantiate outerTypes outerMethods))
          (methods.map (instantiate outerTypes outerMethods)) list
  | [], _ => rfl
  | type :: rest, h => by
    simp only [allWithin, Bool.and_eq_true] at h
    simp only [instantiateAll, instantiate_instantiate outerTypes outerMethods type h.1,
      instantiateAll_instantiateAll outerTypes outerMethods rest h.2]

end

mutual

/-- No type parameter is left if all have arguments and the arguments have none. -/
theorem isOpen_instantiate_of_closed (closedTypes : ∀ argument ∈ types, argument.isOpen = false)
    (closedMethods : ∀ argument ∈ methods, argument.isOpen = false) :
    (type : Ty) → type.isWithin types.length methods.length = true →
      (type.instantiate types methods).isOpen = false
  | builtin _, _ | classType _, _ | valueType _, _ => by simp [instantiate, isOpen]
  | typeParameter index, h => by
    have inside : index.toNat < types.length := by simpa [isWithin] using h
    simpa [instantiate, inside] using closedTypes _ (List.getElem_mem inside)
  | methodParameter index, h => by
    have inside : index.toNat < methods.length := by simpa [isWithin] using h
    simpa [instantiate, inside] using closedMethods _ (List.getElem_mem inside)
  | byRef target, h => by
    have inside : target.isWithin types.length methods.length = true := by simpa [isWithin] using h
    simpa only [instantiate, isOpen] using
      isOpen_instantiate_of_closed closedTypes closedMethods target inside
  | array element, h => by
    have inside : element.isWithin types.length methods.length = true := by simpa [isWithin] using h
    simpa only [instantiate, isOpen] using
      isOpen_instantiate_of_closed closedTypes closedMethods element inside
  | inst generic arguments, h => by
    simp only [isWithin, Bool.and_eq_true] at h
    simp only [instantiate, isOpen, Bool.or_eq_false_iff]
    exact ⟨isOpen_instantiate_of_closed closedTypes closedMethods generic h.1,
      anyOpen_instantiateAll_of_closed closedTypes closedMethods arguments h.2⟩

theorem anyOpen_instantiateAll_of_closed (closedTypes : ∀ argument ∈ types, argument.isOpen = false)
    (closedMethods : ∀ argument ∈ methods, argument.isOpen = false) :
    (list : List Ty) → allWithin types.length methods.length list = true →
      anyOpen (instantiateAll types methods list) = false
  | [], _ => rfl
  | type :: rest, h => by
    simp only [allWithin, Bool.and_eq_true] at h
    simp only [instantiateAll, anyOpen, Bool.or_eq_false_iff]
    exact ⟨isOpen_instantiate_of_closed closedTypes closedMethods type h.1,
      anyOpen_instantiateAll_of_closed closedTypes closedMethods rest h.2⟩

end

/-- For a type whose parameters all have arguments, instantiating twice is instantiating once with
arguments that have been instantiated.  If the arguments are closed, so is what the first step makes,
and the second changes nothing. -/
theorem instantiate_of_isWithin (types methods : List Ty) {type : Ty}
    (within : type.isWithin types.length methods.length = true) (outerTypes outerMethods : List Ty) :
    (type.instantiate types methods).instantiate outerTypes outerMethods =
        type.instantiate (types.map (instantiate outerTypes outerMethods))
          (methods.map (instantiate outerTypes outerMethods)) ∧
      ((∀ argument ∈ types ++ methods, argument.isOpen = false) →
        (type.instantiate types methods).isOpen = false ∧
          (type.instantiate types methods).instantiate outerTypes outerMethods =
            type.instantiate types methods) := by
  refine ⟨instantiate_instantiate outerTypes outerMethods type within, fun closed => ?_⟩
  obtain ⟨closedTypes, closedMethods⟩ := List.forall_mem_append.mp closed
  have result := isOpen_instantiate_of_closed closedTypes closedMethods type within
  exact ⟨result, instantiate_of_not_isOpen outerTypes outerMethods _ result⟩

/-- Pairs of a parameter of the declaring type and an array of one of the method. -/
def mixedPair : Ty := inst (classType "Demo.Pair") [typeParameter 0, array (methodParameter 1)]

/-- The arguments of the first step mention both kinds of parameters, which change places in the
second; closed arguments are final. -/
theorem instantiate_of_isWithin_mixedPair : mixedPair.isWithin 1 2 = true ∧
    (mixedPair.instantiate [byRef (methodParameter 0)] [int32, typeParameter 0]).instantiate
        [string] [bool] =
      mixedPair.instantiate [byRef bool] [int32, string] ∧
    (mixedPair.instantiate [byRef bool] [int32, string]).isOpen = false ∧
      (mixedPair.instantiate [byRef bool] [int32, string]).instantiate [object] [object] =
        mixedPair.instantiate [byRef bool] [int32, string] := by
  have within : mixedPair.isWithin 1 2 = true := rfl
  have mixed := instantiate_of_isWithin [byRef (methodParameter 0)] [int32, typeParameter 0] within
    [string] [bool]
  have closed := instantiate_of_isWithin [byRef bool] [int32, string] within [object] [object]
  exact ⟨within, mixed.1, closed.2 (by decide)⟩

/-- A parameter without argument is left for the second step. -/
example : ((typeParameter 0).instantiate [] []).instantiate [int32] [] ≠
    (typeParameter 0).instantiate ([].map (instantiate [int32] [])) [] := by decide

theorem arguments_instantiate {type : Ty} (own : type.isGenericParameter = false) :
    (type.instantiate types methods).arguments = type.arguments.map (instantiate types methods) := by
  cases type with
  | typeParameter | methodParameter => cases own
  | inst generic list =>
    rw [instantiate]
    exact instantiateAll_eq_map types methods list
  | _ => simp [instantiate, arguments]

end Composition

end Interpose.Ty

namespace Interpose

/-- A type in generic code that is called from generic code is closed over the frame of the callee as
it is closed over the frame of the caller, with the arguments that the call was written with. -/
theorem Frame.close_eq_of_closeCall {caller callee : Frame} {m : Method} {type : Ty}
    (runs : callee.method = caller.closeCall m) (own : m.declaringType.isGenericParameter = false)
    (within : type.isWithin m.declaringType.arguments.length m.typeArguments.length = true) :
    callee.close type =
      caller.close (type.instantiate m.declaringType.arguments m.typeArguments) := by
  have arguments : (caller.closeCall m).declaringType.arguments =
      m.declaringType.arguments.map caller.close := Ty.arguments_instantiate own
  rw [close, runs, arguments]
  exact (Ty.instantiate_instantiate _ _ type within).symm

end Interpose
