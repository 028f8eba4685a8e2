import Interpose.Proofs.Substitution.CallMap
import Interpose.Substitution.Provider

/-!
# Rules for generic methods

A rule for a generic method is meant for all of its instances.  It binds a call of an instance if the
types of the instance can hold those of the generic method, where a type parameter goes for any
type.  It does so where a parameter stands alone, right behind a reference, or for the elements of an
array that are objects; it does not inside instances of generic types, nor for the elements of an
array that are values.

## Main definitions

* `Ty.LinesUp` — an instance of a type can hold the type it is an instance of
* `Method.LinesUp` — the types of an instance of a method can hold those of the method

## Main results

* `assignableFrom_instantiate_iff` — `LinesUp` says when an instance can hold the open type
* `populate_single_instance` — a rule for a generic method binds an instance just if the types line up
* `not_forall_binds_instance` — it does not bind every instance
-/

namespace Interpose

namespace Ty

variable {h : Hierarchy} {arguments : List Ty}

/-- Type arguments of calls: types of values without type parameters. -/
def IsArgument (type : Ty) : Prop := type.isOpen = false ∧ type.isValueLike = true

instance (type : Ty) : Decidable type.IsArgument := inferInstanceAs (Decidable (_ ∧ _))

/-- An instance of a type can hold the type that it is an instance of. -/
inductive LinesUp (h : Hierarchy) (arguments : List Ty) : Ty → Prop
  /-- The instance is the type itself, for instance because the type is closed. -/
  | same {type : Ty} (unchanged : type.instantiate [] arguments = type) : LinesUp h arguments type
  /-- A type parameter goes for any type. -/
  | parameter (index : UInt32) : LinesUp h arguments (methodParameter index)
  /-- So does a type parameter right behind a reference. -/
  | reference (index : UInt32) : LinesUp h arguments (byRef (methodParameter index))
  /-- Arrays of objects line up if their elements do. -/
  | array {element : Ty} (openObjects : element.isValueType = false)
    (objects : (element.instantiate [] arguments).isValueType = false)
    (elements : LinesUp h arguments element) : LinesUp h arguments (array element)
  /-- Instances of a generic type line up only if the hierarchy says so. -/
  | listed {generic : Ty} {types : List Ty} (openObjects : generic.isValueType = false)
    (objects : (generic.instantiate [] arguments).isValueType = false)
    (above : (inst generic types).instantiate [] arguments ∈ h.ancestors (inst generic types)) :
    LinesUp h arguments (inst generic types)

/-- A type parameter is replaced by an argument, or stays. -/
theorem instantiate_methodParameter {index : UInt32} :
    (methodParameter index).instantiate [] arguments = methodParameter index ∨
      (methodParameter index).instantiate [] arguments ∈ arguments := by
  unfold instantiate
  cases found : arguments[index.toNat]? with
  | none => exact .inl rfl
  | some type => exact .inr (List.mem_of_getElem? found)

/-- `LinesUp` says when an instance of a type can hold the type. -/
theorem assignableFrom_instantiate_iff (closed : ∀ type ∈ arguments, type.IsArgument) (type : Ty) :
    (type.instantiate [] arguments).assignableFrom h type = true ↔ LinesUp h arguments type := by
  by_cases unchanged : type.instantiate [] arguments = type
  · rw [unchanged]
    exact ⟨fun _ => .same unchanged, fun _ => assignableFrom_self h _⟩
  -- Of the other shapes, only type parameters and composed types can change.
  cases type with
  | builtin b => exact absurd rfl unchanged
  | classType name => exact absurd rfl unchanged
  | valueType name => exact absurd rfl unchanged
  | typeParameter index => exact absurd rfl unchanged
  | methodParameter index =>
    refine ⟨fun _ => .parameter index, fun _ => ?_⟩
    obtain ⟨isClosed, valueLike⟩ := closed _ (instantiate_methodParameter.resolve_left unchanged)
    exact assignableFrom_methodParameter isClosed valueLike index
  | byRef target =>
    have differs : target.instantiate [] arguments ≠ target := fun same =>
      unchanged (congrArg byRef same)
    rw [instantiate, assignableFrom_byRef differs]
    constructor
    · intro holds
      cases target with
      | methodParameter index => exact .reference index
      | typeParameter index => exact absurd rfl differs
      | _ => simp [instantiate, isGenericParameter] at holds
    · intro lines
      cases lines with
      | same unchanged' => exact absurd unchanged' unchanged
      | reference index => simp [isGenericParameter]
  | array element =>
    have differs : element.instantiate [] arguments ≠ element := fun same =>
      unchanged (congrArg array same)
    rw [instantiate, assignableFrom_array differs]
    simp only [Bool.and_eq_true, Bool.not_eq_true']
    constructor
    · rintro ⟨⟨objects, openObjects⟩, elements⟩
      exact .array openObjects objects ((assignableFrom_instantiate_iff closed element).mp elements)
    · intro lines
      cases lines with
      | same unchanged' => exact absurd unchanged' unchanged
      | array openObjects objects elements =>
        exact ⟨⟨objects, openObjects⟩, (assignableFrom_instantiate_iff closed element).mpr elements⟩
  | inst generic types =>
    have differs := unchanged
    rw [instantiate] at differs
    rw [instantiate, assignableFrom_inst differs, ← instantiate]
    simp only [Bool.and_eq_true, Bool.not_eq_true', decide_eq_true_eq]
    constructor
    · rintro ⟨⟨objects, openObjects⟩, above⟩
      exact .listed openObjects objects above
    · intro lines
      cases lines with
      | same unchanged' => exact absurd unchanged' unchanged
      | listed openObjects objects above => exact ⟨⟨objects, openObjects⟩, above⟩
termination_by structural type

end Ty

namespace Method

variable {h : Hierarchy} {generic : Method} {arguments : List Ty}

/-- The types of an instance of a generic method can hold those of the method.  What counts as the
result of a constructor is the new object, whose type stays. -/
def LinesUp (h : Hierarchy) (arguments : List Ty) (generic : Method) : Prop :=
  (∀ type ∈ generic.parameters, type.LinesUp h arguments) ∧
    (generic.isConstructor = true ∨ generic.returnType.LinesUp h arguments)

/-- The result of an instance can hold that of the generic method. -/
theorem acceptsResult_instance (closed : ∀ type ∈ arguments, type.IsArgument) :
    (Requirements.ofMethod generic).acceptsResult h (generic.instantiate arguments) = true ↔
      generic.isConstructor = true ∨ generic.returnType.LinesUp h arguments := by
  have kind : (generic.instantiate arguments).isConstructor = generic.isConstructor := rfl
  unfold Requirements.acceptsResult Requirements.ofMethod
  simp only [resultType, kind]
  cases generic.isConstructor with
  | true => simp [instantiate]
  | false =>
    rw [← Ty.assignableFrom_instantiate_iff closed]
    by_cases unchanged : generic.returnType.instantiate [] arguments = generic.returnType
    · simp [instantiate, unchanged, Ty.assignableFrom_self]
    · simp [instantiate, unchanged]

/-- An instance meets what a call of the generic method asks of a candidate just if its types can hold
those of the method. -/
theorem meets_instance_iff (generic_given : generic.typeArguments = [])
    (closed : ∀ type ∈ arguments, type.IsArgument) :
    (Requirements.ofMethod generic).meets h (generic.instantiate arguments) = true ↔
      generic.LinesUp h arguments := by
  have taken : (Requirements.ofMethod generic).close? (generic.instantiate arguments) =
      some (generic.instantiate arguments) := by
    simp [Requirements.close?, Requirements.ofMethod, generic_given]
  have parameters : Requirements.acceptsParameters h (generic.parameters.map some)
      (generic.instantiate arguments).parameters = true ↔
        ∀ type ∈ generic.parameters, type.LinesUp h arguments := by
    rw [Requirements.acceptsParameters_iff]
    simp only [instantiate, List.forall₂_map_right_iff, List.forall₂_same,
      Ty.assignableFrom_instantiate_iff closed]
  rw [Requirements.meets, taken, Option.any_some, Requirements.accepts, Bool.and_eq_true,
    acceptsResult_instance closed]
  exact and_congr_left' parameters

end Method

namespace Provider

variable {h : Hierarchy} {target generic : Method} {arguments : List Ty} {substitute : Substitute}
  {caller : Caller}

/-- A rule for one method never fails. -/
theorem run_populate_single (map : CallMap) :
    ((single target substitute).populate caller).run map = (.ok (),
      match bound? map.hierarchy target caller.intercepted with
      | some method =>
        if fits map.hierarchy substitute method then map.bindMethod method substitute else map
      | none => map) := by
  unfold populate populateSingle
  rfl

/-- The call that a rule for a generic method binds if the only call is one of an instance. -/
theorem bound?_instance :
    bound? h generic [generic.instantiate arguments] =
      if (Requirements.ofMethod generic).meets h (generic.instantiate arguments) then
        some (generic.instantiate arguments)
      else none := by
  have reached : reaches h generic (generic.instantiate arguments) = true := by
    simp [reaches, Method.instantiate]
  unfold bound?
  rw [List.filter_cons_of_pos (by exact reached), List.filter_nil, Requirements.best?_singleton]

/-- A rule for a generic method binds the only call of its caller, which is one of an instance of the
method, just if the types of the instance can hold those of the method.  The call map then has a
substitute for the instance, and otherwise it stays empty. -/
theorem populate_single_instance (h : Hierarchy) (id : Nat) (generic : Method)
    (arguments : List Ty) (substitute : Substitute) (caller : Caller)
    (isGeneric : generic.isGenericDefinition = true)
    (arity : arguments.length = generic.genericArity.toNat)
    (closed : ∀ type ∈ arguments, type.IsArgument) (unsigned : substitute.signature = none)
    (calls : caller.intercepted = [generic.instantiate arguments]) :
    ∃ map : CallMap,
      ((single generic substitute).populate caller).run { hierarchy := h, id } = (.ok (), map) ∧
        (generic.LinesUp h arguments →
          map.entries = #[⟨.exact (generic.instantiate arguments), substitute⟩] ∧
            map.contains (generic.instantiate arguments) = true) ∧
        (¬ generic.LinesUp h arguments →
          map.entries = #[] ∧ map.contains (generic.instantiate arguments) = false) := by
  have given : generic.typeArguments = [] := by
    simp only [Method.isGenericDefinition, Bool.and_eq_true, List.isEmpty_iff] at isGeneric
    exact isGeneric.2
  have fitting : fits h substitute (generic.instantiate arguments) = true := by
    unfold fits
    rw [unsigned]
  refine ⟨_, run_populate_single _, fun lines => ?_, fun strays => ?_⟩
  · have meets := (Method.meets_instance_iff (h := h) given closed).mpr lines
    -- An instance can stand in for itself, so the entry is found for the call.
    have itself : (generic.instantiate arguments).canReplace h (generic.instantiate arguments) = true :=
      Method.canReplace_self h arity.symm
    simp only [calls, bound?_instance, meets, if_true, fitting]
    refine ⟨rfl, ?_⟩
    rw [CallMap.contains, CallMap.substitute?_eq]
    simp [CallMap.bindMethod, CallMap.add, CallEntry.claims, itself]
  · have fails : (Requirements.ofMethod generic).meets h (generic.instantiate arguments) = false := by
      rw [← Bool.not_eq_true]
      exact fun meets => strays ((Method.meets_instance_iff given closed).mp meets)
    simp only [calls, bound?_instance, fails]
    refine ⟨rfl, ?_⟩
    rw [CallMap.contains, CallMap.substitute?_eq]
    rfl

/-- A generic method whose type parameters stand alone, behind a reference and for the elements of an
array. -/
def swapMethod : Method where
  declaringType := .classType "Demo.Util"
  name := "Swap"
  parameters := [.byRef (.methodParameter 0), .array (.array (.methodParameter 1)), .int32]
  returnType := .methodParameter 0
  genericArity := 2
  flags := .isStatic

/-- A method that calls nothing but the given method. -/
def callerOf (called : Method) : Caller where
  callingInstance := .null
  host := { declaringType := .classType "Demo.C", name := "Do" }
  intercepted := [called]
  stackTrace := []

/-- A substitute that stands in for any call. -/
def returnNull : Substitute := .ofFunction fun _ => return .null

theorem populate_single_instance_swap :
    swapMethod.LinesUp .unknown [.int32, .string] ∧ ∃ map : CallMap,
      ((single swapMethod returnNull).populate
          (callerOf (swapMethod.instantiate [.int32, .string]))).run { hierarchy := .unknown } =
        (.ok (), map) ∧
      map.entries = #[⟨.exact (swapMethod.instantiate [.int32, .string]), returnNull⟩] ∧
      map.contains (swapMethod.instantiate [.int32, .string]) = true := by
  have lines : swapMethod.LinesUp .unknown [.int32, .string] := by
    refine ⟨?_, .inr (.parameter 0)⟩
    intro type member
    simp only [swapMethod, List.mem_cons, List.not_mem_nil, or_false] at member
    obtain rfl | rfl | rfl := member
    · exact .reference 0
    · exact .array rfl rfl (.array rfl rfl (.parameter 1))
    · exact .same rfl
  obtain ⟨map, populated, binds, -⟩ := populate_single_instance .unknown 0 swapMethod
    [.int32, .string] returnNull (callerOf (swapMethod.instantiate [.int32, .string])) (by decide)
    (by decide) (by decide) rfl rfl
  exact ⟨lines, map, populated, binds lines⟩

/-- A generic method that takes an array of a type parameter. -/
def sortMethod : Method where
  declaringType := .classType "Demo.Util"
  name := "Sort"
  parameters := [.array (.methodParameter 0)]
  genericArity := 1
  flags := .isStatic

/-- It is not so that a rule for a generic method binds all of its instances. -/
theorem not_forall_binds_instance :
    ¬ ∀ (h : Hierarchy) (id : Nat) (generic : Method) (arguments : List Ty)
      (substitute : Substitute) (caller : Caller), generic.isGenericDefinition = true →
      arguments.length = generic.genericArity.toNat → (∀ type ∈ arguments, type.IsArgument) →
      substitute.signature = none → caller.intercepted = [generic.instantiate arguments] →
      ∃ map : CallMap,
        ((single generic substitute).populate caller).run { hierarchy := h, id } = (.ok (), map) ∧
          map.entries ≠ #[] ∧ map.contains (generic.instantiate arguments) = true := by
  intro always
  -- The elements of the array are numbers, and these are not held as objects.
  obtain ⟨map, populated, filled, -⟩ := always .unknown 0 sortMethod [.int32] returnNull
    (callerOf (sortMethod.instantiate [.int32])) (by decide) (by decide) (by decide) rfl rfl
  have unbound : bound? .unknown sortMethod [sortMethod.instantiate [.int32]] = none := by decide
  rw [run_populate_single] at populated
  simp only [callerOf, unbound] at populated
  obtain ⟨-, rfl⟩ := Prod.mk.inj populated
  exact filled rfl

end Provider

end Interpose
