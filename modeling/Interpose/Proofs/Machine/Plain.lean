import Interpose.Proofs.Machine.Stack
import Interpose.Proofs.Module.Growth

/-!
# Code that knows nothing of the interception runtime

A module that mentions no type of the interception runtime calls none of its methods.  There is one
way around this: a module may call methods of a type parameter, and native methods may make objects
of types that have the runtime among their type arguments.  If a module does the former, then the
latter has to be ruled out.

## Main definitions

* `Ty.IsPlain`, `Module.IsPlain` — a type or a module mentions no type of the interception runtime
* `Module.CallsOpen` — a module calls methods of its type parameters
* `Store.FitFor`, `Method.FitFor`, `Natives.FitFor` — objects, running methods and native methods
  bring in no type of the interception runtime where that matters

## Main results

* `ofMethod?_of_not_belongsToRuntime` — the intrinsics that a plain module may call hand over a
  handle
* `Module.IsPlain.callee` — what is called by a plain module does not belong to the runtime
* `Module.IsPlain.implementation?` — the types on which methods are found have plain arguments
-/

namespace Interpose

namespace Ty

mutual

/-- Whether a type belongs to the interception runtime or is made of one that does. -/
def mentionsRuntime : Ty → Bool
  | classType name | valueType name => isRuntimeType name
  | inst generic arguments => generic.mentionsRuntime || anyMentionsRuntime arguments
  | byRef target => target.mentionsRuntime
  | array element => element.mentionsRuntime
  | _ => false

/-- Whether one of the types mentions the interception runtime. -/
def anyMentionsRuntime : List Ty → Bool
  | [] => false
  | type :: rest => type.mentionsRuntime || anyMentionsRuntime rest

end

/-- The type mentions no type of the interception runtime. -/
def IsPlain (type : Ty) : Prop := type.mentionsRuntime = false

/-- Whether the definition of a type belongs to the interception runtime. -/
def belongsToRuntime : Ty → Bool
  | classType name | valueType name => isRuntimeType name
  | inst generic _ => generic.belongsToRuntime
  | _ => false

/-- Whether it depends on type arguments which definition a type has. -/
def hasOpenName : Ty → Bool
  | typeParameter _ | methodParameter _ => true
  | inst generic _ => generic.hasOpenName
  | _ => false

variable {type : Ty} {types methods list : List Ty}

theorem anyMentionsRuntime_eq_false_iff :
    anyMentionsRuntime list = false ↔ ∀ type ∈ list, type.IsPlain := by
  induction list with
  | nil => simp [anyMentionsRuntime]
  | cons first rest ih => simp [anyMentionsRuntime, ih, IsPlain]

theorem IsPlain.arguments (h : type.IsPlain) : ∀ argument ∈ type.arguments, argument.IsPlain := by
  unfold IsPlain at h
  cases type with
  | inst generic arguments =>
    simp only [mentionsRuntime, Bool.or_eq_false_iff] at h
    exact anyMentionsRuntime_eq_false_iff.mp h.2
  | _ => simp [Ty.arguments]

theorem IsPlain.belongsToRuntime : (type : Ty) → type.IsPlain → type.belongsToRuntime = false
  | classType _, h | valueType _, h => h
  | inst generic arguments, h => by
    simp only [IsPlain, mentionsRuntime, Bool.or_eq_false_iff] at h
    exact IsPlain.belongsToRuntime generic h.1
  | builtin _, _ | typeParameter _, _ | methodParameter _, _ | byRef _, _ | array _, _ => rfl

private theorem isPlain_getElem?_getD (plain : ∀ type ∈ list, type.IsPlain) (index : Nat)
    (h : type.IsPlain) : (list[index]?.getD type).IsPlain := by
  cases found : list[index]? with
  | none => exact h
  | some argument => exact plain argument (List.mem_of_getElem? found)

mutual

/-- Plain arguments keep a type plain. -/
theorem IsPlain.instantiate (plainTypes : ∀ type ∈ types, type.IsPlain)
    (plainMethods : ∀ type ∈ methods, type.IsPlain) :
    (type : Ty) → type.IsPlain → (type.instantiate types methods).IsPlain
  | typeParameter index, h => by
    rw [Ty.instantiate]
    exact isPlain_getElem?_getD plainTypes _ h
  | methodParameter index, h => by
    rw [Ty.instantiate]
    exact isPlain_getElem?_getD plainMethods _ h
  | inst generic arguments, h => by
    simp only [IsPlain, mentionsRuntime, Bool.or_eq_false_iff] at h
    simp only [IsPlain, Ty.instantiate, mentionsRuntime, Bool.or_eq_false_iff]
    exact ⟨IsPlain.instantiate plainTypes plainMethods generic h.1,
      isPlain_instantiateAll plainTypes plainMethods arguments h.2⟩
  | byRef target, h => by
    simp only [IsPlain, mentionsRuntime] at h
    simp only [IsPlain, Ty.instantiate, mentionsRuntime]
    exact IsPlain.instantiate plainTypes plainMethods target h
  | array element, h => by
    simp only [IsPlain, mentionsRuntime] at h
    simp only [IsPlain, Ty.instantiate, mentionsRuntime]
    exact IsPlain.instantiate plainTypes plainMethods element h
  | builtin _, h => by simpa [Ty.instantiate] using h
  | classType _, h => by simpa [Ty.instantiate] using h
  | valueType _, h => by simpa [Ty.instantiate] using h

private theorem isPlain_instantiateAll (plainTypes : ∀ type ∈ types, type.IsPlain)
    (plainMethods : ∀ type ∈ methods, type.IsPlain) : (list : List Ty) →
    anyMentionsRuntime list = false →
    anyMentionsRuntime (instantiateAll types methods list) = false
  | [], h => h
  | type :: rest, h => by
    simp only [anyMentionsRuntime, Bool.or_eq_false_iff] at h
    simp only [instantiateAll, anyMentionsRuntime, Bool.or_eq_false_iff]
    exact ⟨IsPlain.instantiate plainTypes plainMethods type h.1,
      isPlain_instantiateAll plainTypes plainMethods rest h.2⟩

end

/-- Type arguments do not change the definition of a type that has one. -/
theorem belongsToRuntime_instantiate (types methods : List Ty) : (type : Ty) →
    type.hasOpenName = false →
    (type.instantiate types methods).belongsToRuntime = type.belongsToRuntime
  | typeParameter _, h | methodParameter _, h => nomatch h
  | inst generic arguments, h => by
    rw [Ty.instantiate]
    exact belongsToRuntime_instantiate types methods generic h
  | builtin _, _ | classType _, _ | valueType _, _ => by rw [Ty.instantiate] <;> simp
  | byRef _, _ | array _, _ => by
    rw [Ty.instantiate]
    rfl

/-- A name does not end like another one. -/
private theorem append_ne {front back name : String} {last : Char}
    (ends : back.toList.getLast? = some last) (other : name.toList.getLast? ≠ some last) :
    front ++ back ≠ name := by
  rintro rfl
  apply other
  rw [String.toList_append, List.getLast?_append, ends]
  rfl

/-- The name of a type is not that of a type of the interception runtime unless it is one. -/
theorem typeName_ne {name : String} (runtime : isRuntimeType name = true)
    (first : name.toList.head? ≠ some '!') (pointer : name.toList.getLast? ≠ some '&')
    (bracket : name.toList.getLast? ≠ some ']') :
    (type : Ty) → type.belongsToRuntime = false → type.typeName ≠ name
  | builtin type, h => by
    rintro rfl
    revert runtime
    cases type <;> decide +kernel
  | classType other, h => by
    rintro rfl
    exact absurd (h.symm.trans runtime) Bool.false_ne_true
  | valueType other, h => by
    rintro rfl
    exact absurd (h.symm.trans runtime) Bool.false_ne_true
  | inst generic arguments, h => typeName_ne runtime first pointer bracket generic h
  | typeParameter index, h => by
    rintro rfl
    apply first
    simp [typeName, text]
  | methodParameter index, h => by
    rintro rfl
    apply first
    simp [typeName, text]
  | byRef target, h => append_ne rfl pointer
  | array element, h => append_ne rfl bracket

end Ty

/-- The only intrinsics that other types than those of the interception runtime declare hand over a
handle. -/
theorem ofMethod?_of_not_belongsToRuntime {method : Method}
    (h : method.declaringType.belongsToRuntime = false) :
    Intrinsic.ofMethod? method = none ∨ Intrinsic.ofMethod? method = some .getMethodFromHandle ∨
      Intrinsic.ofMethod? method = some .getTypeFromHandle := by
  cases found : Intrinsic.ofMethod? method with
  | none => exact .inl rfl
  | some i =>
    have same := List.find?_some found
    simp only [Bool.and_eq_true, decide_eq_true_eq] at same
    have name : i.declaringType.typeName = method.declaringType.typeName := by
      have key := congrArg Prod.fst same.1.2
      cases i <;> exact key
    cases i with
    | getMethodFromHandle => exact .inr (.inl rfl)
    | getTypeFromHandle => exact .inr (.inr rfl)
    | _ => refine absurd name.symm (Ty.typeName_ne ?_ ?_ ?_ ?_ _ h) <;> decide +kernel

/-- Neither the declaring type nor the type arguments of a method mention the interception
runtime. -/
structure Method.IsPlain (m : Method) : Prop where
  declaringType : m.declaringType.IsPlain
  typeArguments : ∀ type ∈ m.typeArguments, type.IsPlain

/-- A method runs with type arguments that do not mention the interception runtime. -/
structure Method.RunsPlain (m : Method) : Prop where
  declaringType : ∀ type ∈ m.declaringType.arguments, type.IsPlain
  typeArguments : ∀ type ∈ m.typeArguments, type.IsPlain

theorem Method.IsPlain.runsPlain {m : Method} (h : m.IsPlain) : m.RunsPlain :=
  ⟨h.declaringType.arguments, h.typeArguments⟩

/-- The objects of a store are not of types that mention the interception runtime. -/
def Store.IsPlain (s : Store) : Prop :=
  ∀ (ref : Nat) (o : StoredObject), s.objects[ref]? = some o → o.type.IsPlain

/-- The types that values have at run time have plain arguments. -/
theorem Store.IsPlain.typeOf_arguments {s : Store} (h : s.IsPlain) :
    (value : Value) → ∀ argument ∈ (s.typeOf value).arguments, argument.IsPlain
  | .object ref => by
    rw [Store.typeOf]
    cases found : s.objects[ref]? with
    | none => simp [Ty.arguments]
    | some o => exact (h ref o found).arguments
  | .boxed content => typeOf_arguments h content
  | .void | .null | .int32 _ | .int64 _ | .float64 _ | .bool _ | .char _ | .string _ | .handle _ => by
    simp [Store.typeOf, Ty.arguments]

/-- A computation makes no objects of types that mention the interception runtime. -/
def Act.KeepsPlain {α : Type} (x : Act α) : Prop :=
  ∀ s a s', s.IsPlain → Yields x s a s' → s'.IsPlain

/-- A module mentions no type of the interception runtime where it says what is run. -/
structure Module.IsPlain (m : Module) : Prop where
  types : ∀ d ∈ m.types, d.type.IsPlain ∧ ∀ base ∈ d.base, base.IsPlain
  memberRefs : ∀ r ∈ m.memberRefs, r.parent.IsPlain
  methodSpecs : ∀ spec ∈ m.methodSpecs, ∀ type ∈ spec.instantiation, type.IsPlain
  typeSpecs : ∀ type ∈ m.typeSpecs, type.IsPlain

/-- A module calls methods of its type parameters. -/
def Module.CallsOpen (m : Module) : Prop := ∃ r ∈ m.memberRefs, r.parent.hasOpenName = true

/-- If a module calls methods of its type parameters, no object is of a type that mentions the
interception runtime. -/
def Store.FitFor (s : Store) (m : Module) : Prop := m.CallsOpen → s.IsPlain

/-- If a module calls methods of its type parameters, a method does not run with type arguments that
mention the interception runtime. -/
def Method.FitFor (method : Method) (m : Module) : Prop := m.CallsOpen → method.RunsPlain

/-- If a module calls methods of its type parameters, native methods make no objects of types that
mention the interception runtime. -/
def Natives.FitFor (n : Natives) (m : Module) : Prop :=
  m.CallsOpen → ∀ method native, n.get? method = some native → ∀ call, (native call).KeepsPlain

namespace Method

variable (m : Method)

@[simp] theorem declaringType_closeDeclaring : m.closeDeclaring.declaringType = m.declaringType := by
  unfold closeDeclaring
  split <;> rfl

@[simp] theorem typeArguments_closeDeclaring : m.closeDeclaring.typeArguments = m.typeArguments := by
  unfold closeDeclaring
  split <;> rfl

@[simp] theorem flags_closeDeclaring : m.closeDeclaring.flags = m.flags := by
  unfold closeDeclaring
  split <;> rfl

@[simp] theorem length_parameters_closeDeclaring :
    m.closeDeclaring.parameters.length = m.parameters.length := by
  unfold closeDeclaring
  split <;> simp

end Method

section Frames

variable {f : Frame} {type : Ty} {token : Token} {method : Method}

theorem Ty.IsPlain.close (plain : f.method.RunsPlain) (h : type.IsPlain) : (f.close type).IsPlain :=
  Ty.IsPlain.instantiate plain.declaringType plain.typeArguments type h

theorem Method.IsPlain.callee (plain : f.method.RunsPlain) (h : method.IsPlain) :
    (f.callee token method).IsPlain := by
  unfold Frame.callee
  by_cases definition : token.isIn .methodDef = true
  · rw [if_pos definition]
    exact ⟨by simpa using h.declaringType, by simpa using h.typeArguments⟩
  · rw [if_neg definition]
    refine ⟨Ty.IsPlain.close plain (by simpa using h.declaringType), fun type member => ?_⟩
    obtain ⟨other, inside, rfl⟩ := List.mem_map.mp member
    exact Ty.IsPlain.close plain (h.typeArguments other (by simpa using inside))

end Frames

namespace Module

variable {m : Module} {token : Token} {type : Ty} {method : Method}

/-- What holds of the types of a module and of the parents of its references holds of the types that
declare the methods for which its tokens stand. -/
private theorem declaringType_of_methodAt {P : Ty → Prop} (types : ∀ d ∈ m.types, P d.type)
    (memberRefs : ∀ r ∈ m.memberRefs, P r.parent) (known : m.methodAt token = .ok method) :
    P method.declaringType := by
  have generic {token : Token} {method : Method} (known : m.genericMethodAt token = .ok method) :
      P method.declaringType := by
    rcases genericMethodAt_eq_ok_iff.mp known with defined | ⟨r, found, rfl⟩
    · obtain ⟨d, owner, -, owned, rfl⟩ := definedMethod_eq_ok_iff.mp defined
      exact types owner (mem_of_row owned)
    · simpa [MemberRef.method, MethodSig.toMethod] using memberRefs r (mem_of_row found)
  rcases methodAt_eq_ok_iff.mp known with known | ⟨spec, declared, -, stands, -, rfl⟩
  · exact generic known
  · show P declared.declaringType
    exact generic stands

/-- The definition of a type tells its name. -/
theorem hasOpenName_type (d : TypeDef) : d.type.hasOpenName = false := by
  unfold TypeDef.type Ty.ofName
  split
  · rfl
  · split <;> rfl

/-- Without calls of methods of type parameters, tokens stand for methods of types with a
definition. -/
theorem hasOpenName_of_methodAt (closed : ¬ m.CallsOpen) (known : m.methodAt token = .ok method) :
    method.declaringType.hasOpenName = false := by
  refine declaringType_of_methodAt (P := fun type => type.hasOpenName = false)
    (fun d _ => hasOpenName_type d) (fun r member => ?_) known
  cases name : r.parent.hasOpenName with
  | false => rfl
  | true => exact absurd ⟨r, member, name⟩ closed

namespace IsPlain

/-- The types that the tokens of a plain module stand for are plain. -/
theorem typeAt (h : m.IsPlain) (known : m.typeAt token = .ok type) : type.IsPlain := by
  rcases typeAt_eq_ok_iff.mp known with ⟨d, found, rfl⟩ | found
  · exact (h.types d (mem_of_row found)).1
  · exact h.typeSpecs type (mem_of_row found)

theorem definedMethod (h : m.IsPlain) (known : m.definedMethod token = .ok method) :
    method.IsPlain := by
  obtain ⟨d, owner, -, owned, rfl⟩ := definedMethod_eq_ok_iff.mp known
  exact ⟨(h.types owner (mem_of_row owned)).1, by simp [MethodDef.methodIn]⟩

/-- The methods that the tokens of a plain module stand for are plain. -/
theorem methodAt (h : m.IsPlain) (known : m.methodAt token = .ok method) : method.IsPlain := by
  refine ⟨declaringType_of_methodAt (fun d member => (h.types d member).1) h.memberRefs known,
    fun type member => ?_⟩
  have generic {token : Token} {method : Method} (known : m.genericMethodAt token = .ok method) :
      method.typeArguments = [] := by
    rcases genericMethodAt_eq_ok_iff.mp known with defined | ⟨r, -, rfl⟩
    · obtain ⟨d, owner, -, -, rfl⟩ := definedMethod_eq_ok_iff.mp defined
      rfl
    · simp [MemberRef.method, MethodSig.toMethod]
  rcases methodAt_eq_ok_iff.mp known with known | ⟨spec, declared, found, -, -, rfl⟩
  · rw [generic known] at member
    cases member
  · exact h.methodSpecs spec (mem_of_row found) type member

/-- What is called by a plain module does not belong to the interception runtime. -/
theorem callee (h : m.IsPlain) (known : m.methodAt token = .ok method) {f : Frame}
    (fit : f.method.FitFor m) :
    (f.callee token method).declaringType.belongsToRuntime = false := by
  have plain := h.methodAt known
  by_cases callsOpen : m.CallsOpen
  · exact (plain.callee (fit callsOpen)).declaringType.belongsToRuntime
  · have closed := hasOpenName_of_methodAt callsOpen known
    unfold Frame.callee
    by_cases definition : token.isIn .methodDef = true
    · rw [if_pos definition, Method.declaringType_closeDeclaring]
      exact plain.declaringType.belongsToRuntime
    · rw [if_neg definition]
      show (f.close method.closeDeclaring.declaringType).belongsToRuntime = false
      rw [Method.declaringType_closeDeclaring, Frame.close,
        Ty.belongsToRuntime_instantiate _ _ _ closed]
      exact plain.declaringType.belongsToRuntime

/-- A type has the arguments of its definition. -/
private theorem arguments_of_definition? {name : String} {arguments : List Ty}
    (h : Module.definition? type = some (name, arguments)) : arguments = type.arguments := by
  unfold Module.definition? at h
  split at h <;> simp_all [Ty.arguments]

/-- The base types of a type with plain arguments have plain arguments. -/
private theorem baseOf (h : m.IsPlain) (plain : ∀ argument ∈ type.arguments, argument.IsPlain)
    {base : Ty} (known : m.baseOf type = some base) :
    ∀ argument ∈ base.arguments, argument.IsPlain := by
  unfold Module.baseOf at known
  obtain ⟨⟨name, arguments⟩, definition, known⟩ := Option.bind_eq_some_iff.mp known
  obtain ⟨d, found, known⟩ := Option.bind_eq_some_iff.mp known
  obtain ⟨open', declared, known⟩ := Option.bind_eq_some_iff.mp known
  obtain rfl := arguments_of_definition? definition
  obtain rfl := Option.some.inj known
  have plainBase := (h.types d (Array.mem_of_find?_eq_some found)).2 open' declared
  exact (Ty.IsPlain.instantiate plain (by simp) open' plainBase).arguments

/-- The types on which methods are found have plain arguments if the search starts at one that
has. -/
theorem implementation? (h : m.IsPlain) {fuel : Nat} {start : Ty}
    (plain : ∀ argument ∈ start.arguments, argument.IsPlain)
    (found : m.implementation? method fuel start = some (type, token)) :
    ∀ argument ∈ type.arguments, argument.IsPlain := by
  induction fuel generalizing start with
  | zero => cases found
  | succ fuel ih =>
    rw [Module.implementation?] at found
    split at found
    · cases found
      exact plain
    · obtain ⟨base, known, found⟩ := Option.bind_eq_some_iff.mp found
      exact ih (h.baseOf plain known) found

end IsPlain

end Module

end Interpose
