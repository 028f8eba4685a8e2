import Interpose.Proofs.Module.Resolution
import Interpose.Proofs.Ty.Instantiation

/-!
# What references stand for

A reference stores a signature in terms of the type parameters of its parent.  The type arguments of
the parent take their place when the reference is resolved, and once more when the method is called.
The second time does no harm unless the arguments mention type parameters of their own, which belong
to the method that calls.

## Main definitions

* `MemberRef.stored`, `Module.storedAt` — the signature that is stored, and the type arguments for it
* `Method.supply` — a stored signature with all type arguments, each put in once

## Main results

* `methodAt_eq_supply` — a resolved method has its type arguments put in once
* `closeDeclaring_methodAt` — when the type arguments of the parent may be put in once more
* `not_forall_closeDeclaring_methodAt` — they may not always
-/

namespace Interpose

/-- The method that a reference names, with its signature as it is stored. -/
def MemberRef.stored (r : MemberRef) : Method :=
  { r.method with parameters := r.signature.parameters, returnType := r.signature.returnType }

namespace Method

/-- Whether the given type parameter of the declaring type occurs in the signature of a method. -/
def mentions (m : Method) (index : UInt32) : Bool :=
  m.returnType.mentions index || Ty.anyMentions index m.parameters

/-- A method with the type arguments of its declaring type, all at once, and then with type arguments
of its own. -/
def supply (m : Method) (given : List Ty) : Method :=
  let supplied (type : Ty) : Ty :=
    (type.instantiate m.declaringType.arguments []).instantiate [] given
  { m with
    parameters := m.parameters.map supplied
    returnType := supplied m.returnType
    typeArguments := given }

/-- Types that are no instances have no arguments, and nothing is put in for these. -/
theorem closeDeclaring_eq (m : Method) : m.closeDeclaring =
    { m with
      parameters := m.parameters.map (Ty.instantiate m.declaringType.arguments [])
      returnType := m.returnType.instantiate m.declaringType.arguments [] } := by
  have nothing (list : List Ty) : list.map (Ty.instantiate [] []) = list :=
    List.map_id'' Ty.instantiate_nil list
  obtain ⟨declaringType, name, parameters, returnType, genericArity, typeArguments, flags⟩ := m
  cases declaringType with
  | inst generic arguments => rfl
  | _ => simp [closeDeclaring, Ty.arguments, nothing]

/-- Type arguments of the declaring type change nothing just if each of its type parameters that occurs
in the signature stands for itself. -/
theorem closeDeclaring_eq_self_iff (m : Method) : m.closeDeclaring = m ↔
    ∀ index, m.mentions index = true →
      Ty.argumentFor m.declaringType.arguments index = .typeParameter index := by
  have parts : m.closeDeclaring = m ↔
      m.returnType.instantiate m.declaringType.arguments [] = m.returnType ∧
        m.parameters.map (Ty.instantiate m.declaringType.arguments []) = m.parameters := by
    rw [closeDeclaring_eq]
    constructor
    · intro same
      exact ⟨congrArg returnType same, congrArg parameters same⟩
    · rintro ⟨result, parameters⟩
      rw [result, parameters]
  rw [parts, ← Ty.instantiateAll_eq_map, Ty.instantiate_eq_self_iff, Ty.instantiateAll_eq_self_iff]
  simp only [mentions, Bool.or_eq_true, or_imp, forall_and]

/-- Without type arguments of its own, a method is supplied with those of its declaring type. -/
theorem supply_nil (m : Method) (given : m.typeArguments = []) : m.supply [] = m.closeDeclaring := by
  rw [closeDeclaring_eq]
  simp [supply, given]

/-- Type arguments of the method come behind those of its declaring type. -/
theorem instantiate_closeDeclaring (m : Method) (given : List Ty) :
    m.closeDeclaring.instantiate given = m.supply given := by
  rw [closeDeclaring_eq]
  simp [supply, instantiate]

end Method

/-- Resolving a reference puts the arguments of its parent in. -/
theorem MemberRef.method_eq (r : MemberRef) : r.method = r.stored.closeDeclaring := by
  obtain ⟨parent, name, hasThis, parameters, returnType, genericArity⟩ := r
  simp [method, stored, MethodSig.toMethod, Method.closeDeclaring_eq]

/-- A reference gives no type arguments to its method. -/
theorem MemberRef.typeArguments_stored (r : MemberRef) : r.stored.typeArguments = [] := by
  obtain ⟨parent, name, hasThis, parameters, returnType, genericArity⟩ := r
  simp [method, stored, MethodSig.toMethod, Method.closeDeclaring_eq]

namespace Module

variable {m : Module} {token : Token} {method : Method}

/-- The signature that a definition or a reference stores. -/
def storedGenericAt (m : Module) (token : Token) : Except Error Method :=
  match token.table? with
  | some .memberRef => return (← m.memberRefAt token).stored
  | _ => m.definedMethod token

/-- The signature that is stored for a token, and the type arguments that come with an
instantiation. -/
def storedAt (m : Module) (token : Token) : Except Error (Method × List Ty) :=
  match token.table? with
  | some .methodSpec => do
    let spec ← m.methodSpecAt token
    return (← m.storedGenericAt spec.method, spec.instantiation)
  | _ => return (← m.storedGenericAt token, [])

/-- The type that a definition defines is no instance of a generic type. -/
theorem arguments_type (d : TypeDef) : d.type.arguments = [] := by
  unfold TypeDef.type
  split
  · rfl
  · unfold Ty.ofName
    split <;> rfl

/-- A method that a definition stands for has no type arguments of any kind. -/
theorem arguments_of_definedMethod (defined : m.definedMethod token = .ok method) :
    method.declaringType.arguments = [] ∧ method.typeArguments = [] := by
  obtain ⟨d, owner, -, -, rfl⟩ := definedMethod_eq_ok_iff.mp defined
  exact ⟨arguments_type owner, rfl⟩

/-- A resolved method has the type arguments of its declaring type put in once. -/
theorem storedGenericAt_of_genericMethodAt (resolves : m.genericMethodAt token = .ok method) :
    ∃ stored, m.storedGenericAt token = .ok stored ∧ method = stored.closeDeclaring ∧
      stored.typeArguments = [] := by
  unfold storedGenericAt
  rcases genericMethodAt_eq_ok_iff.mp resolves with defined | ⟨r, found, rfl⟩
  · obtain ⟨noArguments, notGiven⟩ := arguments_of_definedMethod defined
    have whole : method.closeDeclaring = method := by
      apply method.closeDeclaring_eq_self_iff.mpr
      intro index _
      rw [noArguments]
      rfl
    rw [table?_of_definedMethod defined]
    exact ⟨method, defined, whole.symm, notGiven⟩
  · rw [table?_of_row found, found]
    exact ⟨r.stored, rfl, r.method_eq, r.typeArguments_stored⟩

theorem storedAt_of_methodSpec (isInstantiation : token.table? = some .methodSpec) :
    m.storedAt token = do
      let spec ← m.methodSpecAt token
      return (← m.storedGenericAt spec.method, spec.instantiation) := by
  unfold storedAt
  rw [isInstantiation]

theorem storedAt_of_ne (isOther : token.table? ≠ some .methodSpec) :
    m.storedAt token = do return (← m.storedGenericAt token, []) := by
  unfold storedAt
  split
  case h_1 isInstantiation => exact absurd isInstantiation isOther
  case h_2 => rfl

/-- A resolved method has all of its type arguments put in, each of them once. -/
theorem methodAt_eq_supply (resolves : m.methodAt token = .ok method) :
    ∃ stored given, m.storedAt token = .ok (stored, given) ∧ method = stored.supply given := by
  rcases methodAt_eq_ok_iff.mp resolves with declared | ⟨spec, generic, found, stands, -, rfl⟩
  · obtain ⟨stored, known, rfl, notGiven⟩ := storedGenericAt_of_genericMethodAt declared
    rw [storedAt_of_ne (table?_ne_methodSpec declared), known]
    exact ⟨stored, [], rfl, (stored.supply_nil notGiven).symm⟩
  · obtain ⟨stored, known, rfl, -⟩ := storedGenericAt_of_genericMethodAt stands
    rw [storedAt_of_methodSpec (table?_of_row found)]
    exact ⟨stored, spec.instantiation,
      bind_eq_ok_iff.mpr ⟨spec, found, bind_eq_ok_iff.mpr ⟨stored, known, rfl⟩⟩,
      stored.instantiate_closeDeclaring _⟩

/-- A method that is called has the type arguments of its declaring type put in once more than when it
was resolved.  This gives the stored signature with all type arguments put in once just if each type
parameter that is left in it, and that there is an argument for, stands for itself. -/
theorem closeDeclaring_methodAt (resolves : m.methodAt token = .ok method) :
    ∃ stored given, m.storedAt token = .ok (stored, given) ∧ method = stored.supply given ∧
      (method.closeDeclaring = stored.supply given ↔
        ∀ index, (stored.supply given).mentions index = true →
          Ty.argumentFor stored.declaringType.arguments index = .typeParameter index) := by
  obtain ⟨stored, given, known, rfl⟩ := methodAt_eq_supply resolves
  exact ⟨stored, given, known, rfl, (stored.supply given).closeDeclaring_eq_self_iff⟩

/-- A reference to a generic method of an instance of a generic type.  The type arguments of the
parent are the type parameters of the calling type, the other way round. -/
def swappedPair : MemberRef where
  parent := .inst (.classType "Demo.Pair") [.typeParameter 1, .typeParameter 0]
  name := "Put"
  signature := { hasThis := false, parameters := [.typeParameter 0, .methodParameter 0], genericArity := 1 }

/-- A module with this reference and an instantiation of it. -/
def pairModule : Module where
  name := "Demo"
  memberRefs := #[swappedPair]
  methodSpecs := #[⟨.ofRow .memberRef 1, [.int32]⟩]

/-- The method as it is called for the instantiation. -/
def swappedCall : Method where
  declaringType := swappedPair.parent
  name := "Put"
  parameters := [.typeParameter 1, .int32]
  genericArity := 1
  typeArguments := [.int32]
  flags := .isStatic

theorem methodAt_pairModule : pairModule.methodAt (.ofRow .methodSpec 1) = .ok swappedCall := by
  rfl

theorem closeDeclaring_methodAt_swappedCall :
    pairModule.methodAt (.ofRow .methodSpec 1) = .ok swappedCall ∧
      ∃ stored given, pairModule.storedAt (.ofRow .methodSpec 1) = .ok (stored, given) ∧
        swappedCall = stored.supply given ∧
        (swappedCall.closeDeclaring = stored.supply given ↔
          ∀ index, (stored.supply given).mentions index = true →
            Ty.argumentFor stored.declaringType.arguments index = .typeParameter index) :=
  ⟨methodAt_pairModule, closeDeclaring_methodAt methodAt_pairModule⟩

/-- It is not so that a method that is called has its type arguments put in once. -/
theorem not_forall_closeDeclaring_methodAt :
    ¬ ∀ (m : Module) (token : Token) (method stored : Method) (given : List Ty),
      token.isIn .memberRef = true ∨ token.isIn .methodSpec = true →
      m.methodAt token = .ok method → m.storedAt token = .ok (stored, given) →
      method.closeDeclaring = stored.supply given := by
  intro always
  have kept := always pairModule (.ofRow .methodSpec 1) swappedCall swappedPair.stored [.int32]
    (.inr (by decide)) methodAt_pairModule rfl
  -- The second type parameter of the caller became its first one.
  have replaced : swappedCall.closeDeclaring.parameters = [.typeParameter 0, .int32] := rfl
  rw [kept] at replaced
  exact absurd replaced (by decide)

end Module

end Interpose
