import Interpose.Machine.Run
import Interpose.Proofs.Machine.Plain
import Interpose.Proofs.Module.References

/-!
# Virtual calls

A virtual call is to run the definition that is found from the type of its receiver on.  Whether the
machine does so is decided by flags that only definitions carry.  A reference to a method of a type
that the module itself defines has none of them, so the search starts at the type that the reference
names: what a derived type overrides is passed over.

## Main definitions

* `Machine.dispatchFrom` — runs what a search finds that starts at a given type
* `Machine.dispatchOnReceiver`, `Machine.callOnReceiver` — calls that go by the type of the receiver
* `Machine.GoesByReceiver` — an instruction for a virtual call does what the receiver has it do
* `Machine.Inherits` — the receiver of a call overrides nothing

## Main results

* `Machine.dispatch_eq_dispatchOnReceiver` — when a virtual call goes by the type of its receiver
* `Machine.implementation?_eq_of_callFrom` — calls tell searches apart that find different definitions
* `Machine.callvirt_memberRef` — calls of references do so just if the receiver overrides nothing
* `Machine.not_forall_callvirt_memberRef` — so they depend on how the method is referred to
-/

namespace Interpose

section References

/-- The definition of a type goes by its name. -/
theorem typeName_type (d : TypeDef) : d.type.typeName = d.name := by
  unfold TypeDef.type Ty.ofName
  split
  · rfl
  · split
    · rename_i type found
      have named := List.find?_some found
      exact of_decide_eq_true named
    · rfl

theorem isOpen_type (d : TypeDef) : d.type.isOpen = false := by
  unfold TypeDef.type Ty.ofName
  split
  · rfl
  · split <;> rfl

theorem isSome_typeToken? {m : Module} {token : Token} {d : TypeDef} (h : m.typeDefAt token = .ok d) :
    (m.typeToken? d.name).isSome = true := by
  obtain ⟨-, index, -, row⟩ := Module.row_eq_ok_iff.mp h
  unfold Module.typeToken?
  rw [Option.isSome_map, Array.findIdx?_isSome, Array.any_eq_true]
  obtain ⟨bound, rfl⟩ := Array.getElem?_eq_some_iff.mp row
  exact ⟨index, bound, by simp⟩

/-- The flags of a reference tell whether there is a receiver, and nothing of overriding. -/
theorem flags_method (r : MemberRef) : r.method.flags.contains .isStatic = !r.signature.hasThis ∧
    r.method.flags.contains .isVirtual = false ∧ r.method.flags.contains .isAbstract = false := by
  have shapes : ∀ special ∈ [MethodFlags.none, .constructor ||| .specialName,
        .typeInitializer ||| .specialName], ∀ this : Bool,
      let flags := (if this then MethodFlags.none else .isStatic) ||| special
      flags.contains .isStatic = !this ∧ flags.contains .isVirtual = false ∧
        flags.contains .isAbstract = false := by decide
  unfold MemberRef.method MethodSig.toMethod
  simp only [Method.flags_closeDeclaring]
  refine shapes _ ?_ r.signature.hasThis
  split
  · simp
  · split <;> simp

end References

namespace Machine

variable {m : Machine} {execute : Executor} {method : Method} {receiver : Option Value}
  {arguments : List Value} {start start' type : Ty} {token : Token} {s : MachineState}

/-- Runs the definition of a method that a search finds from the given type on, or else a native
method. -/
def dispatchFrom (m : Machine) (execute : Executor) (method : Method) (receiver : Option Value)
    (arguments : List Value) (start : Ty) : Run Value := do
  match m.module.implementation? method dispatchLimit start with
  | some (type, token) =>
    let callee ← m.calleeOn method type token
    execute token callee (withReceiver callee receiver arguments)
  | none =>
    match m.natives.get? method with
    | some native => Run.act (native { method, receiver, arguments })
    | none => Run.fault (.missingMethod method.fullName)

theorem dispatch_of_ofMethod?_none {isVirtual : Bool} (other : Intrinsic.ofMethod? method = none) :
    m.dispatch execute method receiver arguments isVirtual =
      m.startType method receiver isVirtual >>= m.dispatchFrom execute method receiver arguments := by
  unfold dispatch
  rw [other]
  rfl

/-- The type that the receiver of a call has, where the search for its method starts. -/
def receiverType (method : Method) (receiver : Option Value) : Run Ty :=
  match receiver with
  | some value => if value.isNull then Run.fault .nullReference else Run.typeOf value
  | none => return method.declaringType

/-- Runs the method that the type of the receiver has. -/
def dispatchOnReceiver (m : Machine) (execute : Executor) (method : Method) (receiver : Option Value)
    (arguments : List Value) : Run Value :=
  match Intrinsic.ofMethod? method with
  | some i => m.intrinsic i receiver arguments
  | none => receiverType method receiver >>= m.dispatchFrom execute method receiver arguments

/-- Takes the receiver of a method from the stack, if it has one. -/
def takeReceiver (method : Method) : Step (Option Value) :=
  if method.hasThis then some <$> Step.pop else pure none

/-- Calls a method with what the stack holds. -/
def callWith (method : Method) (run : Option Value → List Value → Run Value) : Step Unit := do
  let arguments ← popArguments method
  let receiver ← takeReceiver method
  let result ← run receiver arguments
  if method.returnType ≠ .void && !method.isConstructor then
    Step.push (result.adaptTo method.returnType)

/-- Calls the method that the type of the receiver has. -/
def callOnReceiver (m : Machine) (execute : Executor) (i : Instruction) : Step Unit := do
  let method ← m.methodFor (← Step.tokenOf i)
  callWith method (m.dispatchOnReceiver execute method)

theorem call_eq (m : Machine) (execute : Executor) (i : Instruction) (isVirtual : Bool) :
    m.call execute i isVirtual = (do
      let method ← m.methodFor (← Step.tokenOf i)
      callWith method fun receiver arguments =>
        m.dispatch execute method receiver arguments isVirtual) := by
  unfold call callWith takeReceiver
  refine congrArg _ (funext fun token => congrArg _ (funext fun method =>
    congrArg _ (funext fun arguments => ?_)))
  cases method.hasThis <;> rfl

/-- A virtual call goes by the type of the receiver if the flags of its method allow for it, and if there
is no receiver but null. -/
theorem dispatch_eq_dispatchOnReceiver (h : Intrinsic.ofMethod? method = none →
    m.isDynamic method = true ∨ ∀ value, receiver = some value → value.isNull = true) :
    m.dispatch execute method receiver arguments true =
      m.dispatchOnReceiver execute method receiver arguments := by
  unfold dispatchOnReceiver
  cases intrinsic : Intrinsic.ofMethod? method with
  | some i =>
    unfold dispatch
    rw [intrinsic]
  | none =>
    have starts : m.startType method receiver true = receiverType method receiver := by
      unfold startType receiverType
      cases receiver with
      | none => rfl
      | some value =>
        rcases h intrinsic with dynamic | dead
        · simp [dynamic]
        · simp [dead value rfl]
    rw [dispatch_of_ofMethod?_none intrinsic, starts]

section Receiver

variable {value : Value} (other : Intrinsic.ofMethod? method = none) (live : value.isNull = false)

include other live

/-- Otherwise the search starts at the declaring type. -/
theorem dispatch_eq_dispatchFrom (static : m.isDynamic method = false) :
    m.dispatch execute method (some value) arguments true =
      m.dispatchFrom execute method (some value) arguments method.declaringType := by
  rw [dispatch_of_ofMethod?_none other]
  unfold startType
  simp only [static, live, Bool.and_false, Bool.false_eq_true, if_false]
  exact pure_bind _ _

theorem run_dispatchOnReceiver :
    (m.dispatchOnReceiver execute method (some value) arguments).run.run s =
      (m.dispatchFrom execute method (some value) arguments (s.store.typeOf value)).run.run s := by
  unfold dispatchOnReceiver receiverType
  simp only [other, live, Bool.false_eq_true, if_false]
  exact Yields.run_bind (yields_pure.mpr ⟨rfl, rfl⟩)

end Receiver

/-! ### What a search finds -/

theorem mem_methodsWithTokens_of_definitionOn? {module : Module}
    (h : module.definitionOn? method type = some token) :
    ∃ d, (token, d) ∈ module.methodsWithTokens := by
  unfold Module.definitionOn? at h
  obtain ⟨owner, -, found⟩ := Option.bind_eq_some_iff.mp h
  split at found
  · rename_i d only
    cases found
    exact ⟨d, (List.mem_filter.mp (only ▸ List.mem_singleton_self _)).1⟩
  · obtain ⟨⟨other, d⟩, first, rfl⟩ := Option.map_eq_some_iff.mp found
    exact ⟨d, (List.mem_filter.mp (List.mem_of_find?_eq_some first)).1⟩

theorem definitionOn?_of_implementation? {module : Module} {fuel : Nat}
    (h : module.implementation? method fuel start = some (type, token)) :
    module.definitionOn? method type = some token := by
  induction fuel generalizing start with
  | zero => cases h
  | succ fuel ih =>
    unfold Module.implementation? at h
    split at h
    · rename_i found
      cases h
      exact found
    · obtain ⟨base, -, h⟩ := Option.bind_eq_some_iff.mp h
      exact ih h

/-- Methods of one name and one signature are searched for in the same way. -/
theorem implementation?_congr {module : Module} {method' : Method} (name : method'.name = method.name)
    (parameters : method'.parameters = method.parameters)
    (typeArguments : method'.typeArguments = method.typeArguments)
    (hasThis : method'.hasThis = method.hasThis) (fuel : Nat) (start : Ty) :
    module.implementation? method' fuel start = module.implementation? method fuel start := by
  have same (type : Ty) : module.definitionOn? method' type = module.definitionOn? method type := by
    unfold Module.definitionOn? Module.resembles Module.sameParameters
    rw [name, parameters, typeArguments, hasThis]
  induction fuel generalizing start with
  | zero => rfl
  | succ fuel ih => rw [Module.implementation?, Module.implementation?, same, funext ih]

/-- What a definition is called as tells the type where it was found. -/
theorem exists_calleeOn (sound : ∀ entry ∈ m.module.methodsWithTokens,
      ∃ method, m.module.definedMethod entry.1 = .ok method)
    (found : m.module.implementation? method dispatchLimit start = some (type, token)) :
    ∃ callee, m.calleeOn method type token = .ok callee ∧ callee.declaringType = type := by
  obtain ⟨d, member⟩ := mem_methodsWithTokens_of_definitionOn? (definitionOn?_of_implementation? found)
  obtain ⟨defined, stands⟩ := sound (token, d) member
  refine ⟨_, bind_eq_ok_iff.mpr ⟨defined, stands, rfl⟩, ?_⟩
  simp [Method.instantiate]

/-- An executor that fails, and reports what it was to run. -/
def reporting (mark : Nat) : Executor := fun token callee _ s =>
  (.error (.malformed (.notAMethod token)), { s with callStack := [⟨callee, mark⟩] })

theorem run_dispatchFrom_reporting {callee : Method} (mark : Nat)
    (found : m.module.implementation? method dispatchLimit start = some (type, token))
    (known : m.calleeOn method type token = .ok callee) :
    (m.dispatchFrom (reporting mark) method receiver arguments start).run.run s =
      (.error (.malformed (.notAMethod token)), { s with callStack := [⟨callee, mark⟩] }) := by
  unfold dispatchFrom
  rw [found]
  dsimp only
  rw [known]
  rfl

/-- If nothing is found, it does not matter how methods are run. -/
theorem dispatchFrom_of_none (execute execute' : Executor)
    (h : m.module.implementation? method dispatchLimit start = none) :
    m.dispatchFrom execute method receiver arguments start =
      m.dispatchFrom execute' method receiver arguments start := by
  unfold dispatchFrom
  rw [h]

/-! ### Instructions -/

section Instructions

variable {f : Frame} {i : Instruction} {run run' : Option Value → List Value → Run Value}

/-- The receiver that the stack holds for a method. -/
def receiverFor (f : Frame) (method : Method) : Option Value :=
  if method.hasThis then f.stack[method.parameters.length]? else none

theorem yieldsWith_popArguments {f' : Frame} {s' : MachineState} :
    YieldsWith (popArguments method) f s arguments f' s' ↔
      method.parameters.length ≤ f.stack.length ∧
        ((f.stack.take method.parameters.length).reverse).zipWith Value.adaptTo method.parameters =
          arguments ∧
        { f with stack := f.stack.drop method.parameters.length } = f' ∧ s = s' := by
  unfold popArguments
  simp only [yieldsWith_bind, yieldsWith_popMany, yieldsWith_pure]
  constructor
  · rintro ⟨values, f₁, s₁, ⟨enough, rfl, rfl, rfl⟩, rfl, rfl, rfl⟩
    exact ⟨enough, rfl, rfl, rfl⟩
  · rintro ⟨enough, rfl, rfl, rfl⟩
    exact ⟨_, _, s, ⟨enough, rfl, rfl, rfl⟩, rfl, rfl, rfl⟩

/-- Below its arguments the stack holds the receiver of a method. -/
theorem yieldsWith_takeReceiver {f₁ f₂ : Frame} {s₁ s₂ : MachineState}
    (popped : YieldsWith (popArguments method) f s arguments f₁ s₁)
    (taken : YieldsWith (takeReceiver method) f₁ s₁ receiver f₂ s₂) :
    receiver = receiverFor f method ∧ s₂ = s := by
  obtain ⟨-, -, rfl, rfl⟩ := yieldsWith_popArguments.mp popped
  unfold takeReceiver at taken
  unfold receiverFor
  split at taken
  case isTrue this =>
    obtain ⟨value, pops, rfl⟩ := yieldsWith_map.mp taken
    obtain ⟨top, -, rfl⟩ := yieldsWith_pop.mp pops
    have head : (f.stack.drop method.parameters.length)[0]? = some value := by
      rw [show f.stack.drop method.parameters.length = value :: f₂.stack from top]
      rfl
    rw [if_pos this, ← head, List.getElem?_drop, Nat.add_zero]
    exact ⟨rfl, rfl⟩
  case isFalse static =>
    obtain ⟨rfl, rfl, rfl⟩ := yieldsWith_pure.mp taken
    rw [if_neg static]
    exact ⟨rfl, rfl⟩

theorem exists_yieldsWith_takeReceiver {value : Value} (present : receiverFor f method = some value) :
    ∃ arguments f₁ f₂, YieldsWith (popArguments method) f s arguments f₁ s ∧
      YieldsWith (takeReceiver method) f₁ s (some value) f₂ s := by
  unfold receiverFor at present
  split at present
  case isTrue this =>
    obtain ⟨enough, entry⟩ := List.getElem?_eq_some_iff.mp present
    refine ⟨_, _, { f with stack := f.stack.drop (method.parameters.length + 1) },
      yieldsWith_popArguments.mpr ⟨Nat.le_of_lt enough, rfl, rfl, rfl⟩, ?_⟩
    unfold takeReceiver
    rw [if_pos this, yieldsWith_map]
    refine ⟨value, yieldsWith_pop.mpr ⟨?_, rfl, rfl⟩, rfl⟩
    rw [← entry]
    exact List.drop_eq_getElem_cons enough
  case isFalse => cases present

/-- Calls that agree on the receiver that the stack holds agree. -/
theorem run_callWith_congr (same : ∀ arguments, (run (receiverFor f method) arguments).run.run s =
      (run' (receiverFor f method) arguments).run.run s) :
    ((callWith method run).run f).run.run s = ((callWith method run').run f).run.run s := by
  unfold callWith
  refine runWith_bind_congr fun arguments f₁ s₁ popped => runWith_bind_congr fun receiver f₂ s₂ taken => ?_
  obtain ⟨rfl, rfl⟩ := yieldsWith_takeReceiver popped taken
  exact runWith_lift_bind_congr (same arguments)

/-- A call that fails for the receiver that the stack holds fails. -/
theorem run_callWith_of_error {value : Value} {e : Error} {s' : MachineState}
    (present : receiverFor f method = some value)
    (fails : ∀ arguments, (run (some value) arguments).run.run s = (.error e, s')) :
    ((callWith method run).run f).run.run s = (.error e, s') := by
  obtain ⟨arguments, f₁, f₂, popped, taken⟩ := exists_yieldsWith_takeReceiver (s := s) present
  unfold callWith
  rw [popped.run_bind, taken.run_bind]
  let failing : Run Value := fun _ => (.error e, s')
  have thrown : (run (some value) arguments).run.run s = failing.run.run s := fails arguments
  exact runWith_lift_bind_congr thrown

/-- What an instruction does that refers to a method is known where the method is. -/
theorem run_methodFor_bind {k : Method → Step Unit} (refers : i.token? = some token)
    (known : m.module.methodAt token = .ok method) :
    ((do let method ← m.methodFor (← Step.tokenOf i); k method : Step Unit).run f).run.run s =
      ((k (f.callee token method)).run f).run.run s := by
  have operand : YieldsWith (Step.tokenOf i) f s token f s := by
    unfold Step.tokenOf Step.expecting
    rw [refers]
    exact yieldsWith_pure.mpr ⟨rfl, rfl, rfl⟩
  have stands : YieldsWith (m.methodFor token) f s (f.callee token method) f s :=
    yieldsWith_methodFor.mpr ⟨method, known, rfl, rfl, rfl⟩
  rw [operand.run_bind, stands.run_bind]

section Searches

variable {value : Value} (sound : ∀ entry ∈ m.module.methodsWithTokens,
    ∃ method, m.module.definedMethod entry.1 = .ok method)
  (present : receiverFor f method = some value)

/-- Calls a method with what the stack holds, searching for it from the given type on. -/
def callFrom (m : Machine) (execute : Executor) (method : Method) (start : Ty) : Step Unit :=
  callWith method fun receiver arguments => m.dispatchFrom execute method receiver arguments start

include present

theorem run_callFrom_reporting {callee : Method} (mark : Nat)
    (found : m.module.implementation? method dispatchLimit start = some (type, token))
    (known : m.calleeOn method type token = .ok callee) :
    ((m.callFrom (reporting mark) method start).run f).run.run s =
      (.error (.malformed (.notAMethod token)), { s with callStack := [⟨callee, mark⟩] }) :=
  run_callWith_of_error present fun _ => run_dispatchFrom_reporting mark found known

include sound

/-- Calls that do the same whatever runs methods find the same. -/
private theorem implementation?_of_callFrom (agree : ∀ execute,
      ((m.callFrom execute method start).run f).run.run s =
        ((m.callFrom execute method start').run f).run.run s)
    (found : m.module.implementation? method dispatchLimit start = some (type, token)) :
    m.module.implementation? method dispatchLimit start' = some (type, token) := by
  obtain ⟨callee, called, here⟩ := exists_calleeOn sound found
  cases found' : m.module.implementation? method dispatchLimit start' with
  | none =>
    -- A call that finds nothing cannot tell one executor from another, but this one does.
    have unmoved : ((m.callFrom (reporting 0) method start').run f).run.run s =
        ((m.callFrom (reporting 1) method start').run f).run.run s :=
      run_callWith_congr fun _ => by rw [dispatchFrom_of_none (reporting 0) (reporting 1) found']
    rw [← agree, ← agree, run_callFrom_reporting present 0 found called,
      run_callFrom_reporting present 1 found called] at unmoved
    obtain ⟨-, state⟩ := Prod.mk.inj unmoved
    simp at state
  | some pair =>
    obtain ⟨type', token'⟩ := pair
    obtain ⟨callee', called', here'⟩ := exists_calleeOn sound found'
    have same := agree (reporting 0)
    rw [run_callFrom_reporting present 0 found called,
      run_callFrom_reporting present 0 found' called'] at same
    obtain ⟨failure, state⟩ := Prod.mk.inj same
    cases failure
    have callees : callee = callee' := by simpa using state
    rw [← here, ← here', callees]

/-- Two searches find the same if calls cannot tell them apart. -/
theorem implementation?_eq_of_callFrom (agree : ∀ execute,
      ((m.callFrom execute method start).run f).run.run s =
        ((m.callFrom execute method start').run f).run.run s) :
    m.module.implementation? method dispatchLimit start =
      m.module.implementation? method dispatchLimit start' := by
  cases found : m.module.implementation? method dispatchLimit start with
  | some pair => exact (implementation?_of_callFrom sound present agree found).symm
  | none =>
    cases found' : m.module.implementation? method dispatchLimit start' with
    | none => rfl
    | some pair =>
      have other := implementation?_of_callFrom sound present (fun execute => (agree execute).symm) found'
      exact found.symm.trans other

end Searches

/-- In a frame and a state, an instruction for a virtual call runs the method that the type of the
receiver has, whatever it is that runs methods. -/
def GoesByReceiver (m : Machine) (i : Instruction) (f : Frame) (s : MachineState) : Prop :=
  ∀ execute, ((m.call execute i true).run f).run.run s = ((m.callOnReceiver execute i).run f).run.run s

/-- The receiver that the stack holds for a method has the definition that the declaring type has.  For
intrinsics, and without a receiver but null, nothing is asked. -/
def Inherits (m : Machine) (method : Method) (f : Frame) (s : MachineState) : Prop :=
  Intrinsic.ofMethod? method = none → ∀ value, receiverFor f method = some value →
    value.isNull = false →
    m.module.implementation? method dispatchLimit method.declaringType =
      m.module.implementation? method dispatchLimit (s.store.typeOf value)

section Token

variable (refers : i.token? = some token) (known : m.module.methodAt token = .ok method)

include refers known

/-- An instruction goes by the receiver just if its calls do. -/
theorem goesByReceiver_iff : m.GoesByReceiver i f s ↔ ∀ execute,
    ((callWith (f.callee token method) fun receiver arguments =>
        m.dispatch execute (f.callee token method) receiver arguments true).run f).run.run s =
      ((callWith (f.callee token method)
        (m.dispatchOnReceiver execute (f.callee token method))).run f).run.run s := by
  unfold GoesByReceiver callOnReceiver
  simp only [call_eq, run_methodFor_bind refers known]

theorem goesByReceiver_of_isDynamic (dynamic : m.isDynamic (f.callee token method) = true ∨
    (f.callee token method).hasThis = false) : m.GoesByReceiver i f s := by
  refine (goesByReceiver_iff refers known).mpr fun execute => run_callWith_congr fun arguments => ?_
  rw [dispatch_eq_dispatchOnReceiver fun _ => dynamic.imp_right fun static value present => ?_]
  unfold receiverFor at present
  rw [static] at present
  cases present

variable (static : m.isDynamic (f.callee token method) = false)

include static

/-- Where it is not for the flags of the method to say, an instruction goes by the receiver if the search
may as well start at its type. -/
theorem goesByReceiver_iff_callFrom {value : Value}
    (other : Intrinsic.ofMethod? (f.callee token method) = none)
    (present : receiverFor f (f.callee token method) = some value) (live : value.isNull = false) :
    m.GoesByReceiver i f s ↔ ∀ execute,
      ((m.callFrom execute (f.callee token method)
          (f.callee token method).declaringType).run f).run.run s =
        ((m.callFrom execute (f.callee token method) (s.store.typeOf value)).run f).run.run s := by
  rw [goesByReceiver_iff refers known]
  refine forall_congr' fun execute => ?_
  have declared : ((callWith (f.callee token method) fun receiver arguments =>
        m.dispatch execute (f.callee token method) receiver arguments true).run f).run.run s =
      ((m.callFrom execute (f.callee token method)
        (f.callee token method).declaringType).run f).run.run s :=
    run_callWith_congr fun arguments => by rw [present, dispatch_eq_dispatchFrom other live static]
  have actual : ((callWith (f.callee token method)
        (m.dispatchOnReceiver execute (f.callee token method))).run f).run.run s =
      ((m.callFrom execute (f.callee token method) (s.store.typeOf value)).run f).run.run s :=
    run_callWith_congr fun arguments => by rw [present, run_dispatchOnReceiver other live]
  rw [declared, actual]

theorem goesByReceiver_of_inherits (inherits : m.Inherits (f.callee token method) f s) :
    m.GoesByReceiver i f s := by
  -- The searches are asked for only where there is a receiver that is not null and no intrinsic.
  by_cases searched : Intrinsic.ofMethod? (f.callee token method) = none ∧
      ∃ value, receiverFor f (f.callee token method) = some value ∧ value.isNull = false
  · obtain ⟨other, value, present, live⟩ := searched
    refine (goesByReceiver_iff_callFrom refers known static other present live).mpr fun execute =>
      run_callWith_congr fun arguments => ?_
    unfold dispatchFrom
    rw [inherits other value present live]
  · refine (goesByReceiver_iff refers known).mpr fun execute => run_callWith_congr fun arguments => ?_
    rw [dispatch_eq_dispatchOnReceiver fun other => .inr fun value present => ?_]
    cases live : value.isNull with
    | true => rfl
    | false => exact absurd ⟨other, value, present, live⟩ searched

theorem inherits_of_goesByReceiver (sound : ∀ entry ∈ m.module.methodsWithTokens,
      ∃ method, m.module.definedMethod entry.1 = .ok method)
    (goes : m.GoesByReceiver i f s) : m.Inherits (f.callee token method) f s := by
  intro other value present live
  exact implementation?_eq_of_callFrom (s := s) sound present
    ((goesByReceiver_iff_callFrom refers known static other present live).mp goes)

end Token

end Instructions

section Tokens

variable {v r : Token} {d : MethodDef} {owner : TypeDef} {reference : MemberRef} {f : Frame}

/-- What a definition stands for in a frame. -/
theorem callee_methodDef (defined : m.module.methodDefAt v = .ok d)
    (owned : m.module.typeDefAt d.owner = .ok owner) :
    ∃ method, m.module.methodAt v = .ok method ∧ ∀ f : Frame, (f.callee v method).name = d.name ∧
      (f.callee v method).typeArguments = [] ∧ (f.callee v method).flags = d.flags := by
  refine ⟨_, (methodAt_of_methodDefAt defined).trans (bind_eq_ok_iff.mpr ⟨d, defined,
    bind_eq_ok_iff.mpr ⟨owner, owned, rfl⟩⟩), fun f => ?_⟩
  unfold Frame.callee
  rw [if_pos (Module.row_eq_ok_iff.mp defined).1, Method.closeDeclaring_eq]
  exact ⟨rfl, rfl, rfl⟩

/-- What a reference stands for in a frame. -/
theorem callee_memberRef (referred : m.module.memberRefAt r = .ok reference) (f : Frame) :
    (f.callee r reference.method).name = reference.name ∧
      (f.callee r reference.method).declaringType = f.close reference.parent ∧
      (f.callee r reference.method).typeArguments = [] ∧
      (f.callee r reference.method).flags = reference.method.flags := by
  unfold Frame.callee
  rw [isIn_methodDef_of_memberRefAt referred, if_neg Bool.false_ne_true]
  simp [Frame.closeCall, Method.closeDeclaring_eq, MemberRef.method, MethodSig.toMethod]

/-- A reference to a method of a type of the module never lets the type of the receiver decide. -/
theorem isDynamic_callee_memberRef {owners : Token} (owned : m.module.typeDefAt owners = .ok owner)
    (referred : m.module.memberRefAt r = .ok reference)
    (parent : reference.parent = owner.type ∨
      ∃ arguments, reference.parent = .inst owner.type arguments) (f : Frame) :
    m.isDynamic (f.callee r reference.method) = false := by
  obtain ⟨-, declared, -, flags⟩ := callee_memberRef referred f
  obtain ⟨-, notVirtual, notAbstract⟩ := flags_method reference
  -- Neither the frame nor the arguments of the type change the name by which the type is looked up.
  have named : (f.close reference.parent).typeName = owner.name := by
    have closed (types methods : List Ty) : owner.type.instantiate types methods = owner.type :=
      Ty.instantiate_of_not_isOpen types methods _ (isOpen_type owner)
    rcases parent with whole | ⟨arguments, whole⟩ <;>
      rw [whole, Frame.close] <;> simp [Ty.instantiate, Ty.typeName, closed, typeName_type]
  have known : (m.module.typeToken? owner.name).isNone = false := by
    rw [← Option.not_isSome, isSome_typeToken? owned, Bool.not_true]
  unfold isDynamic
  rw [declared, named, flags, notVirtual, notAbstract, known, Bool.or_false, Bool.or_false,
    Bool.and_false]

/-- Virtual calls of a method that can be overridden go by the receiver if they refer to its definition.
If they refer to it by a reference, they do so just where the receiver has the definition that the type
has which the reference names, as long as all definitions stand for methods.  Both look for the same
definitions. -/
theorem callvirt_memberRef (defined : m.module.methodDefAt v = .ok d)
    (owned : m.module.typeDefAt d.owner = .ok owner)
    (overridable : d.flags.contains .isVirtual = true ∨ d.flags.contains .isAbstract = true)
    (referred : m.module.memberRefAt r = .ok reference)
    (parent : reference.parent = owner.type ∨
      ∃ arguments, reference.parent = .inst owner.type arguments)
    (name : reference.name = d.name)
    (signature : reference.signature = ⟨d.hasThis, d.parameters, d.returnType, d.genericArity⟩) :
    (∀ i f s, i.token? = some v → m.GoesByReceiver i f s) ∧
    (∀ i f s, i.token? = some r →
      (m.Inherits (f.callee r reference.method) f s → m.GoesByReceiver i f s) ∧
      ((∀ entry ∈ m.module.methodsWithTokens,
          ∃ method, m.module.definedMethod entry.1 = .ok method) →
        m.GoesByReceiver i f s → m.Inherits (f.callee r reference.method) f s)) ∧
    ∃ method, m.module.methodAt v = .ok method ∧ ∀ f : Frame,
      (f.callee r reference.method).parameters = (f.callee v method).parameters → ∀ start,
        m.module.implementation? (f.callee r reference.method) dispatchLimit start =
          m.module.implementation? (f.callee v method) dispatchLimit start := by
  obtain ⟨method, stands, called⟩ := callee_methodDef defined owned
  have known := methodAt_of_memberRefAt referred
  -- A reference carries no flags from which it could be told that the method is virtual.
  have static := isDynamic_callee_memberRef owned referred parent
  refine ⟨fun i f s refers => goesByReceiver_of_isDynamic refers stands ?_,
    fun i f s refers => ⟨goesByReceiver_of_inherits refers known (static f),
      inherits_of_goesByReceiver refers known (static f)⟩, method, stands, fun f parameters start => ?_⟩
  · obtain ⟨-, -, flags⟩ := called f
    have overridden : (d.flags.contains .isVirtual || d.flags.contains .isAbstract) = true := by
      simpa using overridable
    unfold isDynamic
    rw [flags, overridden, Bool.true_or, Bool.and_true]
    exact Bool.eq_false_or_eq_true _
  · obtain ⟨named, given, flags⟩ := called f
    obtain ⟨named', -, given', flags'⟩ := callee_memberRef referred f
    refine implementation?_congr (named'.trans (name.trans named.symm)) parameters
      (given'.trans given.symm) ?_ dispatchLimit start
    unfold Method.hasThis Method.isStatic
    rw [flags, flags', (flags_method reference).1, signature]
    simp [MethodDef.hasThis]

/-- A class, a class below it that overrides its method, and a reference to the method of the former. -/
def speakingModule : Module where
  name := "Demo"
  types := #[.ofClass "Demo.Animal", { name := "Demo.Dog", base := some (.classType "Demo.Animal") }]
  methods := #[
    { owner := Module.tokenAt .typeDef 0, name := "Speak", flags := .isVirtual, returnType := .int32,
      body := some { code := [0x17, 0x2A] } },
    { owner := Module.tokenAt .typeDef 1, name := "Speak", flags := .isVirtual, returnType := .int32,
      body := some { code := [0x18, 0x2A] } }]
  memberRefs := #[⟨.classType "Demo.Animal", "Speak", ⟨true, [], .int32, 0⟩⟩]

/-- The machine that runs it. -/
def speaking : Machine where
  program := .ofModule speakingModule

/-- A state with an object of the class below. -/
def withDog : MachineState where
  store := { objects := #[.instance (.classType "Demo.Dog") []] }

/-- A frame that has the object on the stack. -/
def holdingDog : Frame where
  method := { declaringType := .classType "Demo.Dog", name := "Run" }
  arguments := #[]
  locals := #[]
  stack := [.object 0]
  maxStack := 1

theorem callvirt_memberRef_speaking : ∃ d owner reference,
    speaking.module.methodDefAt (Module.tokenAt .methodDef 0) = .ok d ∧
    speaking.module.typeDefAt d.owner = .ok owner ∧ d.flags.contains .isVirtual = true ∧
    speaking.module.memberRefAt (Module.tokenAt .memberRef 0) = .ok reference ∧
    reference.parent = owner.type ∧ reference.name = d.name ∧
    reference.signature = ⟨d.hasThis, d.parameters, d.returnType, d.genericArity⟩ ∧
    speaking.GoesByReceiver ⟨0, .callvirt, .token (Module.tokenAt .methodDef 0)⟩ holdingDog withDog ∧
    ¬ speaking.GoesByReceiver ⟨0, .callvirt, .token (Module.tokenAt .memberRef 0)⟩ holdingDog withDog := by
  obtain ⟨calls, references, -⟩ := callvirt_memberRef (m := speaking)
    (v := Module.tokenAt .methodDef 0) (r := Module.tokenAt .memberRef 0) rfl rfl
    (.inl (by decide)) rfl (.inl (by decide)) rfl rfl
  refine ⟨_, _, _, rfl, rfl, by decide, rfl, by decide, rfl, rfl, calls _ _ _ rfl, fun goes => ?_⟩
  have stand : ∀ entry ∈ speaking.module.methodsWithTokens,
      (speaking.module.definedMethod entry.1).toOption.isSome = true := by decide +kernel
  -- If the dog inherited its method, both searches would find the definition of the animal.
  have inherits := (references _ _ _ rfl).2 (fun entry member =>
    (Option.isSome_iff_exists.mp (stand entry member)).imp fun _ => toOption_eq_some_iff.mp) goes
  have same := inherits (by decide +kernel) (.object 0) (by decide +kernel) rfl
  revert same
  decide +kernel

/-- By a reference to a method, a virtual call may run another definition than by the method itself. -/
theorem not_forall_callvirt_memberRef : ¬ ∀ (m : Machine) (v r : Token) (d : MethodDef)
    (owner : TypeDef) (reference : MemberRef), m.module.methodDefAt v = .ok d →
    m.module.typeDefAt d.owner = .ok owner →
    (d.flags.contains .isVirtual = true ∨ d.flags.contains .isAbstract = true) →
    m.module.memberRefAt r = .ok reference →
    (reference.parent = owner.type ∨ ∃ arguments, reference.parent = .inst owner.type arguments) →
    reference.name = d.name →
    reference.signature = ⟨d.hasThis, d.parameters, d.returnType, d.genericArity⟩ →
    ∀ (i i' : Instruction) (f : Frame) (s : MachineState), i.token? = some v → i'.token? = some r →
      ((m.call m.execute i' true).run f).run.run s = ((m.call m.execute i true).run f).run.run s := by
  intro alike
  have same := alike speaking (Module.tokenAt .methodDef 0) (Module.tokenAt .memberRef 0) _ _ _ rfl rfl
    (.inl (by decide)) rfl (.inl (by decide)) rfl rfl
    ⟨0, .callvirt, .token (Module.tokenAt .methodDef 0)⟩
    ⟨0, .callvirt, .token (Module.tokenAt .memberRef 0)⟩ holdingDog withDog rfl rfl
  have numbers := congrArg (fun out => out.1.toOption.map fun ended => ended.2.stack.map Value.asInt64?) same
  revert numbers
  decide +kernel

end Tokens

end Machine

end Interpose
