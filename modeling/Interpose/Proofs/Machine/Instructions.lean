import Interpose.Proofs.Machine.Mirror

/-!
# Instructions that mirror each other

In a wider frame, and in a module that has grown, an instruction of a plain module does what it does
otherwise, as long as the methods that it calls do.

## Main definitions

* `Machine.Renews` — a machine runs a module that has grown
* `Module.Entered` — how methods are entered

## Main results

* `mirrors_dispatch` — calls mirror each other
* `mirrors_step` — so do instructions other than branches
* `mirrors_condition` — and the conditions of branches
-/

namespace Interpose

section Acts

theorem keepsPlain_of_unchanged {α : Type} {x : Act α} (h : ∀ s a s', Yields x s a s' → s = s') :
    x.KeepsPlain := by
  intro s a s' plain yields
  rwa [← h s a s' yields]

theorem yields_object {ref : Nat} {s s' : Store} {o : StoredObject} :
    Yields (Act.object ref) s o s' ↔ s.objects[ref]? = some o ∧ s = s' := by
  unfold Act.object Act.fault
  rw [yields_get_bind]
  cases s.objects[ref]? with
  | none => simp [yields_throw]
  | some other => simp [yields_pure]

theorem keepsPlain_object (ref : Nat) : (Act.object ref).KeepsPlain :=
  keepsPlain_of_unchanged fun _ _ _ yields => (yields_object.mp yields).2

theorem keepsPlain_newObject {o : StoredObject} (h : o.type.IsPlain) :
    (Act.newObject o).KeepsPlain := by
  intro s a s' plain yields ref other found
  unfold Act.newObject at yields
  rw [yields_get_bind, yields_set_bind] at yields
  obtain ⟨-, rfl⟩ := yields_pure.mp yields
  rw [Array.getElem?_push] at found
  split at found
  · cases found
    exact h
  · exact plain ref other found

/-- Changes of an object that keep its type. -/
theorem keepsPlain_modifyObject {ref : Nat} {change : StoredObject → Except Error StoredObject}
    (h : ∀ o o', change o = .ok o' → o'.type = o.type) : (Act.modifyObject ref change).KeepsPlain := by
  intro s a s' plain yields other o found
  unfold Act.modifyObject at yields
  obtain ⟨old, s₁, looked, yields⟩ := yields_bind.mp yields
  obtain ⟨known, rfl⟩ := yields_object.mp looked
  obtain ⟨new, changed, yields⟩ := yields_liftM_bind.mp yields
  obtain rfl := yields_modify.mp yields
  rw [Array.getElem?_setIfInBounds] at found
  split at found
  · split at found
    · cases found
      rw [h old _ changed]
      exact plain ref old known
    · cases found
  · exact plain other o found

theorem type_setField {o o' : StoredObject} {name : String} {value : Value}
    (h : o.setField name value = .ok o') : o'.type = o.type := by
  cases o with
  | «instance» type fields =>
    cases h
    rfl
  | array element items => cases h

theorem type_setElement {o o' : StoredObject} {index : Int64} {value : Value}
    (h : o.setElement index value = .ok o') : o'.type = o.type := by
  cases o with
  | «instance» type fields => cases h
  | array element items =>
    unfold StoredObject.setElement at h
    dsimp only at h
    split at h
    · cases h
      rfl
    · cases h

private theorem fails_invalidCast {value : Value} {type : Ty} {s s' : Store} {a : Value}
    (h : Yields (Act.invalidCast value type) s a s') : False := by
  unfold Act.invalidCast Act.fault at h
  rw [yields_get_bind] at h
  exact yields_throw.mp h

theorem keepsPlain_extractAs (value : Value) (type : Ty) (h : Hierarchy) :
    (value.extractAs type h).KeepsPlain := by
  refine keepsPlain_of_unchanged fun s a s' yields => ?_
  unfold Value.extractAs at yields
  rw [yields_get_bind] at yields
  split at yields
  · split at yields
    · dsimp only at yields
      split at yields
      · exact (yields_pure.mp yields).2
      · exact (fails_invalidCast yields).elim
    · exact (yields_throw.mp yields).elim
    · split at yields
      · exact (yields_pure.mp yields).2
      · exact (fails_invalidCast yields).elim
  · split at yields
    · exact (yields_pure.mp yields).2
    · exact (fails_invalidCast yields).elim

end Acts

/-- A machine runs a module that has grown, with the same native methods. -/
structure Machine.Renews (m m' : Machine) : Prop where
  grows : m.module.Grows m'.module
  natives_eq : m'.natives = m.natives

/-- How a method of a module is entered: with a receiver if it has one. -/
structure Module.Entered (m : Module) (token : Token) (method : Method) (arguments : List Value) :
    Prop where
  defined : ∃ d, m.methodDefAt token = .ok d ∧ (d.hasThis = true → arguments ≠ [])
  fit : method.FitFor m

/-- What a machine runs is compared while the given rules are in force. -/
abbrev Machine.setting (m : Machine) (rules : Rules) : RunSetting := ⟨m.module, rules⟩

section Calls

variable {m m' : Machine} {r : Rules} {execute : Executor} {execute' : Nat → Nat → Executor}
  {method : Method} {receiver : Option Value} {arguments : List Value} {isVirtual : Bool}

private theorem mirrors_startType (renews : m.Renews m') :
    (m.setting r).Mirrors (m.startType method receiver isVirtual)
      fun _ _ => m'.startType method receiver isVirtual := by
  have dynamic : m'.isDynamic method = m.isDynamic method := by
    rw [Machine.isDynamic, Machine.isDynamic, renews.grows.typeToken?]
  unfold Machine.startType
  rw [dynamic]
  cases receiver with
  | none => exact .pure _
  | some value =>
    dsimp only
    split
    · exact .of_fails fun _ _ _ => yields_throw.mp
    · split
      · exact .typeOf value
      · exact .pure _

/-- The search for a method starts at a type with plain arguments. -/
private theorem arguments_startType (fit : m.module.CallsOpen → method.IsPlain) {s s' : MachineState}
    {start : Ty} (store : s.store.FitFor m.module)
    (h : Yields (m.startType method receiver isVirtual) s start s') (callsOpen : m.module.CallsOpen) :
    ∀ argument ∈ start.arguments, argument.IsPlain := by
  unfold Machine.startType at h
  cases receiver with
  | none =>
    obtain ⟨rfl, -⟩ := yields_pure.mp h
    exact (fit callsOpen).declaringType.arguments
  | some value =>
    dsimp only at h
    split at h
    · exact (yields_throw.mp h).elim
    · split at h
      · obtain ⟨rfl, -⟩ := yields_pure.mp h
        exact (store callsOpen).typeOf_arguments value
      · obtain ⟨rfl, -⟩ := yields_pure.mp h
        exact (fit callsOpen).declaringType.arguments

/-- The methods that a plain module finds are entered as they have to be. -/
private theorem entered_of_calleeOn (plain : m.module.IsPlain)
    (fit : m.module.CallsOpen → method.IsPlain) {start type : Ty} {token : Token} {callee : Method}
    (arguments_plain : m.module.CallsOpen → ∀ argument ∈ start.arguments, argument.IsPlain)
    (found : m.module.implementation? method Machine.dispatchLimit start = some (type, token))
    (known : m.calleeOn method type token = .ok callee) :
    m.module.Entered token callee (Machine.withReceiver callee receiver arguments) := by
  unfold Machine.calleeOn at known
  obtain ⟨defined, stands, same⟩ := bind_eq_ok_iff.mp known
  obtain rfl := Except.ok.inj same
  refine ⟨?_, fun callsOpen => ⟨?_, (fit callsOpen).typeArguments⟩⟩
  · obtain ⟨d, found, stands⟩ := bind_eq_ok_iff.mp stands
    obtain ⟨owner, -, same⟩ := bind_eq_ok_iff.mp stands
    refine ⟨d, found, fun this => ?_⟩
    have hasThis : (({ defined with declaringType := type }.closeDeclaring).instantiate
        method.typeArguments).hasThis = true := by
      rw [← this, ← Except.ok.inj same]
      simp [Method.instantiate, Method.hasThis, Method.isStatic, MethodDef.hasThis]
    rw [Machine.withReceiver, if_pos hasThis]
    exact List.cons_ne_nil _ _
  · simp only [Method.instantiate, Method.declaringType_closeDeclaring]
    exact plain.implementation? (arguments_plain callsOpen) found

/-- The intrinsics that hand over a handle do so everywhere. -/
private theorem mirrors_handOver {i : Intrinsic}
    (h : i = .getMethodFromHandle ∨ i = .getTypeFromHandle) :
    (m.setting r).Mirrors (m.intrinsic i receiver arguments)
      fun _ _ => m'.intrinsic i receiver arguments := by
  match arguments with
  | [handle] => rcases h with rfl | rfl <;> exact .pure handle
  | [] | _ :: _ :: _ => rcases h with rfl | rfl <;> exact .of_fails fun _ _ _ => yields_throw.mp

variable (renews : m.Renews m') (plain : m.module.IsPlain) (fitNatives : m.natives.FitFor m.module)
  (agree : ∀ token method arguments, m.module.Entered token method arguments →
    (m.setting r).Mirrors (execute token method arguments)
      fun limit fuel => execute' limit fuel token method arguments)

include renews plain fitNatives agree

/-- Calls mirror each other if the methods do that they run. -/
theorem mirrors_dispatch (other : method.declaringType.belongsToRuntime = false)
    (fit : m.module.CallsOpen → method.IsPlain) :
    (m.setting r).Mirrors (m.dispatch execute method receiver arguments isVirtual)
      fun limit fuel => m'.dispatch (execute' limit fuel) method receiver arguments isVirtual := by
  unfold Machine.dispatch
  rcases ofMethod?_of_not_belongsToRuntime other with none | some | some
  · rw [none]
    refine (mirrors_startType renews).bind_of_yields fun start s s₁ store started => ?_
    have arguments_plain := arguments_startType fit store started
    rw [renews.grows.implementation?]
    split
    case h_1 type token found =>
      have same : m'.calleeOn method type token = m.calleeOn method type token := by
        rw [Machine.calleeOn, Machine.calleeOn, renews.grows.definedMethod]
      rw [same]
      refine (RunSetting.Mirrors.of_result fun _ => id).bind_of_yields fun callee s s₁ _ known => ?_
      exact agree _ _ _ (entered_of_calleeOn plain fit arguments_plain found (yields_liftM.mp known).1)
    case h_2 =>
      rw [renews.natives_eq]
      cases native : m.natives.get? method with
      | none => exact .of_fails fun _ _ _ => yields_throw.mp
      | some run => exact .act fun callsOpen => fitNatives callsOpen method run native _
  · rw [some]
    exact mirrors_handOver (.inl rfl)
  · rw [some]
    exact mirrors_handOver (.inr rfl)

end Calls

section Plain

variable {w : RunSetting} {v : Width} {f : Frame} {i : Instruction}

theorem mirrors_expecting {α : Type} (expected : String) (found : Option α) :
    w.MirrorsIn v f (Step.expecting i expected found) fun _ _ => Step.expecting i expected found := by
  cases found with
  | none => exact .of_fails (.wrongOperand i expected)
  | some operand => exact .pure operand

theorem mirrors_comparison (c : Comparison) :
    w.MirrorsIn v f (Step.comparison c) fun _ _ => Step.comparison c := by
  unfold Step.comparison
  refine RunSetting.mirrors_pop.bind fun right f₁ _ => RunSetting.mirrors_pop.bind fun left f₂ _ => ?_
  cases c.holds? left right with
  | none => exact .of_fails (.bind fun _ => .bind fun _ => .mismatch _ _)
  | some result => exact .pure result

theorem mirrors_arithmetic (op : BinaryOperation) :
    w.MirrorsIn v f (Step.arithmetic op) fun _ _ => Step.arithmetic op := by
  unfold Step.arithmetic
  refine RunSetting.mirrors_pop.bind fun right f₁ _ => RunSetting.mirrors_pop.bind fun left f₂ _ => ?_
  match Value.binary op left right with
  | .ok result => exact RunSetting.mirrors_push result
  | .error .divisionByZero => exact .of_fails (.fault _)
  | .error .mismatch => exact .of_fails (.bind fun _ => .bind fun _ => .mismatch _ _)

theorem mirrors_unary (operation : Value → Option Value) :
    w.MirrorsIn v f (Step.unary i operation) fun _ _ => Step.unary i operation := by
  unfold Step.unary
  refine RunSetting.mirrors_pop.bind fun value f₁ _ => ?_
  cases operation value with
  | none => exact .of_fails (.bind fun _ => .mismatch _ _)
  | some result => exact RunSetting.mirrors_push result

theorem mirrors_referent (value : Value) :
    w.MirrorsIn v f (Step.referent value) fun _ _ => Step.referent value := by
  unfold Step.referent
  split
  · exact .pure _
  · exact .of_fails (.fault _)
  · exact .of_fails (.bind fun _ => .mismatch _ _)

theorem mirrors_popIndex : w.MirrorsIn v f Step.popIndex fun _ _ => Step.popIndex := by
  unfold Step.popIndex
  refine RunSetting.mirrors_pop.bind fun value f₁ _ => ?_
  cases value.asInt64? with
  | none => exact .of_fails (.bind fun _ => .mismatch _ _)
  | some index => exact .pure index

theorem mirrors_object (ref : Nat) :
    w.MirrorsIn v f (Step.act (Act.object ref)) fun _ _ => Step.act (Act.object ref) :=
  .act fun _ => keepsPlain_object ref

theorem mirrors_loadLength : w.MirrorsIn v f Step.loadLength fun _ _ => Step.loadLength := by
  unfold Step.loadLength
  refine RunSetting.mirrors_pop.bind fun array f₁ _ => (mirrors_referent array).bind fun ref f₂ _ => ?_
  refine (mirrors_object ref).bind fun o f₃ _ => (RunSetting.MirrorsIn.of_result fun _ => id).bind ?_
  exact fun length f₄ _ => RunSetting.mirrors_push _

theorem mirrors_loadElement : w.MirrorsIn v f Step.loadElement fun _ _ => Step.loadElement := by
  unfold Step.loadElement
  refine mirrors_popIndex.bind fun index f₁ _ => RunSetting.mirrors_pop.bind fun array f₂ _ => ?_
  refine (mirrors_referent array).bind fun ref f₃ _ => (mirrors_object ref).bind fun o f₄ _ => ?_
  exact (RunSetting.MirrorsIn.of_result fun _ => id).bind fun value f₅ _ => RunSetting.mirrors_push value

theorem mirrors_storeElement : w.MirrorsIn v f Step.storeElement fun _ _ => Step.storeElement := by
  unfold Step.storeElement
  refine RunSetting.mirrors_pop.bind fun value f₁ _ => mirrors_popIndex.bind fun index f₂ _ => ?_
  refine RunSetting.mirrors_pop.bind fun array f₃ _ => (mirrors_referent array).bind fun ref f₄ _ => ?_
  exact .act fun _ => keepsPlain_modifyObject fun _ _ => type_setElement

theorem mirrors_loadConstant : w.MirrorsIn v f (Machine.loadConstant i)
    fun _ _ => Machine.loadConstant i := by
  unfold Machine.loadConstant
  split
  · exact RunSetting.mirrors_push _
  · exact .of_fails (.wrongOperand i _)
  · exact RunSetting.mirrors_push _
  · exact .of_fails (.wrongOperand i _)
  · exact (mirrors_expecting _ _).bind fun value f₁ _ => RunSetting.mirrors_push _

theorem mirrors_finish : w.MirrorsIn v f Step.finish fun _ _ => Step.finish := by
  unfold Step.finish
  refine .get_bind (.ite (.pure _) (RunSetting.mirrors_pop.bind fun value f₁ becomes => ?_))
  exact .pure _

theorem fails_throwTop : Step.throwTop.Fails := by
  unfold Step.throwTop
  refine .bind fun value => ?_
  split
  · exact .fault _
  · exact .bind fun exception => .bind fun message => .fault _
  · exact .bind fun type => .fault _

end Plain

section Modules

variable {m m' : Machine} {r : Rules} {v : Width} {f : Frame} {i : Instruction}
  (renews : m.Renews m')

include renews

theorem mirrors_typeFor (token : Token) :
    (m.setting r).MirrorsIn v f (m.typeFor token) fun _ _ => m'.typeFor token := by
  unfold Machine.typeFor
  refine (RunSetting.MirrorsIn.of_result fun _ => renews.grows.typeAt).bind fun type f₁ _ => ?_
  exact .get_bind (.pure (f₁.close type))

theorem mirrors_methodFor (token : Token) :
    (m.setting r).MirrorsIn v f (m.methodFor token) fun _ _ => m'.methodFor token := by
  unfold Machine.methodFor
  refine (RunSetting.MirrorsIn.of_result fun _ => renews.grows.methodAt).bind fun method f₁ _ => ?_
  exact .get_bind (.ite (.pure _) (.pure _))

theorem mirrors_typeOperand :
    (m.setting r).MirrorsIn v f (m.typeOperand i) fun _ _ => m'.typeOperand i := by
  unfold Machine.typeOperand
  exact (mirrors_expecting _ _).bind fun token f₁ _ => mirrors_typeFor renews token

theorem mirrors_fieldOperand :
    (m.setting r).MirrorsIn v f (m.fieldOperand i) fun _ _ => m'.fieldOperand i := by
  unfold Machine.fieldOperand
  refine (mirrors_expecting _ _).bind fun token f₁ _ => .ite ?_ (.of_fails (.wrongOperand i _))
  rw [renews.grows.fieldDefAt]
  exact (RunSetting.MirrorsIn.of_result fun _ => id).bind fun field f₂ _ => .pure _

theorem mirrors_cast {otherwise : Value → Ty → Step Value}
    (h : ∀ f value type, (m.setting r).MirrorsIn v f (otherwise value type)
      fun _ _ => otherwise value type) :
    (m.setting r).MirrorsIn v f (m.cast i otherwise) fun _ _ => m'.cast i otherwise := by
  unfold Machine.cast
  rw [renews.grows.hierarchy]
  refine (mirrors_typeOperand renews).bind fun type f₁ _ => RunSetting.mirrors_pop.bind fun value f₂ _ => ?_
  refine (RunSetting.MirrorsIn.lift (.typeOf value)).bind fun found f₃ _ => ?_
  exact .ite (RunSetting.mirrors_push value) ((h f₃ value type).bind fun other f₄ _ =>
    RunSetting.mirrors_push other)

theorem mirrors_loadField :
    (m.setting r).MirrorsIn v f (m.loadField i) fun _ _ => m'.loadField i := by
  unfold Machine.loadField
  refine (mirrors_fieldOperand renews).bind fun field f₁ _ => RunSetting.mirrors_pop.bind
    fun target f₂ _ => (mirrors_referent target).bind fun ref f₃ _ => ?_
  refine (mirrors_object ref).bind fun o f₄ _ => (RunSetting.MirrorsIn.of_result fun _ => id).bind
    fun stored f₅ _ => .get_bind ?_
  exact RunSetting.mirrors_push _

theorem mirrors_storeField :
    (m.setting r).MirrorsIn v f (m.storeField i) fun _ _ => m'.storeField i := by
  unfold Machine.storeField
  refine (mirrors_fieldOperand renews).bind fun field f₁ _ => RunSetting.mirrors_pop.bind
    fun value f₂ _ => RunSetting.mirrors_pop.bind fun target f₃ _ => .get_bind ?_
  refine (mirrors_referent target).bind fun ref f₄ _ => .act fun _ => ?_
  exact keepsPlain_modifyObject fun _ _ => type_setField

theorem mirrors_loadStatic :
    (m.setting r).MirrorsIn v f (m.loadStatic i) fun _ _ => m'.loadStatic i := by
  unfold Machine.loadStatic
  refine (mirrors_fieldOperand renews).bind fun field f₁ _ => ?_
  exact (RunSetting.MirrorsIn.lift (.static _ _)).bind fun value f₂ _ => RunSetting.mirrors_push value

theorem mirrors_storeStatic :
    (m.setting r).MirrorsIn v f (m.storeStatic i) fun _ _ => m'.storeStatic i := by
  unfold Machine.storeStatic
  refine (mirrors_fieldOperand renews).bind fun field f₁ _ => ?_
  exact RunSetting.mirrors_pop.bind fun value f₂ _ => .lift (.setStatic _ _)

theorem mirrors_box : (m.setting r).MirrorsIn v f (m.box i) fun _ _ => m'.box i := by
  unfold Machine.box
  refine (mirrors_typeOperand renews).bind fun type f₁ _ => ?_
  exact RunSetting.mirrors_pop.bind fun value f₂ _ => RunSetting.mirrors_push _

theorem mirrors_unbox : (m.setting r).MirrorsIn v f (m.unbox i) fun _ _ => m'.unbox i := by
  unfold Machine.unbox
  rw [renews.grows.hierarchy]
  refine (mirrors_typeOperand renews).bind fun type f₁ _ => RunSetting.mirrors_pop.bind fun value f₂ _ => ?_
  exact (RunSetting.MirrorsIn.act fun _ => keepsPlain_extractAs value type _).bind fun value f₃ _ =>
    RunSetting.mirrors_push value

theorem mirrors_loadToken : (m.setting r).MirrorsIn v f (m.loadToken i) fun _ _ => m'.loadToken i := by
  unfold Machine.loadToken
  refine (mirrors_expecting _ _).bind fun token f₁ _ => ?_
  split
  · exact (mirrors_typeFor renews token).bind fun type f₂ _ => RunSetting.mirrors_push _
  · exact (mirrors_typeFor renews token).bind fun type f₂ _ => RunSetting.mirrors_push _
  · exact (mirrors_methodFor renews token).bind fun method f₂ _ => RunSetting.mirrors_push _
  · exact (mirrors_methodFor renews token).bind fun method f₂ _ => RunSetting.mirrors_push _
  · exact (mirrors_methodFor renews token).bind fun method f₂ _ => RunSetting.mirrors_push _
  · exact .of_fails (.wrongOperand i _)

theorem mirrors_loadString : (m.setting r).MirrorsIn v f
    (do Step.push (.string (← m.module.stringAt (← Step.tokenOf i))))
    fun _ _ => (do Step.push (.string (← m'.module.stringAt (← Step.tokenOf i)))) := by
  refine (mirrors_expecting _ _).bind fun token f₁ _ => ?_
  rw [renews.grows.stringAt]
  exact (RunSetting.MirrorsIn.of_result fun _ => id).bind fun text f₂ _ => RunSetting.mirrors_push _

end Modules

section Steps

variable {m m' : Machine} {r : Rules} {v : Width} {f : Frame} {i : Instruction} {execute : Executor}
  {execute' : Nat → Nat → Executor} {isVirtual : Bool}

/-- It does not matter where an instruction is. -/
private theorem step_withOffset (m : Machine) (execute : Executor) (i : Instruction) (offset : Nat) :
    m.step execute { i with offset } = m.step execute i := by
  obtain ⟨here, op, operand⟩ := i
  cases op <;> rfl

theorem mirrors_popArguments (method : Method) : (m.setting r).MirrorsIn v f
    (Machine.popArguments method) fun _ _ => Machine.popArguments method :=
  (RunSetting.mirrors_popMany _).bind fun _ _ _ => .pure _

private theorem isPlain_typeOperand (plain : m.module.IsPlain) (fit : f.method.FitFor m.module)
    {type : Ty} {f₁ : Frame} {s s₁ : MachineState}
    (h : YieldsWith (m.typeOperand i) f s type f₁ s₁) (callsOpen : m.module.CallsOpen) :
    type.IsPlain := by
  unfold Machine.typeOperand at h
  obtain ⟨token, f₂, s₂, operand, h⟩ := yieldsWith_bind.mp h
  obtain ⟨known, stands, rfl, -, -⟩ := yieldsWith_typeFor.mp h
  have same : f₂ = f := by
    unfold Step.tokenOf Step.expecting at operand
    split at operand
    · exact (yieldsWith_pure.mp operand).2.1.symm
    · exact absurd operand (Step.Fails.wrongOperand _ _ _ _ _ _ _)
  rw [same]
  exact (plain.typeAt stands).close (fit callsOpen)

/-- The methods that the instructions of a plain module call. -/
private theorem isPlain_methodFor (plain : m.module.IsPlain) (fit : f.method.FitFor m.module)
    {token : Token} {method : Method} {f₁ : Frame} {s s₁ : MachineState}
    (h : YieldsWith (m.methodFor token) f s method f₁ s₁) :
    method.declaringType.belongsToRuntime = false ∧ (m.module.CallsOpen → method.IsPlain) := by
  obtain ⟨known, stands, rfl, -, -⟩ := yieldsWith_methodFor.mp h
  exact ⟨plain.callee stands fit, fun callsOpen => (plain.methodAt stands).callee (fit callsOpen)⟩

variable (renews : m.Renews m') (plain : m.module.IsPlain) (fit : f.method.FitFor m.module)

include renews plain fit

theorem mirrors_newArray : (m.setting r).MirrorsIn v f (m.newArray i) fun _ _ => m'.newArray i := by
  unfold Machine.newArray
  refine (mirrors_typeOperand renews).bind_of_yields fun element f₁ s s₁ _ known =>
    RunSetting.mirrors_pop.bind fun length f₂ _ => ?_
  cases length.asInt64? with
  | none => exact .of_fails (.bind fun _ => .mismatch _ _)
  | some size =>
    refine .ite (.bind (.act fun callsOpen => ?_) fun array f₃ _ => RunSetting.mirrors_push array)
      (.of_fails (.bind fun _ => .mismatch _ _))
    have plainElement := isPlain_typeOperand plain fit known callsOpen
    exact keepsPlain_newObject (by simpa [StoredObject.type, Ty.IsPlain, Ty.mentionsRuntime])

variable (fitNatives : m.natives.FitFor m.module)
  (agree : ∀ token method arguments, m.module.Entered token method arguments →
    (m.setting r).Mirrors (execute token method arguments)
      fun limit fuel => execute' limit fuel token method arguments)

include fitNatives agree

theorem mirrors_call : (m.setting r).MirrorsIn v f (m.call execute i isVirtual)
    fun limit fuel => m'.call (execute' limit fuel) i isVirtual := by
  unfold Machine.call
  refine (mirrors_expecting _ _).bind fun token f₁ becomes => ?_
  rw [← becomes.method_eq] at fit
  refine (mirrors_methodFor renews token).bind_of_yields fun method f₂ s s₁ _ known => ?_
  obtain ⟨other, plainMethod⟩ := isPlain_methodFor plain fit known
  refine (mirrors_popArguments method).bind fun arguments f₃ _ => ?_
  have last (receiver : Option Value) (f : Frame) : (m.setting r).MirrorsIn v f
      (liftM (m.dispatch execute method receiver arguments isVirtual) >>= fun result =>
        if method.returnType ≠ .void && !method.isConstructor then
          Step.push (result.adaptTo method.returnType) else pure ())
      fun limit fuel => liftM (m'.dispatch (execute' limit fuel) method receiver arguments isVirtual) >>=
        fun result => if method.returnType ≠ .void && !method.isConstructor then
          Step.push (result.adaptTo method.returnType) else pure () :=
    (RunSetting.MirrorsIn.lift (mirrors_dispatch renews plain fitNatives agree other plainMethod)).bind
      fun result f₁ _ => .ite (RunSetting.mirrors_push _) (.pure _)
  by_cases this : method.hasThis = true
  · simp only [if_pos this]
    refine RunSetting.MirrorsIn.bind ?_ fun receiver f₄ _ => last receiver f₄
    simp only [map_eq_pure_bind]
    exact RunSetting.mirrors_pop.bind fun value f₅ _ => .pure _
  · simp only [if_neg this]
    exact (RunSetting.MirrorsIn.pure none).bind fun receiver f₄ _ => last receiver f₄

theorem mirrors_construct : (m.setting r).MirrorsIn v f (m.construct execute i)
    fun limit fuel => m'.construct (execute' limit fuel) i := by
  unfold Machine.construct
  refine (mirrors_expecting _ _).bind fun token f₁ becomes => ?_
  rw [← becomes.method_eq] at fit
  refine (mirrors_methodFor renews token).bind_of_yields fun method f₂ s s₁ _ known => ?_
  obtain ⟨other, plainMethod⟩ := isPlain_methodFor plain fit known
  refine (mirrors_popArguments method).bind fun arguments f₃ _ => ?_
  have ordinary : Intrinsic.ofMethod? method ≠ some .newContext := by
    rcases ofMethod?_of_not_belongsToRuntime other with same | same | same <;> rw [same] <;> decide
  simp only [if_neg ordinary]
  refine RunSetting.MirrorsIn.bind (.act fun callsOpen => ?_) fun object f₄ _ => ?_
  · exact keepsPlain_newObject (plainMethod callsOpen).declaringType
  · exact (RunSetting.MirrorsIn.lift (mirrors_dispatch renews plain fitNatives agree other
      plainMethod)).bind fun result f₅ _ => RunSetting.mirrors_push object

/-- Instructions behind which control goes on have the same effect. -/
theorem mirrors_effect : (m.setting r).MirrorsIn v f (m.effect execute i)
    fun limit fuel => m'.effect (execute' limit fuel) i := by
  have constant : (m.setting r).MirrorsIn v f (Machine.loadConstant i)
      fun _ _ => Machine.loadConstant i := mirrors_loadConstant
  obtain ⟨offset, op, operand⟩ := i
  cases op with
  | ldarg0 | ldarg1 | ldarg2 | ldarg3 | ldargS | ldarg =>
    exact (mirrors_expecting _ _).bind fun index f₁ _ => RunSetting.mirrors_loadArgument index.toNat
  | stargS | starg =>
    exact (mirrors_expecting _ _).bind fun index f₁ _ => RunSetting.mirrors_storeArgument index.toNat
  | ldloc0 | ldloc1 | ldloc2 | ldloc3 | ldlocS | ldloc =>
    exact (mirrors_expecting _ _).bind fun index f₁ _ => RunSetting.mirrors_loadLocal index.toNat
  | stloc0 | stloc1 | stloc2 | stloc3 | stlocS | stloc =>
    exact (mirrors_expecting _ _).bind fun index f₁ _ => RunSetting.mirrors_storeLocal index.toNat
  | ldnull => exact RunSetting.mirrors_push .null
  | ldcI4M1 | ldcI40 | ldcI41 | ldcI42 | ldcI43 | ldcI44 | ldcI45 | ldcI46 | ldcI47 | ldcI48 | ldcI4S
  | ldcI4 | ldcI8 | ldcR8 => exact constant
  | dup => exact RunSetting.mirrors_peek.bind fun value f₁ _ => RunSetting.mirrors_push value
  | pop => exact RunSetting.mirrors_pop.bind fun value f₁ _ => .pure ()
  | call => exact mirrors_call renews plain fit fitNatives agree
  | callvirt => exact mirrors_call renews plain fit fitNatives agree
  | newobj => exact mirrors_construct renews plain fit fitNatives agree
  | add | sub | mul | div | rem | andOp | orOp | xor => exact mirrors_arithmetic _
  | neg | notOp | convI4 | convI8 | convR8 => exact mirrors_unary _
  | ceq | cgt | clt =>
    exact (mirrors_comparison _).bind fun result f₁ _ => RunSetting.mirrors_push _
  | ldstr => exact mirrors_loadString renews
  | castclass =>
    refine mirrors_cast renews fun f value type => .act fun _ => ?_
    exact keepsPlain_of_unchanged fun s a s' yields => (fails_invalidCast yields).elim
  | isinst => exact mirrors_cast renews fun f value type => .pure Value.null
  | ldfld => exact mirrors_loadField renews
  | stfld => exact mirrors_storeField renews
  | ldsfld => exact mirrors_loadStatic renews
  | stsfld => exact mirrors_storeStatic renews
  | box => exact mirrors_box renews
  | unboxAny => exact mirrors_unbox renews
  | newarr => exact mirrors_newArray renews plain fit
  | ldlen => exact mirrors_loadLength
  | ldelemRef => exact mirrors_loadElement
  | stelemRef => exact mirrors_storeElement
  | ldtoken => exact mirrors_loadToken renews
  | nop => exact .pure ()
  | _ => exact .of_fails (.fault _)

/-- Instructions other than branches do the same, wherever they are. -/
theorem mirrors_step (straight : i.op.isBranch = false) (offset : Nat) :
    (m.setting r).MirrorsIn v f (m.step execute i)
      fun limit fuel => m'.step (execute' limit fuel) { i with offset } := by
  simp only [step_withOffset]
  have effect := mirrors_effect (v := v) (i := i) renews plain fit fitNatives agree
  have ordinary := effect.bind (k := fun _ => pure Control.next) fun _ f₁ _ => .pure Control.next
  obtain ⟨here, op, operand⟩ := i
  cases op with
  | br | brS | brfalse | brfalseS | brtrue | brtrueS | beq | beqS | bge | bgeS | bgt | bgtS | ble | bleS
  | blt | bltS | bneUn | bneUnS => cases straight
  | ret => exact mirrors_finish
  | throw => exact .of_fails fails_throwTop
  | _ => exact ordinary

end Steps

/-- Whether the branch of a long form is taken. -/
def Step.condition : Opcode → Step Bool
  | .brfalse => return !(← pop).takesBranch
  | .brtrue => return (← pop).takesBranch
  | .beq => comparison .eq
  | .bge => comparison .ge
  | .bgt => comparison .gt
  | .ble => comparison .le
  | .blt => comparison .lt
  | .bneUn => comparison .ne
  | _ => return true

section Branches

variable {m : Machine} {f f' : Frame} {s s' : MachineState} {i : Instruction} {control : Control}

private theorem step_of_isBranch (branches : i.op.isBranch = true) (execute : Executor) :
    m.step execute i = Step.condition i.op.widened >>= Step.jumpIf i := by
  obtain ⟨offset, op, operand⟩ := i
  cases op with
  | br | brS => simp [Machine.step, Step.condition, Opcode.widened, Step.jumpIf]
  | brfalse | brfalseS | brtrue | brtrueS => simp [Machine.step, Step.condition, Opcode.widened]
  | beq | beqS | bge | bgeS | bgt | bgtS | ble | bleS | blt | bltS | bneUn | bneUnS => rfl
  | _ => cases branches

/-- A branch goes to its target if it is taken. -/
theorem yieldsWith_branch (branches : i.op.isBranch = true) {execute : Executor} :
    YieldsWith (m.step execute i) f s control f' s' ↔
      ∃ taken, YieldsWith (Step.condition i.op.widened) f s taken f' s' ∧
        if taken then ∃ target, i.target? = some target ∧ control = .jump target
        else control = .next := by
  rw [step_of_isBranch branches, yieldsWith_bind]
  refine exists_congr fun taken => ?_
  cases taken with
  | false =>
    constructor
    · rintro ⟨f₁, s₁, decided, goes⟩
      obtain ⟨rfl, rfl, rfl⟩ := yieldsWith_pure.mp goes
      exact ⟨decided, rfl⟩
    · rintro ⟨decided, rfl⟩
      exact ⟨f', s', decided, yieldsWith_pure.mpr ⟨rfl, rfl, rfl⟩⟩
  | true =>
    simp only [Step.jumpIf, if_pos, Step.jump, Step.expecting]
    cases i.target? with
    | none =>
      constructor
      · rintro ⟨f₁, s₁, decided, goes⟩
        exact absurd goes (Step.Fails.bind_left (.wrongOperand i _) _ _ _ _ _)
      · rintro ⟨decided, target, absent, -⟩
        cases absent
    | some target =>
      constructor
      · rintro ⟨f₁, s₁, decided, goes⟩
        obtain ⟨rfl, rfl, rfl⟩ := yieldsWith_pure.mp goes
        exact ⟨decided, target, rfl, rfl⟩
      · rintro ⟨decided, other, same, rfl⟩
        cases same
        exact ⟨f', s', decided, yieldsWith_pure.mpr ⟨rfl, rfl, rfl⟩⟩

/-- The conditions of branches mirror each other. -/
theorem mirrors_condition {w : RunSetting} {v : Width} (op : Opcode) :
    w.MirrorsIn v f (Step.condition op) fun _ _ => Step.condition op := by
  cases op with
  | brfalse | brtrue => exact RunSetting.mirrors_pop.bind fun value f₁ _ => .pure _
  | beq | bge | bgt | ble | blt | bneUn => exact mirrors_comparison _
  | _ => exact .pure true

end Branches

end Interpose
