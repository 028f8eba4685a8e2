import Interpose.Machine.Run
import Interpose.Proofs.Outcome

/-!
# What instructions preserve

All that an instruction does to the state by itself is to change the store and the static fields, to
combine the rules to a provider and to publish a call map; the rest is done by the methods that it
calls.  So a relation between states that tolerates these changes holds across every instruction
that calls no method of the module, and a relation between computations that contains such
instructions and is respected by sequences is respected by all instructions.

## Main definitions

* `Indifferent` — a relation between states that tolerates what instructions do by themselves
* `Run.Respects`, `Step.Respects` — the relation holds between the states before and behind a
  computation
* `Run.Congruence` — a relation between computations that sequences respect

## Main results

* `respects_intrinsic`, `respects_push`, `respects_loadField` and others — instructions that call no
  method of the module
* `Run.Congruence.dispatch` — calls are related if the methods are that they run
* `Run.Congruence.step`, `respects_step` — so are instructions
-/

namespace Interpose

/-- A relation between the states before and behind a computation that holds of all that
instructions do by themselves. -/
class Indifferent (P : MachineState → MachineState → Prop) : Prop where
  refl (s : MachineState) : P s s
  trans {s s' s'' : MachineState} : P s s' → P s' s'' → P s s''
  store (s : MachineState) (store : Store) : P s { s with store }
  statics (s : MachineState) (statics : List (Token × Value)) : P s { s with statics }
  provider (s : MachineState) (callingInstance : Value) (declaringType : Ty) : P s { s with
    rules := ((Intercept.chooseProvider callingInstance declaringType).run.run s.rules).2 }
  callMap (s : MachineState) (provider : Nat) (caller : Caller) (hierarchy : Hierarchy) :
    P s { s with rules := ((Intercept.publishedMap provider caller hierarchy).run.run s.rules).2 }

/-- The relation holds between the states before and behind the computation, whether it succeeds or
fails. -/
def Run.Respects (P : MachineState → MachineState → Prop) {α : Type} (x : Run α) : Prop :=
  ∀ s, P s (x.run.run s).2

/-- The relation holds between the states before and behind the computation of a running method. -/
def Step.Respects (P : MachineState → MachineState → Prop) {α : Type} (x : Step α) : Prop :=
  ∀ f, Run.Respects P (x.run f)

variable {P : MachineState → MachineState → Prop} [Indifferent P]

namespace Run.Respects

variable {α β : Type} {x : Run α} {k : α → Run β}

theorem of_same (h : ∀ s, (x.run.run s).2 = s) : Respects P x := by
  intro s
  rw [h s]
  exact Indifferent.refl s

theorem bind (h : Respects P x) (h' : ∀ a, Respects P (k a)) : Respects P (x >>= k) := by
  intro s
  have first := h s
  rw [ExceptT.run_bind, StateT.run_bind]
  revert first
  rcases x.run.run s with ⟨result, s₁⟩
  intro first
  cases result with
  | ok a => exact Indifferent.trans first (h' a s₁)
  | error e => exact first

theorem pure (a : α) : Respects P (pure a) := .of_same fun _ => rfl

omit [Indifferent P] in
theorem get_bind {k : MachineState → Run β} (h : ∀ s, Respects P (k s)) :
    Respects P (get >>= k) := fun s => h s s

theorem fault (f : Fault) : Respects P (Run.fault f : Run α) := .of_same fun _ => rfl

theorem of_result (known : Except Error α) : Respects P (liftM known) := by
  refine .of_same fun s => ?_
  cases known <;> rfl

theorem act (x : Act α) : Respects P (Run.act x) := fun s => Indifferent.store s _

omit [Indifferent P] in
theorem ite {c : Prop} [Decidable c] {y : Run α} (h : Respects P x) (h' : Respects P y) :
    Respects P (if c then x else y) := by
  split
  · exact h
  · exact h'

theorem mapM {f : β → Run α} (h : ∀ b, Respects P (f b)) (list : List β) :
    Respects P (list.mapM f) := by
  induction list with
  | nil =>
    rw [List.mapM_nil]
    exact .pure _
  | cons b rest ih =>
    rw [List.mapM_cons]
    exact (h b).bind fun _ => ih.bind fun _ => .pure _

end Run.Respects

namespace Step.Respects

variable {α β : Type} {x : Step α} {k : α → Step β}

theorem bind (h : Respects P x) (h' : ∀ a, Respects P (k a)) : Respects P (x >>= k) :=
  fun f => (h f).bind fun out => h' out.1 out.2

theorem map (h : Respects P x) (g : α → β) : Respects P (g <$> x) := by
  rw [map_eq_pure_bind]
  exact h.bind fun a f => .pure _

theorem pure (a : α) : Respects P (pure a) := fun f => .pure (a, f)

omit [Indifferent P] in
theorem get_bind {k : Frame → Step β} (h : ∀ f, Respects P (k f)) : Respects P (get >>= k) :=
  fun f => h f f

theorem set (f : Frame) : Respects P (set f) := fun _ => .pure ((), f)

theorem fault (cause : Fault) : Respects P (Step.fault cause : Step α) :=
  fun _ => .of_same fun _ => rfl

theorem lift {x : Run α} (h : x.Respects P) : Respects P (liftM x) :=
  fun f => h.bind fun a => .pure (a, f)

theorem of_result (known : Except Error α) : Respects P (liftM known) := by
  refine fun f => .of_same fun s => ?_
  cases known <;> rfl

theorem act (x : Act α) : Respects P (Step.act x) := .lift (.act x)

omit [Indifferent P] in
theorem ite {c : Prop} [Decidable c] {y : Step α} (h : Respects P x) (h' : Respects P y) :
    Respects P (if c then x else y) := by
  split
  · exact h
  · exact h'

end Step.Respects

section Frames

variable {α : Type}

theorem respects_push (value : Value) : (Step.push value).Respects P := by
  unfold Step.push
  exact .get_bind fun f => .ite (.bind (.fault _) fun _ => .set _) (.set _)

theorem respects_pop : Step.pop.Respects P := by
  unfold Step.pop
  refine .get_bind fun f => ?_
  split
  · exact .bind (.set _) fun _ => .pure _
  · exact .fault _

theorem respects_peek : Step.peek.Respects P := by
  unfold Step.peek
  refine .get_bind fun f => ?_
  split
  · exact .pure _
  · exact .fault _

theorem respects_popMany (count : Nat) : (Step.popMany count).Respects P := by
  unfold Step.popMany
  exact .get_bind fun f => .ite (.bind (.fault _) fun _ => .bind (.set _) fun _ => .pure _)
    (.bind (.set _) fun _ => .pure _)

theorem respects_loadArgument (index : Nat) : (Step.loadArgument index).Respects P := by
  unfold Step.loadArgument
  refine .get_bind fun f => ?_
  split
  · exact respects_push _
  · exact .fault _

theorem respects_storeArgument (index : Nat) : (Step.storeArgument index).Respects P := by
  unfold Step.storeArgument
  exact respects_pop.bind fun value => .get_bind fun f => .ite (.set _) (.fault _)

theorem respects_loadLocal (index : Nat) : (Step.loadLocal index).Respects P := by
  unfold Step.loadLocal
  refine .get_bind fun f => ?_
  split
  · exact respects_push _
  · exact .fault _

theorem respects_storeLocal (index : Nat) : (Step.storeLocal index).Respects P := by
  unfold Step.storeLocal
  exact respects_pop.bind fun value => .get_bind fun f => .ite (.set _) (.fault _)

theorem respects_debugText (value : Value) : (Step.debugText value).Respects P :=
  .lift (.of_same fun _ => rfl)

theorem respects_mismatch (operation found : String) :
    (Step.mismatch operation found : Step α).Respects P := .fault _

theorem respects_expecting (i : Instruction) (expected : String) (found : Option α) :
    (Step.expecting i expected found).Respects P := by
  unfold Step.expecting
  split
  · exact .pure _
  · exact .fault _

theorem respects_tokenOf (i : Instruction) : (Step.tokenOf i).Respects P :=
  respects_expecting i _ _

theorem respects_referent (value : Value) : (Step.referent value).Respects P := by
  unfold Step.referent
  split
  · exact .pure _
  · exact .fault _
  · exact (respects_debugText _).bind fun _ => respects_mismatch _ _

theorem respects_popIndex : Step.popIndex.Respects P := by
  unfold Step.popIndex
  refine respects_pop.bind fun value => ?_
  split
  · exact .pure _
  · exact (respects_debugText _).bind fun _ => respects_mismatch _ _

theorem respects_jumpIf (i : Instruction) (condition : Bool) :
    (Step.jumpIf i condition).Respects P := by
  unfold Step.jumpIf Step.jump
  exact .ite ((respects_expecting _ _ _).bind fun _ => .pure _) (.pure _)

theorem respects_comparison (c : Comparison) : (Step.comparison c).Respects P := by
  unfold Step.comparison
  refine respects_pop.bind fun right => respects_pop.bind fun left => ?_
  split
  · exact .pure _
  · exact (respects_debugText _).bind fun _ => (respects_debugText _).bind fun _ =>
      respects_mismatch _ _

theorem respects_arithmetic (op : BinaryOperation) : (Step.arithmetic op).Respects P := by
  unfold Step.arithmetic
  refine respects_pop.bind fun right => respects_pop.bind fun left => ?_
  split
  · exact respects_push _
  · exact .fault _
  · exact (respects_debugText _).bind fun _ => (respects_debugText _).bind fun _ =>
      respects_mismatch _ _

theorem respects_unary (i : Instruction) (operation : Value → Option Value) :
    (Step.unary i operation).Respects P := by
  unfold Step.unary
  refine respects_pop.bind fun value => ?_
  split
  · exact respects_push _
  · exact (respects_debugText _).bind fun _ => respects_mismatch _ _

theorem respects_finish : Step.finish.Respects P := by
  unfold Step.finish
  exact .get_bind fun f => .ite (.pure _) (respects_pop.bind fun _ => .pure _)

theorem respects_throwTop : Step.throwTop.Respects P := by
  unfold Step.throwTop
  refine respects_pop.bind fun value => ?_
  split
  · exact .fault _
  · exact (Step.Respects.act _).bind fun _ => (Step.Respects.of_result _).bind fun _ => .fault _
  · exact .bind (.lift (.of_same fun _ => rfl)) fun _ => .fault _

theorem respects_loadLength : Step.loadLength.Respects P := by
  unfold Step.loadLength
  exact respects_pop.bind fun _ => (respects_referent _).bind fun _ =>
    (Step.Respects.act _).bind fun _ => (Step.Respects.of_result _).bind fun _ =>
      respects_push _

theorem respects_loadElement : Step.loadElement.Respects P := by
  unfold Step.loadElement
  exact respects_popIndex.bind fun _ => respects_pop.bind fun _ =>
    (respects_referent _).bind fun _ => (Step.Respects.act _).bind fun _ =>
      (Step.Respects.of_result _).bind fun _ => respects_push _

theorem respects_storeElement : Step.storeElement.Respects P := by
  unfold Step.storeElement
  exact respects_pop.bind fun _ => respects_popIndex.bind fun _ => respects_pop.bind fun _ =>
    (respects_referent _).bind fun _ => .act _

end Frames

section Operands

variable (m : Machine) (i : Instruction)

theorem respects_methodFor (token : Token) : (m.methodFor token).Respects P := by
  unfold Machine.methodFor
  exact (Step.Respects.of_result _).bind fun _ => .get_bind fun _ => .ite (.pure _) (.pure _)

theorem respects_typeFor (token : Token) : (m.typeFor token).Respects P := by
  unfold Machine.typeFor
  exact (Step.Respects.of_result _).bind fun _ => .get_bind fun _ => .pure _

theorem respects_typeOperand : (m.typeOperand i).Respects P :=
  (respects_tokenOf i).bind fun _ => respects_typeFor m _

theorem respects_fieldOperand : (m.fieldOperand i).Respects P := by
  unfold Machine.fieldOperand
  exact (respects_tokenOf i).bind fun _ => .ite
    ((Step.Respects.of_result _).bind fun _ => .pure _) (respects_mismatch _ _)

theorem respects_popArguments (method : Method) : (Machine.popArguments method).Respects P :=
  (respects_popMany _).bind fun _ => .pure _

theorem respects_cast {otherwise : Value → Ty → Step Value}
    (h : ∀ value type, (otherwise value type).Respects P) : (m.cast i otherwise).Respects P := by
  unfold Machine.cast
  exact (respects_typeOperand m i).bind fun _ => respects_pop.bind fun _ =>
    .bind (.lift (.of_same fun _ => rfl)) fun _ =>
      .ite (respects_push _) ((h _ _).bind fun _ => respects_push _)

theorem respects_loadField : (m.loadField i).Respects P := by
  unfold Machine.loadField
  exact (respects_fieldOperand m i).bind fun _ => respects_pop.bind fun _ =>
    (respects_referent _).bind fun _ => (Step.Respects.act _).bind fun _ =>
      (Step.Respects.of_result _).bind fun _ => .get_bind fun _ => respects_push _

theorem respects_storeField : (m.storeField i).Respects P := by
  unfold Machine.storeField
  exact (respects_fieldOperand m i).bind fun _ => respects_pop.bind fun _ =>
    respects_pop.bind fun _ => .get_bind fun _ => (respects_referent _).bind fun _ => .act _

theorem respects_loadStatic : (m.loadStatic i).Respects P := by
  unfold Machine.loadStatic
  exact (respects_fieldOperand m i).bind fun _ =>
    .bind (.lift (.of_same fun _ => rfl)) fun _ => respects_push _

theorem respects_storeStatic : (m.storeStatic i).Respects P := by
  unfold Machine.storeStatic
  exact (respects_fieldOperand m i).bind fun _ => respects_pop.bind fun _ =>
    .lift fun s => Indifferent.statics s _

theorem respects_box : (m.box i).Respects P := by
  unfold Machine.box
  exact (respects_typeOperand m i).bind fun _ => respects_pop.bind fun _ => respects_push _

theorem respects_unbox : (m.unbox i).Respects P := by
  unfold Machine.unbox
  exact (respects_typeOperand m i).bind fun _ => respects_pop.bind fun _ =>
    (Step.Respects.act _).bind fun _ => respects_push _

theorem respects_newArray : (m.newArray i).Respects P := by
  unfold Machine.newArray
  refine (respects_typeOperand m i).bind fun _ => respects_pop.bind fun length => ?_
  split
  · exact .ite ((Step.Respects.act _).bind fun _ => respects_push _)
      ((respects_debugText _).bind fun _ => respects_mismatch _ _)
  · exact (respects_debugText _).bind fun _ => respects_mismatch _ _

theorem respects_loadToken : (m.loadToken i).Respects P := by
  unfold Machine.loadToken
  refine (respects_tokenOf i).bind fun token => ?_
  split
  · exact (respects_typeFor m token).bind fun _ => respects_push _
  · exact (respects_typeFor m token).bind fun _ => respects_push _
  · exact (respects_methodFor m token).bind fun _ => respects_push _
  · exact (respects_methodFor m token).bind fun _ => respects_push _
  · exact (respects_methodFor m token).bind fun _ => respects_push _
  · exact respects_mismatch _ _

theorem respects_loadConstant : (Machine.loadConstant i).Respects P := by
  unfold Machine.loadConstant
  split
  · exact respects_push _
  · exact respects_mismatch _ _
  · exact respects_push _
  · exact respects_mismatch _ _
  · exact (respects_expecting _ _ _).bind fun _ => respects_push _

end Operands

section Intrinsics

variable (m : Machine)

theorem respects_unexpected {α : Type} (i : Intrinsic) (found : Value) :
    (Run.unexpected i found : Run α).Respects P := .of_same fun _ => rfl

theorem respects_methodOf (i : Intrinsic) (value : Value) : (Run.methodOf i value).Respects P := by
  unfold Run.methodOf
  split
  · exact .pure _
  · exact respects_unexpected i _

theorem respects_traceOf (i : Intrinsic) (value : Value) : (Run.traceOf i value).Respects P := by
  unfold Run.traceOf
  split
  · exact .get_bind fun _ => .pure _
  · exact .pure _
  · exact respects_unexpected i _

theorem respects_elementsOf (i : Intrinsic) (value : Value) :
    (Run.elementsOf i value).Respects P := by
  unfold Run.elementsOf
  split
  · exact (Run.Respects.act _).bind fun _ => .of_result _
  · exact .pure _
  · exact respects_unexpected i _

theorem respects_callMapOf (i : Intrinsic) (receiver : Option Value) :
    (Run.callMapOf i receiver).Respects P := by
  unfold Run.callMapOf
  split
  · refine .get_bind fun s => ?_
    split
    · exact .pure _
    · exact .fault _
  · exact .fault _
  · exact .fault _
  · exact respects_unexpected i _

theorem respects_chooseProvider (callingInstance type : Value) :
    (Machine.chooseProvider callingInstance type).Respects P := by
  unfold Machine.chooseProvider
  split
  · refine .bind (fun s => Indifferent.provider s _ _) fun found => ?_
    split
    · exact .pure _
    · exact .pure _
  · exact respects_unexpected _ _

theorem respects_callMapFor (provider callingInstance host intercepted trace : Value) :
    (m.callMapFor provider callingInstance host intercepted trace).Respects P := by
  unfold Machine.callMapFor
  split
  · exact (respects_methodOf _ _).bind fun _ => (respects_elementsOf _ _).bind fun _ =>
      (Run.Respects.mapM (respects_methodOf _) _).bind fun _ => (respects_traceOf _ _).bind
        fun _ => .bind (fun s => Indifferent.callMap s _ _ _) fun _ => .pure _
  · exact .pure _
  · exact respects_unexpected _ _

theorem respects_containsMapping (receiver : Option Value) (target : Value) :
    (Machine.containsMapping receiver target).Respects P := by
  unfold Machine.containsMapping
  exact (respects_callMapOf _ _).bind fun _ => (respects_methodOf _ _).bind fun _ => .pure _

theorem respects_substituteFor (receiver : Option Value) (target : Value) :
    (Machine.substituteFor receiver target).Respects P := by
  unfold Machine.substituteFor
  refine (respects_callMapOf _ _).bind fun _ => (respects_methodOf _ _).bind fun _ => ?_
  split
  · split
    · exact .pure _
    · exact .pure _
  · exact .pure _

theorem respects_invokeSubstitute (receiver : Option Value) (context : Value) :
    (Machine.invokeSubstitute receiver context).Respects P := by
  have entry : (Machine.entryOf receiver).Respects P := by
    unfold Machine.entryOf
    split
    · refine .get_bind fun s => ?_
      split
      · exact .pure _
      · exact .fault _
    · exact .fault _
    · exact .fault _
    · exact respects_unexpected _ _
  have found : (Machine.contextOf context).Respects P := by
    unfold Machine.contextOf
    split
    · refine .get_bind fun s => ?_
      split
      · exact .pure _
      · exact .fault _
    · exact respects_unexpected _ _
  unfold Machine.invokeSubstitute
  refine entry.bind fun _ => found.bind fun _ => (Run.Respects.act _).bind fun result => ?_
  split
  · exact .pure _
  · exact .pure _

theorem respects_newContext (target callingInstance callingMethod targetMethod trace
    arguments : Value) : (Machine.newContext target callingInstance callingMethod targetMethod trace
      arguments).Respects P := by
  unfold Machine.newContext
  exact (respects_methodOf _ _).bind fun _ => (respects_methodOf _ _).bind fun _ =>
    (respects_traceOf _ _).bind fun _ => (respects_elementsOf _ _).bind fun _ => .act _

/-- Substitutes and providers are consulted, and contexts and traces are made. -/
theorem respects_intrinsic (i : Intrinsic) (receiver : Option Value) (arguments : List Value) :
    (m.intrinsic i receiver arguments).Respects P := by
  unfold Machine.intrinsic
  split
  · exact respects_chooseProvider _ _
  · exact respects_callMapFor m _ _ _ _ _
  · exact .get_bind fun _ => .act _
  · exact respects_containsMapping _ _
  · exact respects_substituteFor _ _
  · exact respects_invokeSubstitute _ _
  · exact respects_newContext _ _ _ _ _ _
  · exact .pure _
  · exact .pure _
  · exact .fault _

end Intrinsics

section Congruence

/-- A relation between computations that holds of each computation that changes the state in a
tolerated way and itself, and that sequences respect. -/
structure Run.Congruence (P : MachineState → MachineState → Prop)
    (R : (α : Type) → Run α → Run α → Prop) : Prop where
  refl {α : Type} {x : Run α} : x.Respects P → R α x x
  bind {α β : Type} {x y : Run α} {k l : α → Run β} :
    R α x y → (∀ a, R β (k a) (l a)) → R β (x >>= k) (y >>= l)

namespace Run.Congruence

variable {R : (α : Type) → Run α → Run α → Prop}

/-- Computations of a running method that are related wherever they are started. -/
private def Steps (R : (α : Type) → Run α → Run α → Prop) {α : Type} (x y : Step α) : Prop :=
  ∀ f, R (α × Frame) (x.run f) (y.run f)

variable (rel : Run.Congruence P R)

include rel

omit [Indifferent P] in
private theorem stepsRefl {α : Type} {x : Step α} (h : x.Respects P) : Steps R x x :=
  fun f => rel.refl (h f)

omit [Indifferent P] in
private theorem stepsBind {α β : Type} {x y : Step α} {k l : α → Step β} (h : Steps R x y)
    (h' : ∀ a, Steps R (k a) (l a)) : Steps R (x >>= k) (y >>= l) :=
  fun f => rel.bind (h f) fun out => h' out.1 out.2

private theorem stepsLift {α : Type} {x y : Run α} (h : R α x y) :
    Steps R (liftM x : Step α) (liftM y) :=
  fun f => rel.bind h fun a => rel.refl (.pure (a, f))

variable {m : Machine} {execute execute' : Executor}
  (agree : ∀ token method arguments,
    R Value (execute token method arguments) (execute' token method arguments))

include agree

/-- Calls are related if the methods of the module are that they run. -/
theorem dispatch (method : Method) (receiver : Option Value) (arguments : List Value)
    (isVirtual : Bool) : R Value (m.dispatch execute method receiver arguments isVirtual)
      (m.dispatch execute' method receiver arguments isVirtual) := by
  have start : (m.startType method receiver isVirtual).Respects P := by
    unfold Machine.startType
    split
    · exact .ite (.fault _) (.ite (.of_same fun _ => rfl) (.pure _))
    · exact .pure _
  unfold Machine.dispatch
  split
  · exact rel.refl (respects_intrinsic m _ _ _)
  · refine rel.bind (rel.refl start) fun type => ?_
    split
    · exact rel.bind (rel.refl (.of_result _)) fun callee => agree _ _ _
    · split
      · exact rel.refl (.act _)
      · exact rel.refl (.fault _)

private theorem call (i : Instruction) (isVirtual : Bool) :
    Steps R (m.call execute i isVirtual) (m.call execute' i isVirtual) := by
  unfold Machine.call
  refine rel.stepsBind (rel.stepsRefl (respects_tokenOf i)) fun token =>
    rel.stepsBind (rel.stepsRefl (respects_methodFor m token)) fun method =>
      rel.stepsBind (rel.stepsRefl (respects_popArguments method)) fun arguments => ?_
  have last (receiver : Option Value) : Steps R
      (liftM (m.dispatch execute method receiver arguments isVirtual) >>= fun result =>
        if method.returnType ≠ .void && !method.isConstructor then
          Step.push (result.adaptTo method.returnType) else pure ())
      (liftM (m.dispatch execute' method receiver arguments isVirtual) >>= fun result =>
        if method.returnType ≠ .void && !method.isConstructor then
          Step.push (result.adaptTo method.returnType) else pure ()) :=
    rel.stepsBind (rel.stepsLift (rel.dispatch agree method _ _ _)) fun _ =>
      rel.stepsRefl (.ite (respects_push _) (.pure _))
  dsimp only
  split
  · exact rel.stepsBind (rel.stepsRefl (respects_pop.map some)) last
  · exact rel.stepsBind (rel.stepsRefl (.pure none)) last

private theorem construct (i : Instruction) :
    Steps R (m.construct execute i) (m.construct execute' i) := by
  unfold Machine.construct
  refine rel.stepsBind (rel.stepsRefl (respects_tokenOf i)) fun token =>
    rel.stepsBind (rel.stepsRefl (respects_methodFor m token)) fun method =>
      rel.stepsBind (rel.stepsRefl (respects_popArguments method)) fun arguments => ?_
  split
  · exact rel.stepsRefl (.bind (.lift (respects_intrinsic m _ _ _)) fun _ => respects_push _)
  · exact rel.stepsBind (rel.stepsRefl (.act _)) fun object =>
      rel.stepsBind (rel.stepsLift (rel.dispatch agree method _ _ _)) fun _ =>
        rel.stepsRefl (respects_push _)

/-- What instructions do that control leaves for the one behind them. -/
private theorem effect (i : Instruction) : Steps R (m.effect execute i) (m.effect execute' i) := by
  have constant : (Machine.loadConstant i).Respects P := respects_loadConstant i
  obtain ⟨offset, op, operand⟩ := i
  cases op with
  | call | callvirt => exact rel.call agree _ _
  | newobj => exact rel.construct agree _
  | ldarg0 | ldarg1 | ldarg2 | ldarg3 | ldargS | ldarg =>
    exact rel.stepsRefl ((respects_expecting _ _ _).bind fun _ => respects_loadArgument _)
  | stargS | starg =>
    exact rel.stepsRefl ((respects_expecting _ _ _).bind fun _ => respects_storeArgument _)
  | ldloc0 | ldloc1 | ldloc2 | ldloc3 | ldlocS | ldloc =>
    exact rel.stepsRefl ((respects_expecting _ _ _).bind fun _ => respects_loadLocal _)
  | stloc0 | stloc1 | stloc2 | stloc3 | stlocS | stloc =>
    exact rel.stepsRefl ((respects_expecting _ _ _).bind fun _ => respects_storeLocal _)
  | ldnull => exact rel.stepsRefl (respects_push _)
  | ldcI4M1 | ldcI40 | ldcI41 | ldcI42 | ldcI43 | ldcI44 | ldcI45 | ldcI46 | ldcI47 | ldcI48
  | ldcI4S | ldcI4 | ldcI8 | ldcR8 => exact rel.stepsRefl constant
  | dup => exact rel.stepsRefl (respects_peek.bind fun _ => respects_push _)
  | pop => exact rel.stepsRefl (respects_pop.bind fun _ => .pure _)
  | add | sub | mul | div | rem | andOp | orOp | xor => exact rel.stepsRefl (respects_arithmetic _)
  | neg | notOp | convI4 | convI8 | convR8 => exact rel.stepsRefl (respects_unary _ _)
  | ceq | cgt | clt => exact rel.stepsRefl ((respects_comparison _).bind fun _ => respects_push _)
  | ldstr =>
    exact rel.stepsRefl ((respects_tokenOf _).bind fun _ => (Step.Respects.of_result _).bind
      fun _ => respects_push _)
  | castclass => exact rel.stepsRefl (respects_cast m _ fun _ _ => .act _)
  | isinst => exact rel.stepsRefl (respects_cast m _ fun _ _ => .pure _)
  | ldfld => exact rel.stepsRefl (respects_loadField m _)
  | stfld => exact rel.stepsRefl (respects_storeField m _)
  | ldsfld => exact rel.stepsRefl (respects_loadStatic m _)
  | stsfld => exact rel.stepsRefl (respects_storeStatic m _)
  | box => exact rel.stepsRefl (respects_box m _)
  | unboxAny => exact rel.stepsRefl (respects_unbox m _)
  | newarr => exact rel.stepsRefl (respects_newArray m _)
  | ldlen => exact rel.stepsRefl respects_loadLength
  | ldelemRef => exact rel.stepsRefl respects_loadElement
  | stelemRef => exact rel.stepsRefl respects_storeElement
  | ldtoken => exact rel.stepsRefl (respects_loadToken m _)
  | nop => exact rel.stepsRefl (.pure ())
  | _ => exact rel.stepsRefl (.fault _)

/-- Instructions are related if the methods of the module are that they run. -/
theorem step (i : Instruction) (f : Frame) :
    R (Control × Frame) ((m.step execute i).run f) ((m.step execute' i).run f) := by
  have ordinary : Steps R (m.effect execute i >>= fun _ => pure Control.next)
      (m.effect execute' i >>= fun _ => pure Control.next) :=
    rel.stepsBind (rel.effect agree i) fun _ => rel.stepsRefl (.pure _)
  have jumps (c : Comparison) : (Step.comparison c >>= Step.jumpIf i).Respects P :=
    (respects_comparison c).bind fun _ => respects_jumpIf i _
  revert f
  show Steps R (m.step execute i) (m.step execute' i)
  obtain ⟨offset, op, operand⟩ := i
  cases op with
  | br | brS => exact rel.stepsRefl ((respects_expecting _ _ _).bind fun _ => .pure _)
  | brfalse | brfalseS | brtrue | brtrueS =>
    exact rel.stepsRefl (respects_pop.bind fun _ => respects_jumpIf _ _)
  | beq | beqS | bge | bgeS | bgt | bgtS | ble | bleS | blt | bltS | bneUn | bneUnS =>
    exact rel.stepsRefl (jumps _)
  | ret => exact rel.stepsRefl respects_finish
  | throw => exact rel.stepsRefl respects_throwTop
  | _ => exact ordinary

end Run.Congruence

/-- The relation holds across an instruction if it does across the methods that are called. -/
theorem respects_step {m : Machine} {execute : Executor}
    (h : ∀ token method arguments, (execute token method arguments).Respects P) (i : Instruction) :
    (m.step execute i).Respects P := by
  have alone : Run.Congruence P fun _ x _ => x.Respects P := ⟨id, fun h h' => h.bind h'⟩
  exact @Run.Congruence.step P _ _ alone m execute execute h i

end Congruence

end Interpose
