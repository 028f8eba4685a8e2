import Interpose.Proofs.Machine.Plain

/-!
# Computations that mirror each other

Code may be run in frames that are wider than they have to be, and with limits that are higher.  A
computation mirrors another one if it has the same outcome under such conditions, provided that the
other one succeeds.  What the two are started with agrees in all but the numbers and offsets of
instructions, and in the rules, which the mirrored computation does not change.

## Main definitions

* `ForEnough` — something holds for all limits that are high enough
* `RunSetting`, `RunSetting.Agrees` — the states in which two computations are run
* `RunSetting.Mirrors` — a computation mirrors another one
* `Frame.widen`, `Frame.Becomes` — wider frames, and what stays of a frame
* `RunSetting.MirrorsIn` — a computation of a running method mirrors another one

## Main results

* `Mirrors.bind`, `MirrorsIn.bind` — sequences mirror each other if their members do
* `mirrors_push`, `mirrors_pop`, `mirrors_loadLocal` and others — the stack and the variables
-/

namespace Interpose

/-- A property of a limit on instructions and of fuel holds for all that are high enough. -/
def ForEnough (P : Nat → Nat → Prop) : Prop := ∃ n, ∀ limit fuel, n ≤ limit → n ≤ fuel → P limit fuel

namespace ForEnough

variable {P Q : Nat → Nat → Prop}

theorem of_forall (h : ∀ limit fuel, P limit fuel) : ForEnough P :=
  ⟨0, fun limit fuel _ _ => h limit fuel⟩

theorem and (h : ForEnough P) (h' : ForEnough Q) :
    ForEnough fun limit fuel => P limit fuel ∧ Q limit fuel := by
  obtain ⟨n, h⟩ := h
  obtain ⟨n', h'⟩ := h'
  refine ⟨max n n', fun limit fuel high much => ?_⟩
  exact ⟨h limit fuel (Nat.le_trans (Nat.le_max_left n n') high)
      (Nat.le_trans (Nat.le_max_left n n') much),
    h' limit fuel (Nat.le_trans (Nat.le_max_right n n') high)
      (Nat.le_trans (Nat.le_max_right n n') much)⟩

theorem imp (h : ForEnough P) (h' : ∀ limit fuel, P limit fuel → Q limit fuel) : ForEnough Q := by
  obtain ⟨n, h⟩ := h
  exact ⟨n, fun limit fuel high much => h' limit fuel (h limit fuel high much)⟩

end ForEnough

/-- What is fixed while two computations are compared: the module that is run, and the rules that
are in force where its code is mirrored. -/
structure RunSetting where
  module : Module
  rules : Rules

namespace RunSetting

/-- The states in which two computations are run. -/
structure Agrees (w : RunSetting) (s s' : MachineState) : Prop where
  store_eq : s'.store = s.store
  statics_eq : s'.statics = s.statics
  rules_eq : s'.rules = w.rules
  depth_eq : s'.callStack.length = s.callStack.length
  fit : s.store.FitFor w.module

/-- If the first computation succeeds, then so does the second one, and with the same outcome,
provided that the limits are high enough. -/
def Mirrors {α : Type} (w : RunSetting) (x : Run α) (y : Nat → Nat → Run α) : Prop :=
  ∀ ⦃s s' a s₁⦄, w.Agrees s s' → Yields x s a s₁ → ∃ s₁', w.Agrees s₁ s₁' ∧
    ForEnough fun limit fuel => Yields (y limit fuel) s' a s₁'

namespace Mirrors

variable {w : RunSetting} {α β : Type} {x : Run α} {y : Nat → Nat → Run α} {k : α → Run β}
  {l : Nat → Nat → α → Run β}

theorem pure (a : α) : w.Mirrors (pure a) fun _ _ => pure a := by
  intro s s' a' s₁ agrees yields
  obtain ⟨rfl, rfl⟩ := yields_pure.mp yields
  exact ⟨s', agrees, .of_forall fun _ _ => yields_pure.mpr ⟨rfl, rfl⟩⟩

/-- The second members of sequences are compared where the first one has succeeded. -/
theorem bind_of_yields (h : w.Mirrors x y)
    (h' : ∀ a s s₁, s.store.FitFor w.module → Yields x s a s₁ →
      w.Mirrors (k a) fun limit fuel => l limit fuel a) :
    w.Mirrors (x >>= k) fun limit fuel => y limit fuel >>= l limit fuel := by
  intro s s' b s₂ agrees yields
  obtain ⟨a, s₁, first, second⟩ := yields_bind.mp yields
  obtain ⟨s₁', agrees₁, first'⟩ := h agrees first
  obtain ⟨s₂', agrees₂, second'⟩ := h' a s s₁ agrees.fit first agrees₁ second
  exact ⟨s₂', agrees₂, (first'.and second').imp fun _ _ both => both.1.bind both.2⟩

/-- A computation that never succeeds is mirrored by any other. -/
theorem of_fails (h : ∀ s a s', ¬ Yields x s a s') : w.Mirrors x y :=
  fun s _ a s₁ _ yields => absurd yields (h s a s₁)

/-- Results that are known already. -/
theorem of_result {known known' : Except Error α} (h : ∀ a, known = .ok a → known' = .ok a) :
    w.Mirrors (liftM known) fun _ _ => liftM known' := by
  intro s s' a s₁ agrees yields
  obtain ⟨found, rfl⟩ := yields_liftM.mp yields
  exact ⟨s', agrees, .of_forall fun _ _ => yields_liftM.mpr ⟨h a found, rfl⟩⟩

theorem act {x : Act α} (keeps : w.module.CallsOpen → x.KeepsPlain) :
    w.Mirrors (Run.act x) fun _ _ => Run.act x := by
  intro s s' a s₁ agrees yields
  obtain ⟨store, done, rfl⟩ := yields_act.mp yields
  refine ⟨{ s' with store }, ⟨rfl, agrees.statics_eq, agrees.rules_eq, agrees.depth_eq,
    fun callsOpen => ?_⟩, .of_forall fun _ _ => yields_act.mpr ⟨store, ?_, rfl⟩⟩
  · exact keeps callsOpen s.store a store (agrees.fit callsOpen) done
  · rwa [agrees.store_eq]

theorem typeOf (value : Value) : w.Mirrors (Run.typeOf value) fun _ _ => Run.typeOf value := by
  intro s s' type s₁ agrees yields
  obtain ⟨rfl, rfl⟩ := yields_pure.mp yields
  refine ⟨s', agrees, .of_forall fun _ _ => yields_pure.mpr ⟨?_, rfl⟩⟩
  rw [agrees.store_eq]

theorem static (token : Token) (type : Ty) :
    w.Mirrors (Run.static token type) fun _ _ => Run.static token type := by
  intro s s' value s₁ agrees yields
  obtain ⟨rfl, rfl⟩ := yields_pure.mp yields
  refine ⟨s', agrees, .of_forall fun _ _ => yields_pure.mpr ⟨?_, rfl⟩⟩
  rw [agrees.statics_eq]

theorem setStatic (token : Token) (value : Value) :
    w.Mirrors (Run.setStatic token value) fun _ _ => Run.setStatic token value := by
  intro s s' u s₁ agrees yields
  obtain rfl := yields_modify.mp yields
  refine ⟨{ s' with statics := (token, value) :: s'.statics.filter fun entry => entry.1 ≠ token },
    ⟨agrees.store_eq, ?_, agrees.rules_eq, agrees.depth_eq, agrees.fit⟩,
    .of_forall fun _ _ => yields_modify.mpr rfl⟩
  simp only [agrees.statics_eq]

/-- A method is taken off the call stack again. -/
theorem within (method : Method) (h : w.Mirrors x y) :
    w.Mirrors (Run.within method x) fun limit fuel => Run.within method (y limit fuel) := by
  intro s s' a s₁ agrees yields
  obtain ⟨inner, done, rfl⟩ := yields_within.mp yields
  have entered : w.Agrees { s with callStack := ⟨method, 0⟩ :: s.callStack }
      { s' with callStack := ⟨method, 0⟩ :: s'.callStack } := by
    refine ⟨agrees.store_eq, agrees.statics_eq, agrees.rules_eq, ?_, agrees.fit⟩
    simp only [List.length_cons, agrees.depth_eq]
  obtain ⟨inner', agrees', done'⟩ := h entered done
  refine ⟨{ inner' with callStack := inner'.callStack.tail }, ⟨agrees'.store_eq,
    agrees'.statics_eq, agrees'.rules_eq, ?_, agrees'.fit⟩, done'.imp fun _ _ done =>
      yields_within.mpr ⟨inner', done, rfl⟩⟩
  simp only [List.length_tail, agrees'.depth_eq]

end Mirrors

end RunSetting

/-- How much wider a frame is than it has to be. -/
structure Width where
  /-- The local variables behind the others. -/
  locals : Array Value := #[]
  /-- The additional room on the stack. -/
  stack : Nat := 0

namespace Frame

/-- The frame with more local variables, and with more room on the stack. -/
def widen (f : Frame) (v : Width) : Frame :=
  { f with locals := f.locals ++ v.locals, maxStack := f.maxStack + v.stack }

@[simp] theorem widen_method (f : Frame) (v : Width) : (f.widen v).method = f.method := rfl

@[simp] theorem widen_arguments (f : Frame) (v : Width) : (f.widen v).arguments = f.arguments := rfl

@[simp] theorem widen_stack (f : Frame) (v : Width) : (f.widen v).stack = f.stack := rfl

/-- What stays of a frame while instructions are run in it. -/
structure Becomes (f f' : Frame) : Prop where
  method_eq : f'.method = f.method
  arguments_size : f'.arguments.size = f.arguments.size
  locals_size : f'.locals.size = f.locals.size
  maxStack_eq : f'.maxStack = f.maxStack
  fits : f.stack.length ≤ f.maxStack → f'.stack.length ≤ f'.maxStack

namespace Becomes

theorem refl (f : Frame) : f.Becomes f := ⟨rfl, rfl, rfl, rfl, id⟩

theorem trans {f f' f'' : Frame} (h : f.Becomes f') (h' : f'.Becomes f'') : f.Becomes f'' where
  method_eq := h'.method_eq.trans h.method_eq
  arguments_size := h'.arguments_size.trans h.arguments_size
  locals_size := h'.locals_size.trans h.locals_size
  maxStack_eq := h'.maxStack_eq.trans h.maxStack_eq
  fits := fun fits => h'.fits (h.fits fits)

/-- Another stack that is not longer. -/
theorem of_stack {f : Frame} {stack : List Value} (h : stack.length ≤ f.stack.length) :
    f.Becomes { f with stack } := ⟨rfl, rfl, rfl, rfl, Nat.le_trans h⟩

end Becomes

end Frame

/-- A computation of a running method never succeeds. -/
def Step.Fails {α : Type} (x : Step α) : Prop := ∀ f s a f' s', ¬ YieldsWith x f s a f' s'

namespace Step.Fails

variable {α β : Type}

theorem fault (cause : Fault) : (Step.fault cause : Step α).Fails :=
  fun _ _ _ _ _ => yieldsWith_fault.mp

theorem bind {x : Step α} {k : α → Step β} (h : ∀ a, (k a).Fails) : (x >>= k).Fails := by
  intro f s b f'' s'' yields
  obtain ⟨a, f', s', -, second⟩ := yieldsWith_bind.mp yields
  exact h a _ _ _ _ _ second

/-- What is behind a failure does not matter. -/
theorem bind_left {x : Step α} {k : α → Step β} (h : x.Fails) : (x >>= k).Fails := by
  intro f s b f'' s'' yields
  obtain ⟨a, f', s', first, -⟩ := yieldsWith_bind.mp yields
  exact h _ _ _ _ _ first

theorem mismatch (operation found : String) : (Step.mismatch operation found : Step α).Fails :=
  fault _

theorem wrongOperand (i : Instruction) (expected : String) :
    (Step.wrongOperand i expected : Step α).Fails := fault _

end Step.Fails

namespace RunSetting

/-- If the first computation succeeds in a frame, then so does the second one in the wider frame,
and with the same outcome, provided that the limits are high enough. -/
def MirrorsIn {α : Type} (w : RunSetting) (v : Width) (f : Frame) (x : Step α)
    (y : Nat → Nat → Step α) : Prop :=
  ∀ ⦃s s' a f₁ s₁⦄, w.Agrees s s' → YieldsWith x f s a f₁ s₁ → f.Becomes f₁ ∧
    ∃ s₁', w.Agrees s₁ s₁' ∧
      ForEnough fun limit fuel => YieldsWith (y limit fuel) (f.widen v) s' a (f₁.widen v) s₁'

namespace MirrorsIn

variable {w : RunSetting} {v : Width} {f : Frame} {α β : Type} {x : Step α} {y : Nat → Nat → Step α}
  {k : α → Step β} {l : Nat → Nat → α → Step β}

/-- Computations that change the frame alone. -/
theorem of_frame {y : Step α} (h : ∀ s a f₁ s₁, YieldsWith x f s a f₁ s₁ → s = s₁ ∧
    f.Becomes f₁ ∧ ∀ s', YieldsWith y (f.widen v) s' a (f₁.widen v) s') :
    w.MirrorsIn v f x fun _ _ => y := by
  intro s s' a f₁ s₁ agrees yields
  obtain ⟨rfl, becomes, yields'⟩ := h s a f₁ s₁ yields
  exact ⟨becomes, s', agrees, .of_forall fun _ _ => yields' s'⟩

theorem pure (a : α) : w.MirrorsIn v f (pure a) fun _ _ => pure a := by
  refine of_frame fun s a' f₁ s₁ yields => ?_
  obtain ⟨rfl, rfl, rfl⟩ := yieldsWith_pure.mp yields
  exact ⟨rfl, .refl f, fun s' => yieldsWith_pure.mpr ⟨rfl, rfl, rfl⟩⟩

/-- The second members of sequences are compared where the first one has succeeded. -/
theorem bind_of_yields (h : w.MirrorsIn v f x y)
    (h' : ∀ a f₁ s s₁, f.Becomes f₁ → YieldsWith x f s a f₁ s₁ →
      w.MirrorsIn v f₁ (k a) fun limit fuel => l limit fuel a) :
    w.MirrorsIn v f (x >>= k) fun limit fuel => y limit fuel >>= l limit fuel := by
  intro s s' b f₂ s₂ agrees yields
  obtain ⟨a, f₁, s₁, first, second⟩ := yieldsWith_bind.mp yields
  obtain ⟨becomes₁, s₁', agrees₁, first'⟩ := h agrees first
  obtain ⟨becomes₂, s₂', agrees₂, second'⟩ := h' a f₁ s s₁ becomes₁ first agrees₁ second
  refine ⟨becomes₁.trans becomes₂, s₂', agrees₂, ?_⟩
  exact (first'.and second').imp fun _ _ both => both.1.bind both.2

theorem bind (h : w.MirrorsIn v f x y) (h' : ∀ a f₁, f.Becomes f₁ →
    w.MirrorsIn v f₁ (k a) fun limit fuel => l limit fuel a) :
    w.MirrorsIn v f (x >>= k) fun limit fuel => y limit fuel >>= l limit fuel :=
  h.bind_of_yields fun a f₁ _ _ becomes _ => h' a f₁ becomes

/-- A computation that never succeeds is mirrored by any other. -/
theorem of_fails (h : x.Fails) : w.MirrorsIn v f x y :=
  fun s _ a f₁ s₁ _ yields => absurd yields (h f s a f₁ s₁)

/-- A computation that knows nothing of the frame. -/
theorem lift {x : Run α} {y : Nat → Nat → Run α} (h : w.Mirrors x y) :
    w.MirrorsIn v f (liftM x) fun limit fuel => liftM (y limit fuel) := by
  intro s s' a f₁ s₁ agrees yields
  obtain ⟨done, rfl⟩ := yieldsWith_lift.mp yields
  obtain ⟨s₁', agrees₁, done'⟩ := h agrees done
  exact ⟨.refl f, s₁', agrees₁, done'.imp fun _ _ done => yieldsWith_lift.mpr ⟨done, rfl⟩⟩

/-- Results that are known already. -/
theorem of_result {known known' : Except Error α} (h : ∀ a, known = .ok a → known' = .ok a) :
    w.MirrorsIn v f (liftM known) fun _ _ => liftM known' := by
  refine of_frame fun s a f₁ s₁ yields => ?_
  obtain ⟨found, rfl, rfl⟩ := yieldsWith_liftM.mp yields
  exact ⟨rfl, .refl f, fun s' => yieldsWith_liftM.mpr ⟨h a found, rfl, rfl⟩⟩

/-- What depends on the frame is mirrored in the wider frame. -/
theorem get_bind {k : Frame → Step β} {l : Nat → Nat → Frame → Step β}
    (h : w.MirrorsIn v f (k f) fun limit fuel => l limit fuel (f.widen v)) :
    w.MirrorsIn v f (get >>= k) fun limit fuel => get >>= l limit fuel := h

theorem act {x : Act α} (keeps : w.module.CallsOpen → x.KeepsPlain) :
    w.MirrorsIn v f (Step.act x) fun _ _ => Step.act x := lift (.act keeps)

theorem ite {c : Prop} [Decidable c] {x' : Step α} {y' : Nat → Nat → Step α}
    (h : w.MirrorsIn v f x y) (h' : w.MirrorsIn v f x' y') :
    w.MirrorsIn v f (if c then x else x') fun limit fuel =>
      if c then y limit fuel else y' limit fuel := by
  by_cases holds : c
  · simpa only [if_pos holds] using h
  · simpa only [if_neg holds] using h'

end MirrorsIn

section Variables

variable {w : RunSetting} {v : Width} {f : Frame}

theorem mirrors_push (value : Value) : w.MirrorsIn v f (Step.push value) fun _ _ => Step.push value := by
  refine .of_frame fun s u f₁ s₁ yields => ?_
  obtain ⟨room, rfl, rfl⟩ := yieldsWith_push.mp yields
  refine ⟨rfl, ⟨rfl, rfl, rfl, rfl, fun _ => room⟩, fun s' => yieldsWith_push.mpr ⟨?_, rfl, rfl⟩⟩
  exact Nat.lt_add_right v.stack room

theorem mirrors_pop : w.MirrorsIn v f Step.pop fun _ _ => Step.pop := by
  refine .of_frame fun s value f₁ s₁ yields => ?_
  obtain ⟨top, same, rfl⟩ := yieldsWith_pop.mp yields
  have shorter : f₁.stack.length ≤ f.stack.length := by simp [top]
  have becomes : f.Becomes { f with stack := f₁.stack } := .of_stack shorter
  refine ⟨rfl, same ▸ becomes, fun s' => yieldsWith_pop.mpr ⟨top, ?_, rfl⟩⟩
  exact congrArg (·.widen v) same

theorem mirrors_peek : w.MirrorsIn v f Step.peek fun _ _ => Step.peek := by
  refine .of_frame fun s value f₁ s₁ yields => ?_
  obtain ⟨top, rfl, rfl⟩ := yieldsWith_peek.mp yields
  exact ⟨rfl, .refl f, fun s' => yieldsWith_peek.mpr ⟨top, rfl, rfl⟩⟩

theorem mirrors_popMany (count : Nat) :
    w.MirrorsIn v f (Step.popMany count) fun _ _ => Step.popMany count := by
  refine .of_frame fun s values f₁ s₁ yields => ?_
  obtain ⟨enough, rfl, rfl, rfl⟩ := yieldsWith_popMany.mp yields
  refine ⟨rfl, .of_stack ?_, fun s' => yieldsWith_popMany.mpr ⟨enough, rfl, rfl, rfl⟩⟩
  simp

theorem mirrors_loadArgument (index : Nat) :
    w.MirrorsIn v f (Step.loadArgument index) fun _ _ => Step.loadArgument index := by
  unfold Step.loadArgument
  refine .get_bind ?_
  rw [Frame.widen_arguments]
  cases f.arguments[index]? with
  | none => exact .of_fails (.fault _)
  | some value => exact mirrors_push value

theorem mirrors_storeArgument (index : Nat) :
    w.MirrorsIn v f (Step.storeArgument index) fun _ _ => Step.storeArgument index := by
  unfold Step.storeArgument
  refine mirrors_pop.bind fun value f₁ _ => .get_bind (.ite (.of_frame fun s u f₂ s₂ yields => ?_)
    (.of_fails (.fault _)))
  obtain ⟨rfl, rfl⟩ := yieldsWith_set.mp yields
  refine ⟨rfl, ⟨rfl, ?_, rfl, rfl, id⟩, fun s' => yieldsWith_set.mpr ⟨rfl, rfl⟩⟩
  simp

theorem mirrors_loadLocal (index : Nat) :
    w.MirrorsIn v f (Step.loadLocal index) fun _ _ => Step.loadLocal index := by
  refine .of_frame fun s u f₁ s₁ yields => ?_
  obtain ⟨value, found, pushed⟩ := yieldsWith_loadLocal.mp yields
  obtain ⟨room, rfl, rfl⟩ := yieldsWith_push.mp pushed
  obtain ⟨inside, -⟩ := Array.getElem?_eq_some_iff.mp found
  refine ⟨rfl, ⟨rfl, rfl, rfl, rfl, fun _ => room⟩, fun s' => yieldsWith_loadLocal.mpr
    ⟨value, ?_, yieldsWith_push.mpr ⟨Nat.lt_add_right v.stack room, rfl, rfl⟩⟩⟩
  rw [Frame.widen, Array.getElem?_append_left inside, found]

theorem mirrors_storeLocal (index : Nat) :
    w.MirrorsIn v f (Step.storeLocal index) fun _ _ => Step.storeLocal index := by
  unfold Step.storeLocal
  refine mirrors_pop.bind fun value f₁ _ => .get_bind ?_
  intro s s' u f₂ s₂ agrees yields
  by_cases inside : index < f₁.locals.size
  · rw [if_pos inside] at yields
    obtain ⟨rfl, rfl⟩ := yieldsWith_set.mp yields
    refine ⟨⟨rfl, rfl, by simp, rfl, id⟩, s', agrees, .of_forall fun _ _ => ?_⟩
    rw [if_pos (by simp only [Frame.widen, Array.size_append]; omega)]
    refine yieldsWith_set.mpr ⟨?_, rfl⟩
    simp only [Frame.widen, Array.setIfInBounds_append_left inside]
  · rw [if_neg inside] at yields
    exact absurd yields (Step.Fails.fault _ _ _ _ _ _)

end Variables

end RunSetting

end Interpose
