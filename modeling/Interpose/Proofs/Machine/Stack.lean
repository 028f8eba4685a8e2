import Interpose.Machine.Step
import Interpose.Proofs.Outcome

/-!
# The stack and the variables of a running method

When the operations on the evaluation stack, on arguments and on local variables succeed, and what
they do then.

## Main definitions

* `Frame.callee` — the method that a token stands for in a frame

## Main results

* `yieldsWith_push`, `yieldsWith_pop`, `yieldsWith_popMany` — the evaluation stack
* `yieldsWith_loadLocal`, `yieldsWith_storeLocal` — local variables
* `yields_act`, `yields_intercept` — computations on the store and on the rules
* `yields_within` — computations with one more method on the call stack
* `yieldsWith_methodFor`, `yieldsWith_typeFor` — what tokens stand for
-/

namespace Interpose

section State

variable {α : Type} {s s' : MachineState} {a : α}

theorem yields_act {x : Act α} :
    Yields (Run.act x) s a s' ↔ ∃ store, Yields x s.store a store ∧ { s with store } = s' := by
  unfold Yields Run.act
  constructor
  · intro h
    have same : (((x.run.run s.store).1, { s with store := (x.run.run s.store).2 }) :
        Except Error α × MachineState) = (.ok a, s') := h
    exact ⟨_, Prod.ext (congrArg Prod.fst same :) rfl, congrArg Prod.snd same⟩
  · rintro ⟨store, h, rfl⟩
    show ((x.run.run s.store).1, { s with store := (x.run.run s.store).2 }) = _
    rw [h]

theorem yields_intercept {x : Intercept α} :
    Yields (Run.intercept x) s a s' ↔ ∃ rules, Yields x s.rules a rules ∧ { s with rules } = s' := by
  unfold Yields Run.intercept
  constructor
  · intro h
    have same : (((x.run.run s.rules).1, { s with rules := (x.run.run s.rules).2 }) :
        Except Error α × MachineState) = (.ok a, s') := h
    exact ⟨_, Prod.ext (congrArg Prod.fst same :) rfl, congrArg Prod.snd same⟩
  · rintro ⟨rules, h, rfl⟩
    show ((x.run.run s.rules).1, { s with rules := (x.run.run s.rules).2 }) = _
    rw [h]

theorem yields_within {method : Method} {x : Run α} :
    Yields (Run.within method x) s a s' ↔ ∃ inner,
      Yields x { s with callStack := ⟨method, 0⟩ :: s.callStack } a inner ∧
        { inner with callStack := inner.callStack.tail } = s' := by
  unfold Yields Run.within
  let entered : MachineState := { s with callStack := ⟨method, 0⟩ :: s.callStack }
  constructor
  · intro h
    have same : (((x.run.run entered).1, { (x.run.run entered).2 with
        callStack := (x.run.run entered).2.callStack.tail }) : Except Error α × MachineState) =
        (.ok a, s') := h
    exact ⟨(x.run.run entered).2, Prod.ext (congrArg Prod.fst same :) rfl, congrArg Prod.snd same⟩
  · rintro ⟨inner, h, rfl⟩
    show ((x.run.run entered).1, { (x.run.run entered).2 with
      callStack := (x.run.run entered).2.callStack.tail }) = _
    rw [show x.run.run entered = (.ok a, inner) from h]

end State

variable {α : Type} {f f' : Frame} {s s' : MachineState} {value : Value} {a : α}

theorem yieldsWith_fault {fault : Fault} :
    YieldsWith (Step.fault fault : Step α) f s a f' s' ↔ False := yieldsWith_throw

theorem yieldsWith_act {x : Act α} :
    YieldsWith (Step.act x) f s a f' s' ↔
      ∃ store, Yields x s.store a store ∧ f = f' ∧ { s with store } = s' := by
  unfold Step.act
  rw [yieldsWith_lift, yields_act]
  constructor
  · rintro ⟨⟨store, act, state⟩, frame⟩
    exact ⟨store, act, frame, state⟩
  · rintro ⟨store, act, frame, state⟩
    exact ⟨⟨store, act, state⟩, frame⟩

theorem yieldsWith_push {u : Unit} :
    YieldsWith (Step.push value) f s u f' s' ↔
      f.stack.length < f.maxStack ∧ { f with stack := value :: f.stack } = f' ∧ s = s' := by
  unfold Step.push Step.fault
  rw [yieldsWith_get_bind, yieldsWith_guard, yieldsWith_set, Nat.not_le]

theorem yieldsWith_pop :
    YieldsWith Step.pop f s value f' s' ↔
      f.stack = value :: f'.stack ∧ { f with stack := f'.stack } = f' ∧ s = s' := by
  unfold Step.pop
  rw [yieldsWith_get_bind]
  cases stack : f.stack with
  | nil => simp [yieldsWith_fault]
  | cons top below =>
    simp only [yieldsWith_set_bind, yieldsWith_pure, List.cons.injEq]
    constructor
    · rintro ⟨rfl, rfl, rfl⟩
      exact ⟨⟨rfl, rfl⟩, rfl, rfl⟩
    · rintro ⟨⟨rfl, rfl⟩, frame, rfl⟩
      exact ⟨rfl, frame, rfl⟩

theorem yieldsWith_peek :
    YieldsWith Step.peek f s value f' s' ↔ f.stack.head? = some value ∧ f = f' ∧ s = s' := by
  unfold Step.peek
  rw [yieldsWith_get_bind]
  cases stack : f.stack with
  | nil => simp [yieldsWith_fault]
  | cons top below => simp [yieldsWith_pure]

theorem yieldsWith_popMany {count : Nat} {values : List Value} :
    YieldsWith (Step.popMany count) f s values f' s' ↔
      count ≤ f.stack.length ∧ (f.stack.take count).reverse = values ∧
        { f with stack := f.stack.drop count } = f' ∧ s = s' := by
  unfold Step.popMany Step.fault
  rw [yieldsWith_get_bind, yieldsWith_guard, yieldsWith_set_bind, yieldsWith_pure, Nat.not_lt]

theorem yieldsWith_loadArgument {index : Nat} {u : Unit} :
    YieldsWith (Step.loadArgument index) f s u f' s' ↔
      ∃ value, f.arguments[index]? = some value ∧ YieldsWith (Step.push value) f s u f' s' := by
  unfold Step.loadArgument
  rw [yieldsWith_get_bind]
  cases f.arguments[index]? with
  | none => simp [yieldsWith_fault]
  | some value => simp

theorem yieldsWith_loadLocal {index : Nat} {u : Unit} :
    YieldsWith (Step.loadLocal index) f s u f' s' ↔
      ∃ value, f.locals[index]? = some value ∧ YieldsWith (Step.push value) f s u f' s' := by
  unfold Step.loadLocal
  rw [yieldsWith_get_bind]
  cases f.locals[index]? with
  | none => simp [yieldsWith_fault]
  | some value => simp

theorem yieldsWith_storeLocal {index : Nat} {u : Unit} :
    YieldsWith (Step.storeLocal index) f s u f' s' ↔ ∃ value f₁,
      YieldsWith Step.pop f s value f₁ s ∧ index < f₁.locals.size ∧
        { f₁ with locals := f₁.locals.setIfInBounds index value } = f' ∧ s = s' := by
  unfold Step.storeLocal
  rw [yieldsWith_bind]
  constructor
  · rintro ⟨value, f₁, s₁, popped, h⟩
    obtain ⟨-, -, rfl⟩ := yieldsWith_pop.mp popped
    rw [yieldsWith_get_bind] at h
    split at h
    case isTrue inside =>
      obtain ⟨rfl, rfl⟩ := yieldsWith_set.mp h
      exact ⟨value, f₁, popped, inside, rfl, rfl⟩
    case isFalse => exact (yieldsWith_fault.mp h).elim
  · rintro ⟨value, f₁, popped, inside, rfl, rfl⟩
    refine ⟨value, f₁, s, popped, ?_⟩
    rw [yieldsWith_get_bind, if_pos inside]
    exact yieldsWith_set.mpr ⟨rfl, rfl⟩

/-- The method that a token stands for in a frame, given the method that it stands for in the
module. -/
def Frame.callee (f : Frame) (token : Token) (method : Method) : Method :=
  if token.isIn .methodDef then method.closeDeclaring else f.closeCall method.closeDeclaring

section Tokens

variable {m : Machine} {token : Token} {method : Method} {f f' : Frame} {s s' : MachineState}

theorem yieldsWith_methodFor {t : Method} :
    YieldsWith (m.methodFor token) f s t f' s' ↔ ∃ method, m.module.methodAt token = .ok method ∧
      f.callee token method = t ∧ f = f' ∧ s = s' := by
  unfold Machine.methodFor
  rw [yieldsWith_liftM_bind]
  refine exists_congr fun method => and_congr_right fun _ => ?_
  rw [yieldsWith_get_bind, Frame.callee]
  cases token.isIn .methodDef <;> exact yieldsWith_pure

theorem yieldsWith_typeFor {type : Ty} :
    YieldsWith (m.typeFor token) f s type f' s' ↔ ∃ open', m.module.typeAt token = .ok open' ∧
      f.close open' = type ∧ f = f' ∧ s = s' := by
  unfold Machine.typeFor
  rw [yieldsWith_liftM_bind]
  refine exists_congr fun open' => and_congr_right fun _ => ?_
  rw [yieldsWith_get_bind, yieldsWith_pure]

end Tokens

end Interpose
