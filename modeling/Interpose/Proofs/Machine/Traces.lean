import Interpose.Proofs.Machine.Preservation
import Interpose.Proofs.Machine.Running

/-!
# Stack traces

The state of a machine has a call stack.  A method is put onto it when it is entered and taken off
when it returns or fails, and every instruction notes its offset there.  This file compares the machine
with one that needs no such bookkeeping: there a method is told by its caller which methods are running,
each with the offset of the instruction that it is at.  Both do the same, so a stack trace shows what is
running.

## Main definitions

* `Step.among` — an instruction runs while the given methods are running
* `Machine.runAmong`, `Machine.executeAmong` — runs of code that are told which methods are running
* `AgreeAmong` — two computations do the same while the given methods are running
* `Tracks` — a computation inside a method does what another one does outside
* `Machine.Captures` — an instruction that captures a stack trace

## Main results

* `tracks_stepAmong` — what an instruction does while the methods are running that the call stack shows
* `Machine.tracks_runFrom` — runs of code are runs that are told which methods are running
* `traces_stepAmong` — what a stack trace captures
* `Machine.execute_among` — all of this for every method that is run
-/

namespace Interpose

/-- Runs a computation of a running method while the given methods are running, whatever the call stack
is, and leaves the call stack alone. -/
def Step.among {α : Type} (running : StackTrace) (x : Step α) : Step α := fun f s =>
  let (result, inner) := x f { s with callStack := running }
  (result, { inner with callStack := s.callStack })

theorem yieldsWith_among {α : Type} {running : StackTrace} {x : Step α} {f f' : Frame}
    {s s' : MachineState} {a : α} : YieldsWith (Step.among running x) f s a f' s' ↔ ∃ inner,
      YieldsWith x f { s with callStack := running } a f' inner ∧
        { inner with callStack := s.callStack } = s' := by
  let out := (x.run f).run.run { s with callStack := running }
  have among : ((Step.among running x).run f).run.run s =
      (out.1, { out.2 with callStack := s.callStack }) := rfl
  unfold YieldsWith Yields
  rw [among]
  constructor
  · intro same
    exact ⟨out.2, Prod.ext (congrArg Prod.fst same :) rfl, congrArg Prod.snd same⟩
  · rintro ⟨inner, same, rfl⟩
    rw [show out = _ from same]

namespace Machine

/-- Runs an instruction of a method that was entered while the methods of `outer` were running. -/
def stepAmong (m : Machine) (outer : StackTrace) (method : Method) (execute : Executor)
    (i : Instruction) : Step Control :=
  Step.among (⟨method, i.offset⟩ :: outer) do
    m.count i
    m.step execute i

/-- Enters a method while the methods of `outer` are running. -/
def enterAmong (m : Machine) (outer : StackTrace) (run : Method → Code → Step Value) : Executor :=
  fun token method arguments => do
    if m.limits.callDepth ≤ outer.length then Run.fault (.callDepth m.limits.callDepth)
    let code ← m.program.code token method.fullName
    (run method code).run' (Frame.start method arguments code)

/-- Runs the code of a method, from a position on, that was entered while the methods of `outer` were
running.  What it calls is entered while it is running itself, at the instruction that makes the
call. -/
def runAmong (m : Machine) :
    (fuel : Nat) → (outer : StackTrace) → Method → Code → (position : Nat) → Step Value
  | 0, _, _, _, _ => Step.fault (.instructionLimit m.limits.instructions)
  | fuel + 1, outer, method, code, position => do
    match code.instructions[position]? with
    | none => Step.fault (.fellThrough (← get).method.fullName)
    | some i =>
      -- To what the instruction calls, its own method is the innermost one that is running.
      let running := ⟨method, i.offset⟩ :: outer
      let execute := m.enterAmong running fun callee code => m.runAmong fuel running callee code 0
      match ← m.stepAmong outer method execute i with
      | .next => m.runAmong fuel outer method code (position + 1)
      | .jump offset => m.runAmong fuel outer method code (← positionOf code offset)
      | .finish result => return result

/-- Runs a method while the methods of `outer` are running. -/
def executeAmong (m : Machine) (fuel : Nat) (outer : StackTrace) : Executor :=
  m.enterAmong outer fun method code => m.runAmong fuel outer method code 0

/-- Invokes a method of the module, with something else that runs methods. -/
def invokeWith (m : Machine) (execute : Executor) (token : Token) (receiver : Option Value)
    (arguments : List Value) : Run Value := do
  let method ← m.module.definedMethod token
  if arguments.length ≠ method.parameters.length then
    Run.fault (.argumentIndex arguments.length method.parameters.length)
  let arguments := arguments.zipWith Value.adaptTo method.parameters
  modify fun s => { s with executed := 0, callStack := [] }
  execute token method (withReceiver method receiver arguments)

end Machine

/-- The state inside a method that is at an offset. -/
def MachineState.inside (s : MachineState) (method : Method) (offset : Nat) : MachineState :=
  { s with callStack := ⟨method, offset⟩ :: s.callStack }

theorem MachineState.inside_of_callStack {s : MachineState} {method : Method} {offset : Nat}
    {outer : StackTrace} (h : s.callStack = ⟨method, offset⟩ :: outer) :
    MachineState.inside { s with callStack := outer } method offset = s := by
  unfold inside
  rw [← h]

/-- Where the given methods are running, two computations do the same, and leave the call stack as they
found it. -/
def AgreeAmong (running : StackTrace) {α : Type} (x y : Run α) : Prop :=
  ∀ s, s.callStack = running → x.run.run s = y.run.run s ∧ (x.run.run s).2.callStack = running

/-- Inside a method that was entered while the methods of `outer` were running, a computation does what
another one does outside, but for the offset that the method is at. -/
def Tracks (outer : StackTrace) (method : Method) {α : Type} (x y : Run α) : Prop :=
  ∀ s offset, s.callStack = outer → ∃ offset',
    x.run.run (s.inside method offset) =
      ((y.run.run s).1, (y.run.run s).2.inside method offset') ∧
    (y.run.run s).2.callStack = outer

section Agreement

variable {outer running : StackTrace} {method : Method} {α β : Type} {x y : Run α} {k l : α → Run β}

theorem AgreeAmong.bind (h : AgreeAmong running x y) (h' : ∀ a, AgreeAmong running (k a) (l a)) :
    AgreeAmong running (x >>= k) (y >>= l) := by
  intro s here
  obtain ⟨same, kept⟩ := h s here
  rw [ExceptT.run_bind, ExceptT.run_bind, StateT.run_bind, StateT.run_bind, ← same]
  revert kept
  rcases x.run.run s with ⟨result, s₁⟩
  intro kept
  cases result with
  | ok a => exact h' a s₁ kept
  | error e => exact ⟨rfl, kept⟩

/-- The call stack is left alone by what instructions do by themselves. -/
private instance : Indifferent fun s s' => s'.callStack = s.callStack where
  refl _ := rfl
  trans first second := second.trans first
  store _ _ := rfl
  statics _ _ := rfl
  provider _ _ _ := rfl
  callMap _ _ _ _ := rfl

private theorem congruence_agreeAmong (running : StackTrace) :
    Run.Congruence (fun s s' => s'.callStack = s.callStack) fun _ => AgreeAmong running where
  refl respects s here := ⟨rfl, (respects s).trans here⟩
  bind := .bind

theorem Tracks.bind (h : Tracks outer method x y) (h' : ∀ a, Tracks outer method (k a) (l a)) :
    Tracks outer method (x >>= k) (y >>= l) := by
  intro s offset here
  obtain ⟨offset₁, same, kept⟩ := h s offset here
  rw [ExceptT.run_bind, ExceptT.run_bind, StateT.run_bind, StateT.run_bind, same]
  revert kept
  rcases y.run.run s with ⟨result, s₁⟩
  intro kept
  cases result with
  | ok a => exact h' a s₁ offset₁ kept
  | error e => exact ⟨offset₁, rfl, kept⟩

/-- What changes nothing may be done inside as well as outside. -/
theorem Tracks.of_same {result : Except Error α} (h : ∀ s, x.run.run s = (result, s)) :
    Tracks outer method x x := by
  intro s offset here
  rw [h, h]
  exact ⟨offset, rfl, here⟩

theorem Tracks.pure (a : α) : Tracks outer method (pure a : Run α) (pure a) := .of_same fun _ => rfl

/-- A method is put onto the call stack for as long as it runs. -/
theorem Tracks.within (h : Tracks outer method x y) : AgreeAmong outer (Run.within method x) y := by
  intro s here
  obtain ⟨offset, same, kept⟩ := h s 0 here
  let started := x.run.run (s.inside method 0)
  have left : (Run.within method x).run.run s =
      (started.1, { started.2 with callStack := started.2.callStack.tail }) := rfl
  -- What is taken off is the method itself, at whatever offset it ended.
  rw [left, show started = _ from same]
  exact ⟨rfl, kept⟩

end Agreement

section Runs

variable {m : Machine} {outer : StackTrace} {method : Method}

/-- A method is entered among the methods that the call stack shows. -/
theorem agreeAmong_enter {run : Code → Step Value} {run' : Method → Code → Step Value}
    (h : ∀ method code f, Tracks outer method ((run code).run f) ((run' method code).run f))
    (token : Token) (method : Method) (arguments : List Value) :
    AgreeAmong outer (m.enter run token method arguments)
      (m.enterAmong outer run' token method arguments) := by
  have body (code : Code) : Tracks outer method ((run code).run' (Frame.start method arguments code))
      ((run' method code).run' (Frame.start method arguments code)) := by
    unfold StateT.run'
    rw [map_eq_pure_bind, map_eq_pure_bind]
    exact (h method code _).bind fun out => .pure out.1
  have behind : AgreeAmong outer
      (do
        let code ← m.program.code token method.fullName
        Run.within method ((run code).run' (Frame.start method arguments code)))
      (do
        let code ← m.program.code token method.fullName
        (run' method code).run' (Frame.start method arguments code)) :=
    ((congruence_agreeAmong outer).refl (.of_result _)).bind fun code => (body code).within
  intro s here
  unfold Machine.enter Machine.enterAmong
  change (if m.limits.callDepth ≤ s.callStack.length then _ else _ : Run Value).run.run s = _ ∧
    ((if m.limits.callDepth ≤ s.callStack.length then _ else _ : Run Value).run.run s).2.callStack = _
  -- Both count the methods that are running, on the call stack or among those that they are told.
  rw [here]
  split
  · exact ⟨rfl, here⟩
  · exact behind s here

/-- An instruction that is one too many is counted, but does not note its offset. -/
private theorem fails_count {i : Instruction} {s : MachineState}
    (exceeded : m.limits.instructions ≤ s.executed) :
    Fails (m.count i) s (.fault (.instructionLimit m.limits.instructions))
      { s with executed := s.executed + 1 } := by
  unfold Machine.count Run.fault
  rw [fails_modify_bind, fails_get_bind, if_pos (Nat.lt_succ_of_le exceeded)]
  exact fails_bind.mpr (.inl (fails_throw.mpr ⟨rfl, rfl⟩))

/-- An instruction runs while the methods are running that the call stack shows. -/
theorem tracks_stepAmong {execute execute' : Executor} (i : Instruction)
    (agree : ∀ token callee arguments, AgreeAmong (⟨method, i.offset⟩ :: outer)
      (execute token callee arguments) (execute' token callee arguments)) (f : Frame) :
    Tracks outer method ((do m.count i; m.step execute i : Step Control).run f)
      ((m.stepAmong outer method execute' i).run f) := by
  intro s offset here
  subst here
  let instruction (execute : Executor) : Step Control := do
    m.count i
    m.step execute i
  have among : ((m.stepAmong s.callStack method execute' i).run f).run.run s =
      ((((instruction execute').run f).run.run (s.inside method i.offset)).1,
        { (((instruction execute').run f).run.run (s.inside method i.offset)).2 with
          callStack := s.callStack }) := rfl
  rw [among]
  by_cases room : s.executed < m.limits.instructions
  · -- Whatever offset the method was at, the instruction notes its own before it does anything.
    let noted : MachineState := { s with executed := s.executed + 1 }
    have counted (offset : Nat) : YieldsWith (liftM (m.count i) : Step Unit) f (s.inside method offset) ()
        f (noted.inside method i.offset) :=
      yieldsWith_lift.mpr ⟨Machine.yields_count.mpr ⟨room, rfl⟩, rfl⟩
    have runs (execute : Executor) (offset : Nat) :
        ((instruction execute).run f).run.run (s.inside method offset) =
          ((m.step execute i).run f).run.run (noted.inside method i.offset) := (counted offset).run_bind
    obtain ⟨same, kept⟩ := (congruence_agreeAmong _).step agree i f (noted.inside method i.offset) rfl
    refine ⟨i.offset, ?_, rfl⟩
    rw [runs, runs, ← same]
    exact congrArg (Prod.mk _) (MachineState.inside_of_callStack kept).symm
  · have runs (execute : Executor) (offset : Nat) :
        ((instruction execute).run f).run.run (s.inside method offset) =
          (.error (.fault (.instructionLimit m.limits.instructions)),
            { s.inside method offset with executed := s.executed + 1 }) :=
      fails_bind.mpr (.inl (fails_bind.mpr (.inl (fails_count (Nat.not_lt.mp room)))))
    rw [runs, runs]
    exact ⟨offset, rfl, rfl⟩

/-- Runs of code are runs that are told which methods are running. -/
theorem Machine.tracks_runFrom (fuel : Nat) (outer : StackTrace) (method : Method) (code : Code)
    (position : Nat) (f : Frame) : Tracks outer method ((m.runFrom fuel code position).run f)
      ((m.runAmong fuel outer method code position).run f) := by
  -- Both the rest of the code and the methods that are called run on less fuel, the former among the
  -- same methods, the latter among one more.
  induction fuel generalizing outer method code position f with
  | zero => exact .of_same fun _ => rfl
  | succ fuel ih =>
    rw [Machine.runFrom, Machine.runAmong]
    cases found : code.instructions[position]? with
    | none => exact .of_same fun _ => rfl
    | some i =>
      have calls : ∀ token callee arguments, AgreeAmong (⟨method, i.offset⟩ :: outer)
          (m.enter (fun code => m.runFrom fuel code 0) token callee arguments)
          (m.enterAmong (⟨method, i.offset⟩ :: outer)
            (fun callee code => m.runAmong fuel (⟨method, i.offset⟩ :: outer) callee code 0)
            token callee arguments) :=
        agreeAmong_enter fun callee code f => ih _ callee code 0 f
      have instruction := tracks_stepAmong (m := m) i calls f
      dsimp only
      rw [← bind_assoc]
      refine instruction.bind fun out => ?_
      obtain ⟨control, f'⟩ := out
      cases control with
      | next => exact ih outer method code (position + 1) f'
      | jump offset =>
        show Tracks outer method
          ((do m.runFrom fuel code (← positionOf code offset) : Step Value).run f')
          ((do m.runAmong fuel outer method code (← positionOf code offset) : Step Value).run f')
        cases positionOf code offset with
        | ok target => exact ih outer method code target f'
        | error e => exact .of_same fun _ => rfl
      | finish result => exact .of_same fun _ => rfl

end Runs

section Capturing

variable {m : Machine} {execute : Executor} {i : Instruction} {f f' : Frame} {s s' : MachineState}

/-- The instruction calls what captures a stack trace. -/
def Machine.Captures (m : Machine) (i : Instruction) (f : Frame) : Prop :=
  (i.op = .call ∨ i.op = .callvirt ∨ i.op = .newobj) ∧ ∃ token method, i.token? = some token ∧
    m.module.methodAt token = .ok method ∧
    Intrinsic.ofMethod? (f.callee token method) = some .captureStackTrace

/-- The state with the call stack among the stack traces. -/
private def MachineState.captured (s : MachineState) : MachineState :=
  { s with store := { s.store with traces := s.store.traces.push s.callStack } }

private theorem yieldsWith_popArguments_state {method : Method} {arguments : List Value}
    (h : YieldsWith (Machine.popArguments method) f s arguments f' s') : s = s' := by
  obtain ⟨values, f₁, s₁, popped, made⟩ := yieldsWith_bind.mp h
  obtain ⟨-, -, -, rfl⟩ := yieldsWith_popMany.mp popped
  exact (yieldsWith_pure.mp made).2.2

private theorem captured_of_dispatch {method : Method} {receiver : Option Value}
    {arguments : List Value} {isVirtual : Bool} {result : Value}
    (captures : Intrinsic.ofMethod? method = some .captureStackTrace)
    (h : Yields (m.dispatch execute method receiver arguments isVirtual) s result s') :
    s' = s.captured := by
  have runs : Yields Machine.captureStackTrace s result s' := by
    unfold Machine.dispatch at h
    rwa [captures] at h
  have captured : Yields Machine.captureStackTrace s
      (.handle (.stackTrace s.store.traces.size)) s.captured := rfl
  exact (runs.unique captured).2

/-- What is behind the operand of a call of a method. -/
private theorem yieldsWith_operand {α : Type} {token : Token} {method : Method} {a : α}
    {k : Method → Step α} (named : i.token? = some token) (known : m.module.methodAt token = .ok method)
    (h : YieldsWith (Step.tokenOf i >>= fun token => m.methodFor token >>= k) f s a f' s') :
    YieldsWith (k (f.callee token method)) f s a f' s' := by
  obtain ⟨token', f₁, s₁, operand, h⟩ := yieldsWith_bind.mp h
  unfold Step.tokenOf Step.expecting at operand
  rw [named] at operand
  obtain ⟨rfl, rfl, rfl⟩ := yieldsWith_pure.mp operand
  obtain ⟨method', f₁, s₁, resolved, h⟩ := yieldsWith_bind.mp h
  obtain ⟨defined, known', rfl, rfl, rfl⟩ := yieldsWith_methodFor.mp resolved
  obtain rfl := Except.ok.inj (known.symm.trans known')
  exact h

private theorem captured_of_call {isVirtual : Bool} {token : Token} {method : Method} {u : Unit}
    (named : i.token? = some token) (known : m.module.methodAt token = .ok method)
    (captures : Intrinsic.ofMethod? (f.callee token method) = some .captureStackTrace)
    (h : YieldsWith (m.call execute i isVirtual) f s u f' s') : s' = s.captured := by
  have h := yieldsWith_operand named known h
  obtain ⟨arguments, f₁, s₁, popped, h⟩ := yieldsWith_bind.mp h
  obtain rfl := yieldsWith_popArguments_state popped
  -- Behind the call at most its result is put on the stack.
  have behind (receiver : Option Value) {f₂ : Frame} (h : YieldsWith (do
      let result ← liftM (m.dispatch execute (f.callee token method) receiver arguments isVirtual)
      if (f.callee token method).returnType ≠ .void && !(f.callee token method).isConstructor then
        Step.push (result.adaptTo (f.callee token method).returnType)) f₂ s u f' s') :
      s' = s.captured := by
    obtain ⟨result, s₁, dispatched, h⟩ := yieldsWith_lift_bind.mp h
    obtain rfl := captured_of_dispatch captures dispatched
    split at h
    · exact (yieldsWith_push.mp h).2.2.symm
    · exact (yieldsWith_pure.mp h).2.2.symm
  dsimp only at h
  split at h
  · obtain ⟨receiver, f₂, s₂, taken, h⟩ := yieldsWith_bind.mp h
    obtain ⟨value, popped, rfl⟩ := yieldsWith_map.mp taken
    obtain ⟨-, -, rfl⟩ := yieldsWith_pop.mp popped
    exact behind _ h
  · obtain ⟨receiver, f₂, s₂, taken, h⟩ := yieldsWith_bind.mp h
    obtain ⟨rfl, rfl, rfl⟩ := yieldsWith_pure.mp taken
    exact behind _ h

private theorem captured_of_construct {token : Token} {method : Method} {u : Unit}
    (named : i.token? = some token) (known : m.module.methodAt token = .ok method)
    (captures : Intrinsic.ofMethod? (f.callee token method) = some .captureStackTrace)
    (h : YieldsWith (m.construct execute i) f s u f' s') :
    s'.store.traces = s.store.traces.push s.callStack := by
  have h := yieldsWith_operand named known h
  obtain ⟨arguments, f₁, s₁, popped, h⟩ := yieldsWith_bind.mp h
  obtain rfl := yieldsWith_popArguments_state popped
  rw [if_neg (by rw [captures]; decide)] at h
  obtain ⟨object, f₂, s₂, made, h⟩ := yieldsWith_bind.mp h
  obtain ⟨store, new, rfl, rfl⟩ := yieldsWith_act.mp made
  obtain ⟨result, s₃, dispatched, h⟩ := yieldsWith_lift_bind.mp h
  obtain rfl := captured_of_dispatch captures dispatched
  obtain ⟨-, -, rfl⟩ := yieldsWith_push.mp h
  cases new
  rfl

/-- What is captured is the call stack. -/
theorem traces_step {control : Control} (captures : m.Captures i f)
    (h : YieldsWith (m.step execute i) f s control f' s') :
    s'.store.traces = s.store.traces.push s.callStack := by
  obtain ⟨calls, token, method, named, known, captures⟩ := captures
  obtain ⟨offset, op, operand⟩ := i
  obtain rfl | rfl | rfl : op = .call ∨ op = .callvirt ∨ op = .newobj := calls
  all_goals
    obtain ⟨_, f₁, s₁, done, next⟩ := yieldsWith_bind.mp h
    obtain ⟨-, -, rfl⟩ := yieldsWith_pure.mp next
  · exact congrArg (fun s => s.store.traces) (captured_of_call named known captures done)
  · exact congrArg (fun s => s.store.traces) (captured_of_call named known captures done)
  · exact captured_of_construct named known captures done

/-- An instruction of a method that was entered while the methods of `outer` were running captures these
methods and its own, at its own offset. -/
theorem traces_stepAmong {outer : StackTrace} {method : Method} {control : Control}
    (captures : m.Captures i f)
    (h : YieldsWith (m.stepAmong outer method execute i) f s control f' s') :
    s'.store.traces = s.store.traces.push (⟨method, i.offset⟩ :: outer) := by
  obtain ⟨inner, runs, rfl⟩ := yieldsWith_among.mp h
  obtain ⟨_, counted, counts, steps⟩ := yieldsWith_lift_bind.mp runs
  obtain ⟨-, rfl⟩ := Machine.yields_count.mp counts
  exact traces_step captures steps

end Capturing

namespace Machine

variable (m : Machine)

/-- Methods are run as if they were told which methods are running. -/
theorem agreeAmong_execute (fuel : Nat) (outer : StackTrace) (token : Token) (method : Method)
    (arguments : List Value) :
    AgreeAmong outer (m.enter (fun code => m.runFrom fuel code 0) token method arguments)
      (m.executeAmong fuel outer token method arguments) :=
  agreeAmong_enter (fun method code f => tracks_runFrom fuel outer method code 0 f) token method arguments

/-- An invocation is a run while no method is running. -/
theorem invoke_among (token : Token) (receiver : Option Value) (arguments : List Value)
    (s : MachineState) : (m.invoke token receiver arguments).run.run s =
      (m.invokeWith (m.executeAmong (m.limits.instructions + 1) []) token receiver arguments).run.run s := by
  show (m.invokeWith m.execute token receiver arguments).run.run s = _
  unfold invokeWith
  cases m.module.definedMethod token with
  | error e => rfl
  | ok method =>
    by_cases fits : arguments.length ≠ method.parameters.length
    · show (if _ then _ else _ : Run Value).run.run s = (if _ then _ else _ : Run Value).run.run s
      rw [if_pos fits, if_pos fits]
      rfl
    · show (if _ then _ else _ : Run Value).run.run s = (if _ then _ else _ : Run Value).run.run s
      rw [if_neg fits, if_neg fits]
      exact (m.agreeAmong_execute _ [] token method _ { s with executed := 0, callStack := [] } rfl).1

/-- Whether a method returns or fails, it leaves the call stack as it found it; and it runs as if it, and
all that is called in it, were told by its caller which methods are running, each as it was entered and
with the offset of the instruction that it is at.  These are what a stack trace captures. -/
theorem execute_among :
    (∀ fuel token method arguments s,
      (m.enter (fun code => m.runFrom fuel code 0) token method arguments).run.run s =
        (m.executeAmong fuel s.callStack token method arguments).run.run s ∧
      ((m.enter (fun code => m.runFrom fuel code 0) token method arguments).run.run s).2.callStack =
        s.callStack) ∧
    (∀ token receiver arguments s, (m.invoke token receiver arguments).run.run s =
      (m.invokeWith (m.executeAmong (m.limits.instructions + 1) []) token receiver
        arguments).run.run s) ∧
    ∀ outer method execute i f s control f' s', m.Captures i f →
      YieldsWith (m.stepAmong outer method execute i) f s control f' s' →
      s'.store.traces = s.store.traces.push (⟨method, i.offset⟩ :: outer) :=
  ⟨fun fuel token method arguments s => m.agreeAmong_execute fuel _ token method arguments s rfl,
    m.invoke_among, fun _ _ _ _ _ _ _ _ _ captures runs => traces_stepAmong captures runs⟩

/-- A program whose first method calls the second, which captures a stack trace. -/
def nestedModule : Module where
  name := "Demo"
  types := #[.ofClass "Demo.Program"]
  memberRefs := #[Intrinsic.captureStackTrace.memberRef]
  methods := #[
    { owner := Module.tokenAt .typeDef 0, name := "Main", flags := .isStatic, returnType := .object,
      body := some { code := [0x28, 0x02, 0x00, 0x00, 0x06, 0x2A] } },
    { owner := Module.tokenAt .typeDef 0, name := "Help", flags := .isStatic, returnType := .object,
      body := some { code := [0x00, 0x28, 0x01, 0x00, 0x00, 0x0A, 0x2A] } }]

/-- The machine that runs it. -/
def nested : Machine where
  program := .ofModule nestedModule
  limits := { instructions := 16 }

/-- A method of the program. -/
def nestedMethod (name : String) : Method where
  declaringType := .classType "Demo.Program"
  name := name
  returnType := .object
  flags := .isStatic

/-- The frame in which the second method starts. -/
def nestedFrame : Frame where
  method := nestedMethod "Help"
  arguments := #[]
  locals := #[]
  maxStack := 8

theorem execute_among_nested :
    (nested.invoke (Module.tokenAt .methodDef 0) none []).run.run {} =
        (nested.invokeWith (nested.executeAmong 17 []) (Module.tokenAt .methodDef 0) none []).run.run {} ∧
      ((nested.enter (fun code => nested.runFrom 16 code 0) (Module.tokenAt .methodDef 0)
        (nestedMethod "Main") []).run.run {}).2.callStack = [] ∧
      ∃ control f' s', YieldsWith (nested.stepAmong [⟨nestedMethod "Main", 0⟩] (nestedMethod "Help")
          nested.execute ⟨1, .call, .token (Module.tokenAt .memberRef 0)⟩) nestedFrame {} control f' s' ∧
        s'.store.traces = #[[⟨nestedMethod "Help", 1⟩, ⟨nestedMethod "Main", 0⟩]] := by
  obtain ⟨runs, invokes, captures⟩ := nested.execute_among
  refine ⟨invokes _ _ _ {}, (runs 16 _ _ _ {}).2, ?_⟩
  let instruction := nested.stepAmong [⟨nestedMethod "Main", 0⟩] (nestedMethod "Help") nested.execute
    ⟨1, .call, .token (Module.tokenAt .memberRef 0)⟩
  have succeeds : ((instruction.run nestedFrame).run.run {}).1.toBool = true := rfl
  rcases same : (instruction.run nestedFrame).run.run {} with ⟨_ | ⟨control, f'⟩, s'⟩
  · rw [same] at succeeds
    cases succeeds
  · exact ⟨control, f', s', same, captures _ _ _ _ _ _ _ _ _
      ⟨.inl rfl, _, _, rfl, rfl, rfl⟩ same⟩

end Machine

end Interpose
