import Interpose.Proofs.Machine.Limits
import Interpose.Proofs.Machine.Running
import Interpose.Proofs.Machine.Watch

/-!
# Bounds of an invocation

However the code of a module loops and recurs, an invocation comes to an end: the instructions of
all methods that are running are counted by one counter, and the first one that is too many ends the
run.  So fuel above the limit never runs out.  Up to there no more instructions are counted and no
more methods are running than the limits say, which a watch would notice that looks at every place
of the run.

## Main definitions

* `Machine.Ends` — how a run ends on a machine, and under a watch on a machine with another limit
* `Machine.Invocable` — the invocations that are not refused at once
* `Machine.Bounded` — the bounds of an invocation

## Main results

* `Machine.bounded_of_invocable` — an invocation that is not refused keeps within the bounds
* `Machine.bounded_invoke` — there are no others than these and those that are refused
-/

namespace Interpose.Machine

/-- The number of instructions and the methods that are running are the same. -/
private def Still (s s' : MachineState) : Prop :=
  s'.executed = s.executed ∧ s'.callStack = s.callStack

private instance : Indifferent Still where
  refl _ := ⟨rfl, rfl⟩
  trans h h' := ⟨h'.1.trans h.1, h'.2.trans h.2⟩
  store _ _ := ⟨rfl, rfl⟩
  statics _ _ := ⟨rfl, rfl⟩
  provider _ _ _ := ⟨rfl, rfl⟩
  callMap _ _ _ _ := ⟨rfl, rfl⟩

/-- The number of instructions does not become less. -/
private def Counts (s s' : MachineState) : Prop := s.executed ≤ s'.executed

private instance : Lasting Counts where
  refl s := Nat.le_refl s.executed
  trans := Nat.le_trans
  store s _ := Nat.le_refl s.executed
  statics s _ := Nat.le_refl s.executed
  provider s _ _ := Nat.le_refl s.executed
  callMap s _ _ _ := Nat.le_refl s.executed
  executed s := Nat.le_succ s.executed
  callStack s _ := Nat.le_refl s.executed

section Runs

variable {m : Machine} {limit' fuel : Nat} {w : Watch} {s : MachineState} {α : Type}

/-- How a run ends that starts in the state `s`, and how it ends under a watch on a machine with the
limit `limit'` on instructions.  Either the instruction is counted that is one too many, which ends
the run and is what the watch says, or the watched run counts it too and goes on; or the limit is
kept and both end alike. -/
inductive Ends (m : Machine) (limit' : Nat) (w : Watch) (s : MachineState) :
    (out watched : Except Error α × MachineState) → Prop
  | beyond {s' : MachineState} {watched : Except Error α × MachineState} :
      s'.executed = m.limits.instructions + 1 → s'.callStack.length = s.callStack.length →
      m.limits.instructions < watched.2.executed →
      (limit' = m.limits.instructions → watched = (.error w.overLimit, s')) →
      Ends m limit' w s (.error (.fault (.instructionLimit m.limits.instructions)), s') watched
  | alike {result : Except Error α} {s' : MachineState} :
      s.executed ≤ s'.executed → s'.executed ≤ m.limits.instructions →
      s'.callStack.length = s.callStack.length →
      Ends m limit' w s (result, s') (result, s')

namespace Ends

variable {s₁ : MachineState} {out watched : Except Error α × MachineState}

/-- A run may be taken up where so many instructions were counted already. -/
private theorem resume (ends : Ends m limit' w s₁ out watched) (more : s.executed ≤ s₁.executed)
    (depth : s₁.callStack.length = s.callStack.length) : Ends m limit' w s out watched := by
  cases ends with
  | beyond one depth' beyond same => exact .beyond one (depth'.trans depth) beyond same
  | alike more' kept depth' => exact .alike (Nat.le_trans more more') kept (depth'.trans depth)

/-- The innermost method is taken off the call stack. -/
private theorem leave {entry : TraceEntry} (ends : Ends m limit' w
    { s with callStack := entry :: s.callStack } out watched) : Ends m limit' w s
      (out.1, { out.2 with callStack := out.2.callStack.tail })
      (watched.1, { watched.2 with callStack := watched.2.callStack.tail }) := by
  have outer {s' : MachineState} (depth : s'.callStack.length = s.callStack.length + 1) :
      s'.callStack.tail.length = s.callStack.length := by
    rw [List.length_tail, depth, Nat.add_sub_cancel]
  cases ends with
  | beyond one depth beyond same =>
    refine .beyond one (outer depth) beyond fun equal => ?_
    rw [same equal]
  | alike more kept depth => exact .alike more kept (outer depth)

end Ends

/-- A computation ends as it does under a watch, wherever it is started within the limits and with
fuel that covers the rest of them. -/
private def Watches (m : Machine) (limit' : Nat) (w : Watch) (fuel : Nat) (α : Type)
    (x y : Run α) : Prop :=
  y.Respects Counts ∧ ∀ s : MachineState, s.executed ≤ m.limits.instructions →
    s.callStack.length ≤ m.limits.callDepth → m.limits.instructions < s.executed + fuel →
    Ends m limit' w s (x.run.run s) (y.run.run s)

private theorem watches_congruence : Run.Congruence Still (Watches m limit' w fuel) where
  refl {α x} still := by
    refine ⟨fun s => Nat.le_of_eq (still s).1.symm, fun s low _ _ => ?_⟩
    obtain ⟨executed, callStack⟩ := still s
    exact .alike (Nat.le_of_eq executed.symm) (executed ▸ low) (congrArg List.length callStack)
  bind {α β x y k l} first later := by
    have grows (a : α) := (later a).1
    refine ⟨first.1.bind grows, fun s low shallow enough => ?_⟩
    have ends := first.2 s low shallow enough
    rw [ExceptT.run_bind, ExceptT.run_bind, StateT.run_bind, StateT.run_bind]
    revert ends
    generalize x.run.run s = out
    generalize y.run.run s = watched
    rintro (⟨one, depth, beyond, same⟩ | @⟨result, s', more, kept, depth⟩)
    · -- The watched run may go on where the other one stops, but what is counted stays counted.
      obtain ⟨result', s''⟩ := watched
      refine .beyond one depth ?_ fun equal => ?_
      · cases result' with
        | error e => exact beyond
        | ok a => exact Nat.lt_of_lt_of_le beyond (grows a s'')
      · cases same equal
        rfl
    · cases result with
      | error e => exact .alike more kept depth
      | ok a => exact ((later a).2 s' kept (by omega) (by omega)).resume more depth

/-- The two are computations of a running method. -/
private def StepsWatch (m : Machine) (limit' : Nat) (w : Watch) (fuel : Nat) {α : Type}
    (x y : Step α) : Prop := ∀ f, Watches m limit' w fuel _ (x.run f) (y.run f)

/-- A watch that sees nothing within the limits lets a run go on. -/
private theorem stepsWatch_look (silent : ∀ s : MachineState, s.executed ≤ m.limits.instructions →
      s.callStack.length ≤ m.limits.callDepth → w.alarm s = none) {x y : Step α}
    (later : StepsWatch m limit' w fuel x y) :
    StepsWatch m limit' w fuel x (liftM w.look >>= fun _ : Unit => y) := by
  intro f
  have looked : (liftM w.look : Step Unit).Respects Counts := .lift respects_look
  refine ⟨(looked f).bind fun out => (later out.2).1, fun s low shallow enough => ?_⟩
  have quiet : Yields w.look s () s := by
    unfold Watch.look
    rw [yields_get_bind, silent s low shallow]
    rfl
  have same : YieldsWith (liftM w.look : Step Unit) f s () f s := yieldsWith_lift.mpr ⟨quiet, rfl⟩
  rw [same.run_bind]
  exact (later f).2 s low shallow enough

private theorem length_tick (s : MachineState) (offset : Nat) :
    (s.tick offset).callStack.length = s.callStack.length := by
  simpa only [List.length_map] using congrArg List.length (s.map_method_tick offset)

private theorem yields_countUnder {i : Instruction} (kept : s.executed < m.limits.instructions) :
    Yields (m.countUnder w i) s () (s.tick i.offset) := by
  unfold countUnder
  rw [yields_modify_bind, yields_get_bind, yields_guard, yields_modify]
  refine ⟨Nat.not_lt.mpr kept, ?_⟩
  rcases stack : s.callStack with _ | ⟨entry, outer⟩ <;> simp [MachineState.tick, stack]

/-- The instruction that is one too many is counted, and the run fails. -/
private theorem fails_countUnder {i : Instruction} (beyond : m.limits.instructions ≤ s.executed) :
    Fails (m.countUnder w i) s w.overLimit { s with executed := s.executed + 1 } := by
  unfold countUnder
  rw [fails_modify_bind, fails_get_bind, if_pos (Nat.lt_succ_of_le beyond), fails_bind]
  exact .inl (fails_throw.mpr ⟨rfl, rfl⟩)

/-- Behind the instruction that is counted there is one less to come. -/
private theorem stepsWatch_count (higher : m.limits.instructions ≤ limit') (i : Instruction)
    {x y : Step α} (later : StepsWatch m limit' w fuel x y) : StepsWatch m limit' w (fuel + 1)
      (liftM (m.count i) >>= fun _ : Unit => x)
      (liftM ((m.limited limit').countUnder w i) >>= fun _ : Unit => y) := by
  intro f
  have counts : (liftM ((m.limited limit').countUnder w i) : Step Unit).Respects Counts :=
    .lift (respects_countUnder i)
  refine ⟨(counts f).bind fun out => (later out.2).1, fun s low shallow enough => ?_⟩
  have watched (kept : s.executed < limit') : YieldsWith
      (liftM ((m.limited limit').countUnder w i) : Step Unit) f s () f (s.tick i.offset) :=
    yieldsWith_lift.mpr ⟨yields_countUnder kept, rfl⟩
  -- An instruction takes one from the fuel and adds one to what is counted, so the fuel goes on
  -- covering the rest of the limit.
  by_cases kept : s.executed < m.limits.instructions
  · have counted : YieldsWith (liftM (m.count i) : Step Unit) f s () f (s.tick i.offset) :=
      yieldsWith_lift.mpr ⟨yields_count.mpr ⟨kept, rfl⟩, rfl⟩
    rw [counted.run_bind, (watched (Nat.lt_of_lt_of_le kept higher)).run_bind]
    have depth := length_tick s i.offset
    have executed := s.tick_executed i.offset
    exact ((later f).2 _ (by omega) (by omega) (by omega)).resume (by omega) depth
  · have full : s.executed = m.limits.instructions := by omega
    have cut {m : Machine} {w : Watch} {x : Step α} (beyond : m.limits.instructions = s.executed) :
        ((liftM (m.countUnder w i) >>= fun _ : Unit => x : Step α).run f).run.run s =
          (.error w.overLimit, { s with executed := s.executed + 1 }) := by
      rw [StateT.run_bind]
      exact fails_bind.mpr (.inl (fails_bind.mpr (.inl (fails_countUnder (Nat.le_of_eq beyond)))))
    rw [show (liftM (m.count i) >>= fun _ : Unit => x : Step α) =
      liftM (m.countUnder m.unwatched i) >>= fun _ : Unit => x from rfl, cut full.symm]
    rcases Nat.eq_or_lt_of_le higher with equal | more
    · rw [cut (equal.symm.trans full.symm)]
      exact .beyond (congrArg (· + 1) full) rfl (full ▸ Nat.lt_succ_self _) fun _ => rfl
    · rw [(watched (full ▸ more)).run_bind]
      have grows : s.executed + 1 ≤ ((y.run f).run.run (s.tick i.offset)).2.executed :=
        (later f).1 (s.tick i.offset)
      exact .beyond (congrArg (· + 1) full) rfl (by omega) fun equal => by omega

private theorem enter_run (m : Machine) (run : Code → Step Value) (token : Token) (method : Method)
    (arguments : List Value) (s : MachineState) :
    (m.enter run token method arguments).run.run s =
      if m.limits.callDepth ≤ s.callStack.length then
        (.error (.fault (.callDepth m.limits.callDepth)), s)
      else
        match m.program.code token method.fullName with
        | .error e => (.error e, s)
        | .ok code =>
          (Run.within method ((run code).run' (Frame.start method arguments code))).run.run s := by
  show ((if m.limits.callDepth ≤ s.callStack.length then _ else _ : Run Value)).run.run s = _
  split
  · rfl
  · cases m.program.code token method.fullName <;> rfl

/-- A method is entered only if there is room for it on the call stack. -/
private theorem watches_enter {run run' : Code → Step Value}
    (h : ∀ code f, Watches m limit' w fuel _ ((run code).run f) ((run' code).run f)) (token : Token)
    (method : Method) (arguments : List Value) : Watches m limit' w fuel Value
      (m.enter run token method arguments)
      ((m.limited limit').enter run' token method arguments) := by
  refine ⟨respects_enter (fun code f => (h code f).1) token method arguments,
    fun s low shallow enough => ?_⟩
  have here {result : Except Error Value} : Ends m limit' w s (result, s) (result, s) :=
    .alike (Nat.le_refl _) low rfl
  rw [enter_run, enter_run]
  show Ends m limit' w s
    (if m.limits.callDepth ≤ s.callStack.length then _ else
      match m.program.code token method.fullName with | .error e => _ | .ok code => _)
    (if m.limits.callDepth ≤ s.callStack.length then _ else
      match m.program.code token method.fullName with | .error e => _ | .ok code => _)
  -- The check in front of the entry leaves room for one more, so the depth is within the limit
  -- inside the method as well.
  by_cases full : m.limits.callDepth ≤ s.callStack.length
  · rw [if_pos full, if_pos full]
    exact here
  · rw [if_neg full, if_neg full]
    cases m.program.code token method.fullName with
    | error e => exact here
    | ok code =>
      have body : Watches m limit' w fuel Value
          ((run code).run' (Frame.start method arguments code))
          ((run' code).run' (Frame.start method arguments code)) :=
        watches_congruence.bind (h code _) fun out => watches_congruence.refl (.pure out.1)
      exact (body.2 { s with callStack := ⟨method, 0⟩ :: s.callStack } low
        (Nat.lt_of_not_le full) enough).leave

/-- A run of code ends as it does under a watch that sees nothing within the limits. -/
private theorem watches_runUnder (silent : ∀ s : MachineState, s.executed ≤ m.limits.instructions →
      s.callStack.length ≤ m.limits.callDepth → w.alarm s = none)
    (higher : m.limits.instructions ≤ limit') {fuel' : Nat} (more : fuel ≤ fuel') (code : Code)
    (position : Nat) (f : Frame) : Watches m limit' w fuel _ ((m.runFrom fuel code position).run f)
      (((m.limited limit').runUnder w fuel' code position).run f) := by
  induction fuel generalizing fuel' code position f with
  | zero =>
    -- The limit on instructions leaves nothing that could be run without fuel.
    exact ⟨respects_runUnder fuel' code position f, fun s low _ enough => by omega⟩
  | succ fuel ih =>
    obtain ⟨fuel', rfl⟩ := Nat.exists_eq_add_of_le' (Nat.le_of_add_left_le more)
    have more : fuel ≤ fuel' := Nat.le_of_succ_le_succ more
    have rel : Run.Congruence Still (Watches m limit' w fuel) := watches_congruence
    revert f
    show StepsWatch m limit' w (fuel + 1) _ _
    rw [runFrom, runUnder]
    refine stepsWatch_look silent ?_
    cases code.instructions[position]? with
    | none => exact fun f => watches_congruence.refl (Run.Respects.fault _)
    | some i =>
      refine stepsWatch_count higher i fun f => ?_
      refine rel.bind (rel.step (fun token method arguments => watches_enter
        (fun code f => ih more code 0 f) token method arguments) i f) fun out => ?_
      obtain ⟨control, f⟩ := out
      cases control with
      | next => exact ih more code _ f
      | jump offset =>
        exact rel.bind (rel.refl (Step.Respects.of_result _ f)) fun out =>
          ih more code out.1 out.2
      | finish result => exact rel.refl (.pure _)

end Runs

section Invocations

variable {m : Machine} {token : Token} {receiver : Option Value} {arguments : List Value}

/-- The token is one of a method of the module that takes so many arguments. -/
def Invocable (m : Machine) (token : Token) (arguments : List Value) (method : Method) : Prop :=
  m.module.definedMethod token = .ok method ∧ arguments.length = method.parameters.length

/-- The bounds of an invocation that begins in the state `s` and ends in the state `s'`. -/
structure Bounded (m : Machine) (token : Token) (receiver : Option Value) (arguments : List Value)
    (s : MachineState) (result : Except Error Value) (s' : MachineState) : Prop where
  /-- The methods that run count at most one instruction more than the limit, all together. -/
  executed_le : s'.executed ≤ m.limits.instructions + 1
  /-- None of them is running any more. -/
  callStack_eq : s'.callStack = []
  /-- If the limit is exceeded the invocation says so. -/
  reports : m.limits.instructions < s'.executed →
    result = .error (.fault (.instructionLimit m.limits.instructions))
  /-- The invocation comes to its end on any fuel above the limit, the limits are kept at each place
  of the run, and it is just the exceeded limit that is reported where it is exceeded. -/
  watched : ∀ (w : Watch) (fuel : Nat), m.limits.instructions < fuel →
    (∀ s : MachineState, s.executed ≤ m.limits.instructions →
      s.callStack.length ≤ m.limits.callDepth → w.alarm s = none) →
    (m.invokeUnder w fuel token receiver arguments).run.run s =
      (if m.limits.instructions < s'.executed then .error w.overLimit else result, s')
  /-- The limit is exceeded just if the methods run more instructions where they may. -/
  exceeds_iff : ∀ limit, m.limits.instructions < limit → (m.limits.instructions < s'.executed ↔
    m.limits.instructions <
      (((m.limited limit).invoke token receiver arguments).run.run s).2.executed)

private theorem invokeUnder_run {method : Method} (found : m.Invocable token arguments method)
    (w : Watch) (fuel : Nat) (s : MachineState) :
    (m.invokeUnder w fuel token receiver arguments).run.run s =
      (m.executeUnder w fuel token method (withReceiver method receiver
        (arguments.zipWith Value.adaptTo method.parameters))).run.run
        { s with executed := 0, callStack := [] } := by
  have known : Yields (liftM (m.module.definedMethod token) : Run Method) s method s :=
    yields_liftM.mpr ⟨found.1, rfl⟩
  unfold invokeUnder
  rw [known.run_bind, if_neg (not_not_intro found.2)]
  rfl

/-- How an invocation ends, and how it ends under a watch on a machine with another limit. -/
private theorem ends_invoke {method : Method} (found : m.Invocable token arguments method)
    {w : Watch} (silent : ∀ s : MachineState, s.executed ≤ m.limits.instructions →
      s.callStack.length ≤ m.limits.callDepth → w.alarm s = none)
    {limit' fuel : Nat} (higher : m.limits.instructions ≤ limit')
    (more : m.limits.instructions < fuel) (s : MachineState) :
    Ends m limit' w { s with executed := 0, callStack := [] }
      ((m.invoke token receiver arguments).run.run s)
      (((m.limited limit').invokeUnder w fuel token receiver arguments).run.run s) := by
  have runs := watches_enter (fun code f => watches_runUnder silent higher more code 0 f) token
    method (withReceiver method receiver (arguments.zipWith Value.adaptTo method.parameters))
  have found' : (m.limited limit').Invocable token arguments method := found
  rw [← invokeUnder_unwatched, invokeUnder_run found, invokeUnder_run found']
  have same : m.executeUnder m.unwatched (m.limits.instructions + 1) =
      m.enter fun code => m.runFrom (m.limits.instructions + 1) code 0 := by
    unfold executeUnder
    simp only [runUnder_unwatched]
  rw [same]
  exact runs.2 _ (Nat.zero_le _) (Nat.zero_le _) (by simp)

theorem bounded_of_invocable {method : Method} (found : m.Invocable token arguments method)
    (s : MachineState) : m.Bounded token receiver arguments s
      ((m.invoke token receiver arguments).run.run s).1
      ((m.invoke token receiver arguments).run.run s).2 := by
  -- Each part compares the run with a watched one; a watch that raises no alarm watches the run itself.
  have ends {w : Watch} (silent : ∀ s : MachineState, s.executed ≤ m.limits.instructions →
        s.callStack.length ≤ m.limits.callDepth → w.alarm s = none)
      {limit' fuel : Nat} (higher : m.limits.instructions ≤ limit')
      (more : m.limits.instructions < fuel) :
      Ends m limit' w { s with executed := 0, callStack := [] }
        ((m.invoke token receiver arguments).run.run s)
        (((m.limited limit').invokeUnder w fuel token receiver arguments).run.run s) :=
    ends_invoke found silent higher more s
  revert ends
  generalize (m.invoke token receiver arguments).run.run s = out
  intro ends
  obtain ⟨watched, own⟩ : ∃ watched, Ends m m.limits.instructions m.unwatched
      { s with executed := 0, callStack := [] } out watched :=
    ⟨_, ends (fun _ _ _ => rfl) (Nat.le_refl _) (Nat.lt_succ_self _)⟩
  refine ⟨?_, ?_, fun exceeded => ?_, fun w fuel more silent => ?_, fun limit higher => ?_⟩
  · cases own with
    | beyond one => exact Nat.le_of_eq one
    | alike _ kept => exact Nat.le_succ_of_le kept
  · cases own with
    | beyond _ depth => exact List.eq_nil_of_length_eq_zero depth
    | alike _ _ depth => exact List.eq_nil_of_length_eq_zero depth
  · cases own with
    | beyond => rfl
    | alike _ kept => exact absurd exceeded (Nat.not_lt.mpr kept)
  · -- The watch is put on the machine itself, with other fuel.
    have watched := ends silent (Nat.le_refl _) more
    revert watched
    show Ends m m.limits.instructions w _ out
      ((m.invokeUnder w fuel token receiver arguments).run.run s) → _
    generalize (m.invokeUnder w fuel token receiver arguments).run.run s = watched
    rintro (⟨one, -, -, same⟩ | ⟨-, kept, -⟩)
    · rw [if_pos (Nat.lt_of_lt_of_eq (Nat.lt_succ_self _) one.symm)]
      exact same rfl
    · rw [if_neg (Nat.not_lt.mpr kept)]
  · -- The run that may go on longer is the run under no watch on the machine with that limit.
    have other := ends (w := (m.limited limit).unwatched) (fun _ _ _ => rfl) (Nat.le_of_lt higher)
      (Nat.lt_succ_of_lt higher)
    have same : (m.limited limit).invokeUnder (m.limited limit).unwatched (limit + 1) token receiver
        arguments = (m.limited limit).invoke token receiver arguments := invokeUnder_unwatched _ _ _
    rw [same] at other
    revert other
    generalize ((m.limited limit).invoke token receiver arguments).run.run s = higher
    rintro (⟨one, -, beyond, -⟩ | ⟨-, kept, -⟩)
    · exact iff_of_true (Nat.lt_of_lt_of_eq (Nat.lt_succ_self _) one.symm) beyond
    · exact Iff.rfl

private theorem malformed_of_row {α : Type} {table : Array α} {id : Table} {e : Error}
    (h : Module.row table id token = .error e) : ∃ defect, e = .malformed defect := by
  unfold Module.row at h
  split at h
  · cases h
    exact ⟨_, rfl⟩
  · split at h
    · cases h
    · cases h
      exact ⟨_, rfl⟩

/-- Only a token of no method keeps one from being found. -/
private theorem malformed_of_definedMethod {e : Error}
    (unknown : m.module.definedMethod token = .error e) : ∃ defect, e = .malformed defect := by
  unfold Module.definedMethod at unknown
  cases definition : m.module.methodDefAt token with
  | error e' =>
    rw [definition] at unknown
    cases unknown
    exact malformed_of_row definition
  | ok d =>
    cases owner : m.module.typeDefAt d.owner with
    | error e' =>
      rw [definition] at unknown
      simp only [bind, Except.bind, owner] at unknown
      cases unknown
      exact malformed_of_row owner
    | ok type =>
      rw [definition] at unknown
      simp only [bind, Except.bind, owner] at unknown
      cases unknown

/-- A machine that runs three instructions at most, with a method that jumps to itself for ever. -/
def spinner : Machine where
  program :=
    { module :=
        { name := "Demo"
          types := #[.ofClass "Demo.A"]
          methods := #[{ owner := .ofRow .typeDef 1, name := "Spin", flags := .isStatic }] }
      codes := #[.ok (some ⟨#[⟨0, .brS, .target 0⟩], [], 0⟩)] }
  limits := { instructions := 3 }

/-- The method is cut off at the fourth instruction. -/
example :
    let out := (spinner.invoke (.ofRow .methodDef 1) none []).run.run {}
    out.1.toOption.isNone ∧ out.2.executed = 4 ∧ out.2.callStack = [] := by
  decide +kernel

end Invocations

end Interpose.Machine
