import Interpose.Proofs.Machine.Instructions
import Interpose.Proofs.Machine.Limits
import Interpose.Proofs.Machine.Passes

/-!
# Code that carries other code

Code carries other code if it leads, from wherever an instruction of the other code is meant to be,
to one that does the same.  What is in between may use local variables of its own, but must neither
touch the store nor disturb the stack.  A machine whose code carries that of another machine has the
same outcomes, given that it may run enough instructions.

## Main definitions

* `Code.Stands` — an instruction does what another one does
* `Code.Carries`, `Machine.Carries` — code, and all code of a machine, carries other code
* `Machine.Follows` — an invocation has the outcome that it has on another machine

## Main results

* `mirrors_stands` — instructions that stand for each other have the same outcome
* `Machine.Carries.invoke` — so have invocations of methods, given enough instructions
* `Machine.Carries.follows` — unless they are cut off, whatever the limit on instructions is
-/

namespace Interpose

section States

variable {w : RunSetting} {s s' s₁' : MachineState}

/-- What only counts and notes offsets leaves states in agreement. -/
theorem RunSetting.Agrees.of_like (agrees : w.Agrees s s') (like : s'.Like s₁')
    (store : s₁'.store = s'.store) : w.Agrees s s₁' := by
  refine ⟨store.trans agrees.store_eq, like.statics.trans agrees.statics_eq,
    like.rules.trans agrees.rules_eq, ?_, agrees.fit⟩
  have length := congrArg List.length like.callStack
  rw [List.length_map, List.length_map] at length
  exact length.trans agrees.depth_eq

theorem RunSetting.Agrees.tick (agrees : w.Agrees s s') (offset offset' : Nat) :
    w.Agrees (s.tick offset) (s'.tick offset') := by
  have length (s : MachineState) (offset : Nat) :
      (s.tick offset).callStack.length = s.callStack.length := by
    have same := congrArg List.length (s.map_method_tick offset)
    rwa [List.length_map, List.length_map] at same
  refine ⟨agrees.store_eq, agrees.statics_eq, agrees.rules_eq, ?_, agrees.fit⟩
  rw [length, length, agrees.depth_eq]

end States

/-- In a frame in which the code of a method runs, it also runs later. -/
theorem Frame.Runs.becomes {f f' : Frame} {d : MethodDef} {c : Code} (h : f.Runs d c)
    (becomes : f.Becomes f') : f'.Runs d c where
  locals := becomes.locals_size.trans h.locals
  maxStack := becomes.maxStack_eq.trans h.maxStack
  self := fun this => becomes.arguments_size ▸ h.self this

namespace Code

/-- An instruction stands for another one: it does the same, and branches go where the code of their
target is. -/
structure Stands (c c' : Code) (start : Nat → Nat) (i i' : Instruction) : Prop where
  straight : i.op.isBranch = false → ∃ offset, i' = { i with offset }
  branches : i.op.isBranch = true → i'.op.isBranch = true ∧ i'.op.widened = i.op.widened
  lands : ∀ target, i.op.isBranch = true → i.target? = some target → ∃ target',
    i'.target? = some target' ∧ ∀ position, c.indexOf? target = some position →
      c'.indexOf? target' = some (start position)

/-- The code of a method carries other code of it.  Frames are wider than for the latter in ways that
`Spare` allows. -/
structure Carries (m m' : Machine) (r : Rules) (d : MethodDef) (c c' : Code) (start : Nat → Nat)
    (Spare : Width → Prop) : Prop where
  enters : ∀ method arguments s, (d.hasThis = true → arguments ≠ []) → s.rules = r →
    ∃ path v s', Spare v ∧ Leads m' c' path ⟨0, Frame.start method arguments c', s⟩
      ⟨start 0, (Frame.start method arguments c).widen v, s'⟩ ∧ s.Like s' ∧ s'.store = s.store
  /-- Where an instruction succeeds, control comes to one that stands for it. -/
  reaches : ∀ position i execute f v s s₁ s' control f', c.instructions[position]? = some i →
    f.Runs d c → f.stack.length ≤ f.maxStack → Spare v → s'.rules = r →
    YieldsWith (m.step execute i) f s control f' s₁ →
    ∃ path v' place i' s₁', Spare v' ∧ Leads m' c' path ⟨start position, f.widen v, s'⟩
      ⟨place, f.widen v', s₁'⟩ ∧ s'.Like s₁' ∧ s₁'.store = s'.store ∧
      c'.instructions[place]? = some i' ∧ c.Stands c' start i i' ∧ start (position + 1) = place + 1

end Code

/-- All code of a machine is carried by that of another machine. -/
structure Machine.Carries (m m' : Machine) (r : Rules) : Prop where
  renews : m.Renews m'
  callDepth : m'.limits.callDepth = m.limits.callDepth
  plain : m.module.IsPlain
  fitNatives : m.natives.FitFor m.module
  codes : ∀ token d name c, m.module.methodDefAt token = .ok d → m.program.code token name = .ok c →
    ∃ c' start Spare, m'.program.code token name = .ok c' ∧ Code.Carries m m' r d c c' start Spare

/-- Where control goes after an instruction, and after one that stands for it. -/
inductive Control.Corresponds (c c' : Code) (start : Nat → Nat) : Control → Control → Prop
  | next : Corresponds c c' start .next .next
  | jump {target target' : Nat} : (∀ position, c.indexOf? target = some position →
      c'.indexOf? target' = some (start position)) →
      Corresponds c c' start (.jump target) (.jump target')
  | finish (result : Value) : Corresponds c c' start (.finish result) (.finish result)

section One

variable {m m' : Machine} {r : Rules} {v : Width} {f f₁ : Frame} {s s' s₁ : MachineState}
  {c c' : Code} {start : Nat → Nat} {i i' : Instruction} {control : Control} {execute : Executor}
  {execute' : Nat → Nat → Executor}

/-- Only branches go to a target. -/
theorem isBranch_of_jump {target : Nat}
    (h : YieldsWith (m.step execute i) f s (.jump target) f₁ s₁) : i.op.isBranch = true := by
  have other {x : Step Unit} : ¬ YieldsWith (x >>= fun _ => pure Control.next) f s (.jump target) f₁
      s₁ := by
    intro yields
    obtain ⟨u, f₂, s₂, -, last⟩ := yieldsWith_bind.mp yields
    cases (yieldsWith_pure.mp last).1
  obtain ⟨offset, op, operand⟩ := i
  cases op with
  | br | brS | brfalse | brfalseS | brtrue | brtrueS | beq | beqS | bge | bgeS | bgt | bgtS | ble | bleS
  | blt | bltS | bneUn | bneUnS => rfl
  | ret =>
    replace h : YieldsWith Step.finish f s (.jump target) f₁ s₁ := h
    unfold Step.finish at h
    rw [yieldsWith_get_bind] at h
    split at h
    · cases (yieldsWith_pure.mp h).1
    · obtain ⟨value, f₂, s₂, -, last⟩ := yieldsWith_bind.mp h
      cases (yieldsWith_pure.mp last).1
  | throw => exact absurd h (fails_throwTop _ _ _ _ _)
  | _ => exact absurd h other

/-- Instructions that stand for each other have the same outcome. -/
theorem mirrors_stands (carries : m.Carries m' r) (stands : c.Stands c' start i i')
    (agree : ∀ token method arguments, m.module.Entered token method arguments →
      (m.setting r).Mirrors (execute token method arguments)
        fun limit fuel => execute' limit fuel token method arguments)
    (fit : f.method.FitFor m.module) (agrees : (m.setting r).Agrees s s')
    (h : YieldsWith (m.step execute i) f s control f₁ s₁) :
    f.Becomes f₁ ∧ ∃ control' s₁', (m.setting r).Agrees s₁ s₁' ∧
      control.Corresponds c c' start control' ∧ ForEnough fun limit fuel =>
        YieldsWith (m'.step (execute' limit fuel) i') (f.widen v) s' control' (f₁.widen v) s₁' := by
  -- Branches only look at the stack, and their targets correspond; all else does the same anywhere.
  cases branches : i.op.isBranch with
  | false =>
    obtain ⟨offset, rfl⟩ := stands.straight branches
    obtain ⟨becomes, s₁', agrees₁, yields⟩ := mirrors_step (v := v) carries.renews carries.plain fit
      carries.fitNatives agree branches offset agrees h
    refine ⟨becomes, control, s₁', agrees₁, ?_, yields⟩
    cases control with
    | next => exact .next
    | jump target => exact absurd (isBranch_of_jump h) (by simp [branches])
    | finish result => exact .finish result
  | true =>
    obtain ⟨branches', same⟩ := stands.branches branches
    obtain ⟨taken, decided, goes⟩ := (yieldsWith_branch branches).mp h
    obtain ⟨becomes, s₁', agrees₁, n, decides⟩ := mirrors_condition (v := v) _ agrees decided
    have decides := decides n n (Nat.le_refl n) (Nat.le_refl n)
    rw [← same] at decides
    cases taken with
    | false =>
      obtain rfl := goes
      refine ⟨becomes, .next, s₁', agrees₁, .next, .of_forall fun _ _ => ?_⟩
      exact (yieldsWith_branch branches').mpr ⟨false, decides, rfl⟩
    | true =>
      obtain ⟨target, known, rfl⟩ := goes
      obtain ⟨target', known', lands⟩ := stands.lands target branches known
      refine ⟨becomes, .jump target', s₁', agrees₁, .jump lands, .of_forall fun _ _ => ?_⟩
      exact (yieldsWith_branch branches').mpr ⟨true, decides, target', known', rfl⟩

end One

section Runs

variable {m m' : Machine} {r : Rules}

/-- A path does not depend on the limit on instructions. -/
theorem Leads.limited {code : Code} {path : List Nat} {a b : Place} (h : Leads m code path a b)
    (limit : Nat) : Leads (m.limited limit) code path a b := by
  induction h with
  | refl => exact .refl _
  | cons found yields executed goes _ ih => exact .cons found yields executed goes ih

/-- A run that succeeds from the end of a path on succeeds from its beginning on. -/
private theorem forEnough_of_leads {code : Code} {path : List Nat} {a b : Place} {value : Value}
    {f : Frame} {s : MachineState} (leads : Leads m code path a b)
    (h : ForEnough fun limit fuel =>
      YieldsWith ((m.limited limit).runFrom fuel code b.position) b.frame b.state value f s) :
    ForEnough fun limit fuel =>
      YieldsWith ((m.limited limit).runFrom fuel code a.position) a.frame a.state value f s := by
  obtain ⟨n, h⟩ := h
  refine ⟨n + path.length + a.state.executed, fun limit fuel high much => ?_⟩
  obtain ⟨fuel, rfl⟩ := Nat.exists_eq_add_of_le' (show path.length ≤ fuel by omega)
  have same := (leads.limited limit).runFrom_eq (by
    show a.state.executed + path.length ≤ limit
    omega) fuel
  exact same.trans (h limit fuel (by omega) (by omega))

/-- What it means that runs of a machine with the given fuel are carried by another machine. -/
private def CarriesRuns (m m' : Machine) (r : Rules) (fuel : Nat) : Prop :=
  ∀ ⦃d c c' start Spare v position f s s' value f₁ s₁⦄,
    Code.Carries m m' r d c c' start Spare → Spare v → f.Runs d c →
    f.stack.length ≤ f.maxStack → f.method.FitFor m.module → (m.setting r).Agrees s s' →
    YieldsWith (m.runFrom fuel c position) f s value f₁ s₁ →
    ∃ f₁' s₁', (m.setting r).Agrees s₁ s₁' ∧ ForEnough fun limit fuel =>
      YieldsWith ((m'.limited limit).runFrom fuel c' (start position)) (f.widen v) s' value f₁' s₁'

/-- Methods are carried if the code is that they run. -/
private theorem mirrors_enter (carries : m.Carries m' r) {fuel : Nat} (runs : CarriesRuns m m' r fuel)
    {token : Token} {method : Method} {arguments : List Value}
    (entered : m.module.Entered token method arguments) :
    (m.setting r).Mirrors (m.enter (fun callee => m.runFrom fuel callee 0) token method arguments)
      fun limit fuel => (m'.limited limit).enter
        (fun callee => (m'.limited limit).runFrom fuel callee 0) token method arguments := by
  intro s s' value s₁ agrees h
  unfold Machine.enter Run.fault at h
  rw [yields_get_bind, yields_guard, yields_liftM_bind] at h
  obtain ⟨free, c, loaded, h⟩ := h
  obtain ⟨d, found, self⟩ := entered.defined
  obtain ⟨c', start, Spare, loaded', code⟩ := carries.codes token d _ c found loaded
  -- What is in front of the code of the method leaves the store and the rules as they are.
  have body : (m.setting r).Mirrors
      ((m.runFrom fuel c 0).run' (Frame.start method arguments c)) fun limit fuel =>
        ((m'.limited limit).runFrom fuel c' 0).run' (Frame.start method arguments c') := by
    intro s s' value s₁ agrees h
    obtain ⟨⟨value, f₁⟩, ran, rfl⟩ := yields_map.mp h
    obtain ⟨path, v, s₁', spare, leads, like, store⟩ :=
      code.enters method arguments s' self agrees.rules_eq
    obtain ⟨f₁', s₂', agrees', yields⟩ := runs code spare (Frame.runs_start self) (Nat.zero_le _)
      entered.fit (agrees.of_like like store) ran
    refine ⟨s₂', agrees', (forEnough_of_leads leads yields).imp fun limit fuel yields => ?_⟩
    exact yields_map.mpr ⟨(value, f₁'), yields, rfl⟩
  obtain ⟨s₁', agrees', yields⟩ := body.within method agrees h
  refine ⟨s₁', agrees', yields.imp fun limit fuel yields => ?_⟩
  have free' : ¬ (m'.limited limit).limits.callDepth ≤ s'.callStack.length := by
    rw [agrees.depth_eq]
    exact carries.callDepth ▸ free
  unfold Machine.enter Run.fault
  rw [yields_get_bind, yields_guard, yields_liftM_bind]
  exact ⟨free', c', loaded', yields⟩

/-- Runs of code have the outcomes of the code that it carries. -/
private theorem carriesRuns (carries : m.Carries m' r) (fuel : Nat) : CarriesRuns m m' r fuel := by
  induction fuel with
  | zero =>
    intro d c c' start Spare v position f s s' value f₁ s₁ code spare runs fits fit agrees h
    exact (yieldsWith_fault.mp h).elim
  | succ fuel ih =>
    intro d c c' start Spare v position f s s' value f₂ s₂ code spare runs fits fit agrees h
    obtain ⟨i, control, f₁, s₁, found, -, stepped, rest⟩ := Machine.yieldsWith_runFrom_succ.mp h
    obtain ⟨path, v', place, i', s₁', spare', leads, like, store, found', stands, next⟩ :=
      code.reaches position i _ f v _ s₁ s' control f₁ found runs fits spare agrees.rules_eq stepped
    have reached := (agrees.of_like like store).tick i.offset i'.offset
    obtain ⟨becomes, control', s₂', agrees₂, corresponds, steps⟩ := mirrors_stands (v := v') carries
      stands (fun token method arguments entered => mirrors_enter carries ih entered) fit reached stepped
    -- What is left is a run from the same place on, or nothing.
    have ends : ∃ f' s₃', (m.setting r).Agrees s₂ s₃' ∧ ForEnough fun limit fuel =>
        control' = .finish value ∧ f₁.widen v' = f' ∧ s₂' = s₃' ∨
        ∃ target, control'.GoesTo c' place target ∧
          YieldsWith ((m'.limited limit).runFrom fuel c' target) (f₁.widen v') s₂' value f' s₃' := by
      rcases rest with ⟨target, goes, rest⟩ | ⟨rfl, rfl, rfl⟩
      · obtain ⟨f', s₃', agrees₃, yields⟩ := ih code spare' (runs.becomes becomes) (becomes.fits fits)
          (becomes.method_eq ▸ fit) agrees₂ rest
        refine ⟨f', s₃', agrees₃, yields.imp fun limit fuel yields => .inr ⟨start target, ?_, yields⟩⟩
        cases corresponds with
        | next =>
          obtain rfl := goes
          exact next
        | jump lands => exact lands target goes
        | finish result => cases goes
      · cases corresponds
        exact ⟨_, s₂', agrees₂, .of_forall fun _ _ => .inl ⟨rfl, rfl, rfl⟩⟩
    obtain ⟨f', s₃', agrees₃, ends⟩ := ends
    refine ⟨f', s₃', agrees₃, forEnough_of_leads leads ?_⟩
    obtain ⟨n, both⟩ := steps.and ends
    refine ⟨n + s₁'.executed + 1, fun limit fuel high much => ?_⟩
    obtain ⟨fuel, rfl⟩ := Nat.exists_eq_add_of_le' (show 1 ≤ fuel by omega)
    obtain ⟨steps, ends⟩ := both limit fuel (by omega) (by omega)
    refine Machine.yieldsWith_runFrom_succ.mpr ⟨i', control', f₁.widen v', s₂', found', ?_, steps,
      ends.symm⟩
    show s₁'.executed < limit
    omega

/-- Invocations of methods have the outcomes that they have where their code is carried from. -/
theorem Machine.Carries.invoke (carries : m.Carries m' r) {token : Token} {receiver : Option Value}
    {arguments : List Value} {s s' s₁ : MachineState} {value : Value} (store : s'.store = s.store)
    (statics : s'.statics = s.statics) (rules : s'.rules = r) (fit : s.store.FitFor m.module)
    (h : Yields (m.invoke token receiver arguments) s value s₁) :
    ∃ s₁', (m.setting r).Agrees s₁ s₁' ∧ ∃ enough, ∀ limit, enough ≤ limit →
      Yields ((m'.limited limit).invoke token receiver arguments) s' value s₁' := by
  unfold Machine.invoke Run.fault at h
  rw [yields_liftM_bind] at h
  obtain ⟨method, stands, h⟩ := h
  rw [yields_guard, yields_modify_bind] at h
  obtain ⟨arity, h⟩ := h
  have entered : m.module.Entered token method (Machine.withReceiver method receiver
      (arguments.zipWith Value.adaptTo method.parameters)) := by
    refine ⟨?_, fun _ => (carries.plain.definedMethod stands).runsPlain⟩
    obtain ⟨d, found, stands⟩ := bind_eq_ok_iff.mp stands
    obtain ⟨owner, -, same⟩ := bind_eq_ok_iff.mp stands
    refine ⟨d, found, fun this => ?_⟩
    have hasThis : method.hasThis = true := by
      rw [← this, ← Except.ok.inj same]
      rfl
    rw [Machine.withReceiver, if_pos hasThis]
    exact List.cons_ne_nil _ _
  have started : (m.setting r).Agrees { s with executed := 0, callStack := [] }
      { s' with executed := 0, callStack := [] } := ⟨store, statics, rules, rfl, fit⟩
  obtain ⟨s₁', agrees₁, n, yields⟩ := mirrors_enter carries (carriesRuns carries _) entered started h
  refine ⟨s₁', agrees₁, n, fun limit high => ?_⟩
  unfold Machine.invoke Run.fault
  rw [yields_liftM_bind]
  refine ⟨method, (carries.renews.grows.definedMethod).trans stands, ?_⟩
  rw [yields_guard, yields_modify_bind]
  exact ⟨arity, yields limit (limit + 1) high (Nat.le_succ_of_le high)⟩

end Runs

/-- An invocation has the outcome that it has on another machine, where it returns a value: the value,
the store and the static fields are the same, and it does not change the rules.  It may run more
instructions, so that a limit may cut it off. -/
def Machine.Follows (m m' : Machine) (s s' : MachineState) (token : Token) (receiver : Option Value)
    (arguments : List Value) : Prop :=
  ∀ value s₁, Yields (m.invoke token receiver arguments) s value s₁ → ∃ s₁',
    s₁'.store = s₁.store ∧ s₁'.statics = s₁.statics ∧ s₁'.rules = s'.rules ∧
    (∃ enough, ∀ limit, enough ≤ limit →
      Yields ((m'.limited limit).invoke token receiver arguments) s' value s₁') ∧
    ((∃ s₂, (m'.invoke token receiver arguments).run.run s' =
      (.error (.fault (.instructionLimit m'.limits.instructions)), s₂)) ∨
      Yields (m'.invoke token receiver arguments) s' value s₁')

/-- Invocations follow those on a machine whose code is carried. -/
theorem Machine.Carries.follows {m m' : Machine} {s s' : MachineState} (carries : m.Carries m' s'.rules)
    (store : s'.store = s.store) (statics : s'.statics = s.statics) (fit : s.store.FitFor m.module)
    (token : Token) (receiver : Option Value) (arguments : List Value) :
    m.Follows m' s s' token receiver arguments := by
  intro value s₁ h
  obtain ⟨s₁', agrees, enough, yields⟩ := carries.invoke store statics rfl fit h
  refine ⟨s₁', agrees.store_eq, agrees.statics_eq, agrees.rules_eq, ⟨enough, yields⟩, ?_⟩
  let limit := m'.limits.instructions
  have high := yields (max limit enough) (Nat.le_max_right _ _)
  rcases cutOrSame_invoke (Nat.le_max_left limit enough) token receiver arguments s' with cut | same
  · exact .inl cut
  · exact .inr (same.trans high)

end Interpose
