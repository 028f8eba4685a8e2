import Interpose.Proofs.Machine.Preservation

/-!
# Limits on instructions

A higher limit on the number of instructions changes no run that the lower limit does not cut off.

## Main definitions

* `CutOrSame` — a computation is cut off by a limit, or it ends like another one
* `Machine.limited` — a machine with another limit on instructions

## Main results

* `cutOrSame_runFrom` — runs of code with a lower and a higher limit
* `cutOrSame_invoke` — invocations with a lower and a higher limit
-/

namespace Interpose

/-- Wherever it is started, the first computation is cut off because of the limit on instructions,
or it ends like the second one. -/
def CutOrSame {α : Type} (limit : Nat) (x y : Run α) : Prop :=
  ∀ s, (∃ s', x.run.run s = (.error (.fault (.instructionLimit limit)), s')) ∨
    x.run.run s = y.run.run s

/-- The innermost method is taken off the call stack. -/
private def leave {α : Type} (out : Except Error α × MachineState) :
    Except Error α × MachineState :=
  (out.1, { out.2 with callStack := out.2.callStack.tail })

private theorem within_run {α : Type} (method : Method) (x : Run α) (s : MachineState) :
    (Run.within method x).run.run s =
      leave (x.run.run { s with callStack := ⟨method, 0⟩ :: s.callStack }) := rfl

namespace CutOrSame

variable {α β : Type} {limit : Nat} {x y : Run α} {k l : α → Run β}

theorem refl (limit : Nat) (x : Run α) : CutOrSame limit x x := fun _ => .inr rfl

/-- A computation that is always cut off. -/
theorem of_limit (limit : Nat) (y : Run α) :
    CutOrSame limit (Run.fault (.instructionLimit limit)) y := fun s => .inl ⟨s, rfl⟩

theorem bind (h : CutOrSame limit x y) (h' : ∀ a, CutOrSame limit (k a) (l a)) :
    CutOrSame limit (x >>= k) (y >>= l) := by
  intro s
  rcases h s with ⟨s', cut⟩ | same
  · left
    refine ⟨s', ?_⟩
    rw [ExceptT.run_bind, StateT.run_bind, cut]
    rfl
  · rw [ExceptT.run_bind, ExceptT.run_bind, StateT.run_bind, StateT.run_bind, same]
    rcases y.run.run s with ⟨result, s₁⟩
    cases result with
    | error e => exact .inr rfl
    | ok a => exact h' a s₁

/-- What is behind a fault does not matter. -/
theorem fault_bind (limit : Nat) (f : Fault) (k l : α → Run β) :
    CutOrSame limit (Run.fault f >>= k) (Run.fault f >>= l) := fun _ => .inr rfl

/-- The same condition decides on both sides. -/
theorem ite {c : Prop} [Decidable c] {x' y' : Run α} (h : CutOrSame limit x y)
    (h' : CutOrSame limit x' y') :
    CutOrSame limit (if c then x else x') (if c then y else y') := by
  by_cases holds : c
  · rwa [if_pos holds, if_pos holds]
  · rwa [if_neg holds, if_neg holds]

theorem within (method : Method) (h : CutOrSame limit x y) :
    CutOrSame limit (Run.within method x) (Run.within method y) := by
  intro s
  rcases h { s with callStack := ⟨method, 0⟩ :: s.callStack } with ⟨s', cut⟩ | same
  · left
    exact ⟨_, (within_run method x s).trans (congrArg leave cut)⟩
  · right
    exact congrArg leave same

end CutOrSame

/-- A machine with another limit on instructions. -/
def Machine.limited (m : Machine) (limit : Nat) : Machine :=
  { m with limits := { m.limits with instructions := limit } }

section Steps

/-- Nothing is asked of what instructions do by themselves. -/
private instance : Indifferent fun _ _ => True where
  refl _ := trivial
  trans _ _ := trivial
  store _ _ := trivial
  statics _ _ := trivial
  provider _ _ _ := trivial
  callMap _ _ _ _ := trivial

private theorem congruence_cutOrSame (limit : Nat) :
    Run.Congruence (fun _ _ => True) fun _ => CutOrSame limit where
  refl _ := .refl limit _
  bind := .bind

/-- Computations of a running method, wherever they are started. -/
private def StepsCutOrSame {α : Type} (limit : Nat) (x y : Step α) : Prop :=
  ∀ f, CutOrSame limit (x.run f) (y.run f)

variable {limit : Nat}

private theorem StepsCutOrSame.refl {α : Type} (x : Step α) : StepsCutOrSame limit x x :=
  fun f => .refl limit (x.run f)

private theorem StepsCutOrSame.bind {α β : Type} {x y : Step α} {k l : α → Step β}
    (h : StepsCutOrSame limit x y) (h' : ∀ a, StepsCutOrSame limit (k a) (l a)) :
    StepsCutOrSame limit (x >>= k) (y >>= l) := fun f => (h f).bind fun out => h' out.1 out.2

private theorem StepsCutOrSame.lift {α : Type} {x y : Run α} (h : CutOrSame limit x y) :
    StepsCutOrSame limit (liftM x : Step α) (liftM y) := fun _ => h.bind fun _ => .refl limit _

/-- Instructions run methods that they call, and nothing else is cut off. -/
theorem cutOrSame_step {m : Machine} {execute execute' : Executor}
    (agree : ∀ token method arguments, CutOrSame limit (execute token method arguments)
      (execute' token method arguments)) (i : Instruction) (f : Frame) :
    CutOrSame limit ((m.step execute i).run f) ((m.step execute' i).run f) :=
  (congruence_cutOrSame limit).step agree i f

end Steps

section Runs

variable {m : Machine} {limit limit' : Nat}

private theorem cutOrSame_count (higher : limit ≤ limit') (i : Instruction) :
    CutOrSame limit ((m.limited limit).count i) ((m.limited limit').count i) := by
  intro s
  by_cases cut : limit < s.executed + 1
  · left
    refine ⟨{ s with executed := s.executed + 1 }, ?_⟩
    show (if limit < s.executed + 1 then _ else _ : Run Unit).run.run _ = _
    rw [if_pos cut]
    rfl
  · right
    show (if limit < s.executed + 1 then _ else _ : Run Unit).run.run _ =
      (if limit' < s.executed + 1 then _ else _ : Run Unit).run.run _
    rw [if_neg cut, if_neg (by omega)]

/-- Methods that are entered with a lower and a higher limit. -/
private theorem cutOrSame_enter {run run' : Code → Step Value}
    (h : ∀ code f, CutOrSame limit ((run code).run f) ((run' code).run f)) (token : Token)
    (method : Method) (arguments : List Value) :
    CutOrSame limit ((m.limited limit).enter run token method arguments)
      ((m.limited limit').enter run' token method arguments) := by
  unfold Machine.enter
  refine (CutOrSame.refl limit get).bind fun s => ?_
  refine CutOrSame.ite (.fault_bind limit _ _ _) ?_
  refine (CutOrSame.refl limit _).bind fun code => ?_
  exact .within method ((h code _).bind fun _ => .refl limit _)

/-- Runs of code with a lower and a higher limit. -/
theorem cutOrSame_runFrom (higher : limit ≤ limit') {fuel fuel' : Nat} (more : fuel ≤ fuel')
    (code : Code) (position : Nat) (f : Frame) :
    CutOrSame limit (((m.limited limit).runFrom fuel code position).run f)
      (((m.limited limit').runFrom fuel' code position).run f) := by
  induction fuel generalizing fuel' code position f with
  | zero => exact .of_limit limit _
  | succ fuel ih =>
    obtain ⟨fuel', rfl⟩ := Nat.exists_eq_add_of_le' (Nat.le_of_add_left_le more)
    have more : fuel ≤ fuel' := Nat.le_of_succ_le_succ more
    revert f
    show StepsCutOrSame limit _ _
    rw [Machine.runFrom, Machine.runFrom]
    split
    · exact .refl _
    · rename_i i found
      refine (StepsCutOrSame.lift (cutOrSame_count higher i)).bind fun _ => ?_
      refine StepsCutOrSame.bind (fun f => cutOrSame_step (fun token method arguments =>
        cutOrSame_enter (fun code f => ih more code 0 f) token method arguments) i f) fun control => ?_
      cases control with
      | next => exact fun f => ih more code _ f
      | jump offset => exact (StepsCutOrSame.refl _).bind fun target f => ih more code target f
      | finish result => exact .refl _

/-- A method that is run with a lower and a higher limit. -/
theorem cutOrSame_execute (higher : limit ≤ limit') (token : Token) (method : Method)
    (arguments : List Value) :
    CutOrSame limit ((m.limited limit).execute token method arguments)
      ((m.limited limit').execute token method arguments) := by
  have fuel (limit : Nat) : (m.limited limit).execute =
      (m.limited limit).enter fun code => (m.limited limit).runFrom (limit + 1) code 0 := rfl
  rw [fuel, fuel]
  refine cutOrSame_enter (fun code f => ?_) token method arguments
  exact cutOrSame_runFrom higher (Nat.succ_le_succ higher) code 0 f

/-- A method of the module that is invoked with a lower and a higher limit. -/
theorem cutOrSame_invoke (higher : limit ≤ limit') (token : Token) (receiver : Option Value)
    (arguments : List Value) :
    CutOrSame limit ((m.limited limit).invoke token receiver arguments)
      ((m.limited limit').invoke token receiver arguments) := by
  unfold Machine.invoke
  refine (CutOrSame.refl limit _).bind fun method => CutOrSame.ite (.fault_bind limit _ _ _) ?_
  exact (CutOrSame.refl limit _).bind fun _ => cutOrSame_execute higher token method _

end Runs

end Interpose
