import Interpose.Proofs.Machine.Guarded

/-!
# The trail of a run

A run of code leaves a trail: the places where it runs an instruction, one after the other.  Where a
run gets to can be said of its trail, whatever comes of the run in the end.

## Main definitions

* `Machine.next?` — the place to which an instruction leads
* `Machine.trail` — the places where a run runs an instruction
* `Code.MayGo` — where control may go from an instruction

## Main results

* `Machine.forall_mem_trail_succ` — what holds all along a trail
* `Machine.exists_runFrom_eq_of_mem_trail` — a run may be taken up anywhere on its trail
* `Machine.method_of_mem_trail` — the same method runs all along a trail
* `mayGo_of_step` — where control goes
-/

namespace Interpose

/-- Where control goes in code, given the position of the instruction it comes from. -/
def Control.target? (code : Code) (position : Nat) : Control → Option Nat
  | .next => some (position + 1)
  | .jump offset => code.indexOf? offset
  | .finish _ => none

theorem Control.target?_eq_some_iff {code : Code} {position target : Nat} {control : Control} :
    control.target? code position = some target ↔ control.GoesTo code position target := by
  cases control with
  | next => exact Option.some_inj.trans eq_comm
  | jump offset => exact Iff.rfl
  | finish result => exact ⟨fun h => (nomatch h), False.elim⟩

namespace Machine

/-- The place to which the instruction at a place leads, in a run that has so much fuel left. -/
def next? (m : Machine) (code : Code) (fuel : Nat) (a : Place) (i : Instruction) : Option Place :=
  match ((m.step (m.enter fun callee => m.runFrom fuel callee 0) i).run a.frame).run.run
      (a.state.tick i.offset) with
  | (.ok (control, frame), state) =>
    (control.target? code a.position).map fun position => ⟨position, frame, state⟩
  | (.error _, _) => none

/-- The places where a run of code runs an instruction, given the fuel and the place where it begins.
As in `runFrom`, an instruction is run if it is not one too many. -/
def trail (m : Machine) (code : Code) : (fuel : Nat) → Place → List Place
  | 0, _ => []
  | fuel + 1, a =>
    match code.instructions[a.position]? with
    | none => []
    | some i =>
      if a.state.executed < m.limits.instructions then
        a :: match m.next? code fuel a i with
          | some b => m.trail code fuel b
          | none => []
      else []

variable {m : Machine} {code : Code} {fuel : Nat} {a b : Place} {i : Instruction} {P : Place → Prop}

theorem next?_eq_some_iff : m.next? code fuel a i = some b ↔ ∃ control,
    YieldsWith (m.step (m.enter fun callee => m.runFrom fuel callee 0) i) a.frame
      (a.state.tick i.offset) control b.frame b.state ∧ control.GoesTo code a.position b.position := by
  unfold next? YieldsWith Yields
  constructor
  · intro h
    split at h
    case h_1 control frame state ran =>
      obtain ⟨position, goes, rfl⟩ := Option.map_eq_some_iff.mp h
      exact ⟨control, ran, Control.target?_eq_some_iff.mp goes⟩
    case h_2 => cases h
  · rintro ⟨control, ran, goes⟩
    rw [ran]
    exact Option.map_eq_some_iff.mpr ⟨_, Control.target?_eq_some_iff.mpr goes, rfl⟩

/-- What holds all along a trail: it holds where an instruction is run, and all along the trail from
the place to which the instruction leads. -/
theorem forall_mem_trail_succ : (∀ c ∈ m.trail code (fuel + 1) a, P c) ↔
    ∀ i, code.instructions[a.position]? = some i → a.state.executed < m.limits.instructions →
      P a ∧ ∀ b, m.next? code fuel a i = some b → ∀ c ∈ m.trail code fuel b, P c := by
  rw [trail]
  cases code.instructions[a.position]? with
  | none => simp
  | some i =>
    by_cases free : a.state.executed < m.limits.instructions
    · cases leads : m.next? code fuel a i <;> simp [free, leads]
    · simp [free]

/-- A trail begins where the run does. -/
theorem trail_eq_nil_or_mem : m.trail code fuel a = [] ∨ a ∈ m.trail code fuel a := by
  cases fuel with
  | zero => exact .inl rfl
  | succ fuel =>
    rw [trail]
    split
    · exact .inl rfl
    · split
      · exact .inr List.mem_cons_self
      · exact .inl rfl

/-- A run may be taken up anywhere on its trail. -/
theorem exists_runFrom_eq_of_mem_trail : ∀ b ∈ m.trail code fuel a, ∃ fuel',
    ((m.runFrom fuel code a.position).run a.frame).run.run a.state =
      ((m.runFrom fuel' code b.position).run b.frame).run.run b.state := by
  induction fuel generalizing a with
  | zero => exact fun _ member => nomatch member
  | succ fuel ih =>
    refine forall_mem_trail_succ.mpr fun i found free => ⟨⟨fuel + 1, rfl⟩, fun c leads b member => ?_⟩
    -- The run goes on where the instruction leads, with less fuel.
    obtain ⟨fuel', same⟩ := ih b member
    obtain ⟨control, stepped, goes⟩ := next?_eq_some_iff.mp leads
    refine ⟨fuel', Eq.trans ?_ same⟩
    have counted : YieldsWith (liftM (m.count i) : Step Unit) a.frame a.state () a.frame
        (a.state.tick i.offset) := yieldsWith_lift.mpr ⟨yields_count.mpr ⟨free, rfl⟩, rfl⟩
    rw [runFrom]
    simp only [found]
    rw [counted.run_bind, stepped.run_bind]
    cases control with
    | next =>
      rw [show c.position = a.position + 1 from goes]
    | jump offset =>
      exact (yieldsWith_liftM.mpr ⟨positionOf_eq_ok_iff.mpr goes, rfl, rfl⟩).run_bind
    | finish result => cases goes

/-- The same method runs all along a trail. -/
theorem method_of_mem_trail : ∀ b ∈ m.trail code fuel a, b.frame.method = a.frame.method := by
  induction fuel generalizing a with
  | zero => exact fun _ member => nomatch member
  | succ fuel ih =>
    refine forall_mem_trail_succ.mpr fun i found free => ⟨rfl, fun c leads b member => ?_⟩
    obtain ⟨control, stepped, -⟩ := next?_eq_some_iff.mp leads
    exact (ih b member).trans (changes_of_step stepped).method_eq

end Machine

/-- Where control may go from an instruction: to the one behind it, unless it always jumps, and to its
target, if it branches. -/
def Code.MayGo (c : Code) (i : Instruction) (position target : Nat) : Prop :=
  (target = position + 1 ∧ i.op ≠ .br ∧ i.op ≠ .brS) ∨
    i.op.isBranch = true ∧ ∃ offset, i.target? = some offset ∧ c.indexOf? offset = some target

theorem mayGo_of_step {m : Machine} {execute : Executor} {code : Code} {i : Instruction}
    {f f' : Frame} {s s' : MachineState} {control : Control} {position target : Nat}
    (h : YieldsWith (m.step execute i) f s control f' s') (goes : control.GoesTo code position target) :
    code.MayGo i position target := by
  have jumps (always : i.op = .br ∨ i.op = .brS) : control ≠ .next := by
    rintro rfl
    have stepped : YieldsWith (Step.jump i) f s .next f' s' := by
      unfold Machine.step at h
      rcases always with op | op <;> rwa [op] at h
    obtain ⟨_, _, _, -, last⟩ := yieldsWith_bind.mp stepped
    cases (yieldsWith_pure.mp last).1
  cases control with
  | next => exact .inl ⟨goes, fun op => jumps (.inl op) rfl, fun op => jumps (.inr op) rfl⟩
  | jump offset => exact .inr ⟨isBranch_of_jump h, offset, target?_of_jump h, goes⟩
  | finish result => cases goes

end Interpose
