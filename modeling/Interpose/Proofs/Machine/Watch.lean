import Interpose.Proofs.Machine.Preservation

/-!
# Watched runs

A watch is put on the loop that runs instructions.  It looks at the state before each instruction,
in whatever method, and may stop the run there; and it gives errors of its own to a run that has run
too many instructions and to one that is out of fuel, which no method can fail with by accident.  A
watch that sees nothing and speaks like the machine leaves runs as they are.

## Main definitions

* `Watch` — when a run is to stop, and with which errors
* `Machine.runUnder`, `Machine.executeUnder`, `Machine.invokeUnder` — runs under a watch
* `Machine.unwatched` — the watch that changes nothing
* `Lasting` — a relation between states that tolerates whatever a run does

## Main results

* `Machine.runUnder_unwatched` — runs are watched runs
* `respects_runUnder` — relations that hold across runs of code
-/

namespace Interpose

/-- What is said of a run while it goes on. -/
structure Watch where
  /-- The error that stops a run before an instruction, if it is to stop there. -/
  alarm : MachineState → Option Error
  /-- The error of a run that has run too many instructions. -/
  overLimit : Error
  /-- The error of a run that is out of fuel. -/
  outOfFuel : Error

/-- Stops a run if it is to stop. -/
def Watch.look (w : Watch) : Run Unit := do
  match w.alarm (← get) with
  | some error => throw error
  | none => return

namespace Machine

/-- Counts an instruction under a watch. -/
def countUnder (m : Machine) (w : Watch) (i : Instruction) : Run Unit := do
  modify fun s => { s with executed := s.executed + 1 }
  if m.limits.instructions < (← get).executed then throw w.overLimit
  modify fun s =>
    match s.callStack with
    | frame :: outer => { s with callStack := { frame with offset := i.offset } :: outer }
    | [] => s

/-- Runs the code of a method from a position on, under a watch. -/
def runUnder (m : Machine) (w : Watch) : (fuel : Nat) → Code → (position : Nat) → Step Value
  | 0, _, _ => throw w.outOfFuel
  | fuel + 1, code, position => do
    w.look
    match code.instructions[position]? with
    | none => Step.fault (.fellThrough (← get).method.fullName)
    | some i =>
      m.countUnder w i
      match ← m.step (m.enter fun callee => m.runUnder w fuel callee 0) i with
      | .next => m.runUnder w fuel code (position + 1)
      | .jump offset => m.runUnder w fuel code (← positionOf code offset)
      | .finish result => return result

/-- Runs a method under a watch, with the given fuel. -/
def executeUnder (m : Machine) (w : Watch) (fuel : Nat) : Executor :=
  m.enter fun code => m.runUnder w fuel code 0

/-- Invokes a method of the module under a watch, with the given fuel. -/
def invokeUnder (m : Machine) (w : Watch) (fuel : Nat) (token : Token) (receiver : Option Value)
    (arguments : List Value) : Run Value := do
  let method ← m.module.definedMethod token
  if arguments.length ≠ method.parameters.length then
    Run.fault (.argumentIndex arguments.length method.parameters.length)
  let arguments := arguments.zipWith Value.adaptTo method.parameters
  modify fun s => { s with executed := 0, callStack := [] }
  m.executeUnder w fuel token method (withReceiver method receiver arguments)

/-- The watch that changes nothing. -/
def unwatched (m : Machine) : Watch where
  alarm _ := none
  overLimit := .fault (.instructionLimit m.limits.instructions)
  outOfFuel := .fault (.instructionLimit m.limits.instructions)

variable {m : Machine}

theorem runUnder_unwatched (fuel : Nat) (code : Code) (position : Nat) :
    m.runUnder m.unwatched fuel code position = m.runFrom fuel code position := by
  induction fuel generalizing code position with
  | zero => rfl
  | succ fuel ih =>
    have callee : (fun callee => m.runUnder m.unwatched fuel callee 0) =
        fun callee => m.runFrom fuel callee 0 := funext fun callee => ih callee 0
    rw [runFrom, runUnder, callee]
    simp only [ih]
    rfl

theorem invokeUnder_unwatched (token : Token) (receiver : Option Value) (arguments : List Value) :
    m.invokeUnder m.unwatched (m.limits.instructions + 1) token receiver arguments =
      m.invoke token receiver arguments := by
  have execute : m.executeUnder m.unwatched (m.limits.instructions + 1) = m.execute := by
    unfold executeUnder Machine.execute
    simp only [runUnder_unwatched]
  unfold invokeUnder Machine.invoke
  rw [execute]

end Machine

/-- A relation between the states before and behind a computation that holds of all that a run does,
since it looks neither at the call stack nor at the number of instructions, or lets it grow. -/
class Lasting (P : MachineState → MachineState → Prop) : Prop extends Indifferent P where
  executed (s : MachineState) : P s { s with executed := s.executed + 1 }
  callStack (s : MachineState) (callStack : StackTrace) : P s { s with callStack }

section Runs

variable {P : MachineState → MachineState → Prop} [Lasting P] {m : Machine} {w : Watch}

theorem respects_look : w.look.Respects P := .get_bind fun s => by
  split
  · exact .of_same fun _ => rfl
  · exact .pure ()

theorem respects_countUnder (i : Instruction) : (m.countUnder w i).Respects P := by
  intro s
  have counted : P s { s with executed := s.executed + 1 } := Lasting.executed s
  show P s ((if m.limits.instructions < s.executed + 1 then _ else _ :
    Run Unit).run.run { s with executed := s.executed + 1 }).2
  split
  · exact counted
  · rcases s with ⟨store, rules, statics, callStack, executed⟩
    cases callStack with
    | nil => exact counted
    | cons entry outer => exact Indifferent.trans counted (Lasting.callStack _ _)

theorem respects_enter {run : Code → Step Value} (h : ∀ code, (run code).Respects P) (token : Token)
    (method : Method) (arguments : List Value) :
    (m.enter run token method arguments).Respects P := by
  have inside (code : Code) : Run.Respects P
      (Run.within method ((run code).run' (Frame.start method arguments code))) := fun s =>
    have body : Run.Respects P ((run code).run' (Frame.start method arguments code)) :=
      .bind (h code _) fun _ => .pure _
    Indifferent.trans (Lasting.callStack s _) (Indifferent.trans (body _) (Lasting.callStack _ _))
  have behind : Run.Respects P (do
      let code ← m.program.code token method.fullName
      Run.within method ((run code).run' (Frame.start method arguments code))) :=
    (Run.Respects.of_result _).bind inside
  unfold Machine.enter
  exact .get_bind fun _ => .ite (.bind (.fault _) fun _ => behind) behind

/-- The relation holds across a run of code, with all that is called in it. -/
theorem respects_runUnder (fuel : Nat) (code : Code) (position : Nat) :
    (m.runUnder w fuel code position).Respects P := by
  induction fuel generalizing code position with
  | zero => exact fun _ => .of_same fun _ => rfl
  | succ fuel ih =>
    have step (i : Instruction) :
        (m.step (m.enter fun callee => m.runUnder w fuel callee 0) i).Respects P :=
      respects_step (respects_enter fun callee => ih callee 0) i
    rw [Machine.runUnder]
    refine .bind (.lift respects_look) fun _ => ?_
    split
    · exact .get_bind fun _ => .fault _
    · refine .bind (.lift (respects_countUnder _)) fun _ => (step _).bind fun control => ?_
      cases control with
      | next => exact ih code _
      | jump offset => exact (Step.Respects.of_result _).bind fun target => ih code target
      | finish result => exact .pure result

end Runs

end Interpose
