import Interpose.Proofs.Code.Reassembly
import Interpose.Proofs.Machine.Carrying
import Interpose.Proofs.Machine.Frames

/-!
# Guarded runs

A guard looks at the frame before each instruction, in whatever method, and stops the run with an
error of its own if the stack is higher than the code of the method allows, if there are more or fewer
arguments or local variables than when the method began, or if the run is past the end of the code.
No guard ever stops a run of code that was decoded from bodies.

## Main definitions

* `Code.IsDecoded` — code that was decoded from a body
* `Opcode.isTransfer` — jumps, and what loads or stores a variable or a constant
* `Frame.Intact` — what a guard looks for
* `Machine.runGuarded` — runs under a guard
* `Machine.GuestFails` — a native method or a substitute fails with an error

## Main results

* `soundIn_transfer` — decoded jumps, and what loads or stores, have their operands
* `Machine.runGuarded_eq` — no guard stops a run
* `changes_of_step` — instructions use the stack as they are said to
* `sound_runFrom` — runs fail with no error of bad code unless natives or substitutes do
* `Machine.intact_runFrom` — all of this of runs of a module
-/

namespace Interpose

/-- The code was decoded from a body. -/
def Code.IsDecoded (c : Code) : Prop := ∃ body, Code.ofBody body = .ok (some c)

namespace Code.IsDecoded

variable {c : Code}

theorem exists_decodeCode (h : c.IsDecoded) :
    ∃ code, decodeCode code = .ok c.instructions.toList := by
  obtain ⟨body, decoded⟩ := h
  obtain ⟨instructions, read, rest⟩ := bind_eq_ok_iff.mp decoded
  split at rest
  case isTrue => cases rest
  case isFalse =>
    cases rest
    exact ⟨body.code, read⟩

/-- Every branch goes to an instruction. -/
theorem lands (h : c.IsDecoded) {i : Instruction} (member : i ∈ c.instructions) {target : Nat}
    (goes : i.target? = some target) :
    ∃ position, c.indexOf? target = some position ∧ position < c.instructions.size := by
  obtain ⟨code, read⟩ := h.exists_decodeCode
  obtain ⟨-, straight⟩ := decodeCode_eq_ok_iff.mp read
  obtain ⟨j, there, at?⟩ := strayBranch?_eq_none_iff.mp straight i (by simpa using member) target goes
  unfold Code.indexOf?
  cases found : c.instructions.findIdx? (·.offset = target) with
  | none =>
    have none := Array.findIdx?_eq_none_iff.mp found j (by simpa using there)
    exact absurd at? (by simpa using none)
  | some position => exact ⟨position, rfl, (Array.findIdx?_eq_some_iff_getElem.mp found).1⟩

/-- Every operand is one that follows the operation. -/
theorem isFor (h : c.IsDecoded) {i : Instruction} (member : i ∈ c.instructions) :
    i.operand.IsFor i.op := by
  obtain ⟨code, read⟩ := h.exists_decodeCode
  have listed : i ∈ c.instructions.toList := by simpa using member
  obtain ⟨bytes, spelled⟩ := (spelledFrom_of_decodeCode read).spelled_of_mem listed
  exact spelled.isFor (asRead_of_decodeCode read i listed)

end Code.IsDecoded

/-- What runs in a module whose bodies are decoded was decoded from a body. -/
theorem Program.isDecoded_of_code {m : Module} {token : Token} {name : String} {c : Code}
    (h : (Program.ofModule m).code token name = .ok c) : c.IsDecoded := by
  obtain ⟨decoded, known, taken⟩ := bind_eq_ok_iff.mp h
  cases decoded with
  | none => cases taken
  | some code =>
    cases taken
    cases found : token.index?.bind ((Program.ofModule m).codes[·]?) with
    | none =>
      rw [found] at known
      cases known
    | some entry =>
      rw [found] at known
      obtain ⟨index, -, listed⟩ := Option.bind_eq_some_iff.mp found
      simp only [Program.ofModule, Array.getElem?_map, Option.map_eq_some_iff] at listed
      obtain ⟨d, -, rfl⟩ := listed
      cases hasBody : d.body with
      | none => simp [hasBody] at known
      | some body => exact ⟨body, by simpa [hasBody] using known⟩

/-- Whether an operation jumps, or loads or stores an argument, a local variable or a constant. -/
def Opcode.isTransfer (op : Opcode) : Bool :=
  op.isBranch ||
    match op with
    | ldarg0 | ldarg1 | ldarg2 | ldarg3 | ldargS | ldarg | stargS | starg
    | ldloc0 | ldloc1 | ldloc2 | ldloc3 | ldlocS | ldloc
    | stloc0 | stloc1 | stloc2 | stloc3 | stlocS | stloc
    | ldnull | ldcI4M1 | ldcI40 | ldcI41 | ldcI42 | ldcI43 | ldcI44 | ldcI45 | ldcI46 | ldcI47
    | ldcI48 | ldcI4S | ldcI4 | ldcI8 | ldcR8 => true
    | _ => false

section Transfers

variable {G : MachineState → Prop} {A : Error → Prop} [StackErrors A] {m : Machine}
  {execute : Executor} {f : Frame} {offset : Nat} {op : Opcode} {operand : Operand}

/-- Jumps, and what loads or stores a variable or a constant, fail only with errors of the stack, of
variables and of comparisons. -/
theorem soundIn_transfer (transfer : op.isTransfer = true) (fits : operand.IsFor op) :
    Step.SoundIn G A f (m.stackUse f ⟨offset, op, operand⟩).takes
      (m.stackUse f ⟨offset, op, operand⟩).puts (m.step execute ⟨offset, op, operand⟩) := by
  have next {takes puts : Nat} {x : Step Unit} (h : Step.SoundIn G A f takes puts x) :
      Step.SoundIn G A f takes puts (x >>= fun _ => pure Control.next) := h.bind_rest fun _ _ => .pure _
  have jumpIf (branches : op.isBranch = true) (f : Frame) (condition : Bool) :
      Step.SoundIn G A f 0 0 (Step.jumpIf ⟨offset, op, operand⟩ condition) := by
    obtain ⟨target, rfl⟩ := fits.exists_target branches
    exact .ite (.pure _) (.pure _)
  cases op with
  | br | brS => exact jumpIf rfl f true
  | brfalse | brfalseS | brtrue | brtrueS => exact soundIn_pop.bind fun _ _ => jumpIf rfl _ _
  | beq | beqS | bge | bgeS | bgt | bgtS | ble | bleS | blt | bltS | bneUn | bneUnS =>
    exact (soundIn_comparison _).bind fun _ _ => jumpIf rfl _ _
  | ldarg0 | ldarg1 | ldarg2 | ldarg3 => exact next (soundIn_loadArgument _)
  | ldargS | ldarg =>
    obtain ⟨index, rfl⟩ := fits
    exact next (soundIn_loadArgument _)
  | stargS | starg =>
    obtain ⟨index, rfl⟩ := fits
    exact next (soundIn_storeArgument _)
  | ldloc0 | ldloc1 | ldloc2 | ldloc3 => exact next (soundIn_loadLocal _)
  | ldlocS | ldloc =>
    obtain ⟨index, rfl⟩ := fits
    exact next (soundIn_loadLocal _)
  | stloc0 | stloc1 | stloc2 | stloc3 => exact next (soundIn_storeLocal _)
  | stlocS | stloc =>
    obtain ⟨index, rfl⟩ := fits
    exact next (soundIn_storeLocal _)
  | ldnull | ldcI4M1 | ldcI40 | ldcI41 | ldcI42 | ldcI43 | ldcI44 | ldcI45 | ldcI46 | ldcI47
  | ldcI48 => exact next (soundIn_push _)
  | ldcI4S | ldcI4 | ldcI8 | ldcR8 =>
    cases operand <;> first | exact next (soundIn_push _) | cases fits
  | _ => cases transfer

end Transfers

/-- What a guard looks for before the instruction at a position, in a method that began in the frame
`first`. -/
structure Frame.Intact (f : Frame) (code : Code) (first : Frame) (position : Nat) : Prop where
  stack : f.stack.length ≤ code.maxStack
  room : f.maxStack = code.maxStack
  arguments : f.arguments.size = first.arguments.size
  locals : f.locals.size = first.locals.size
  inside : position ≤ code.instructions.size

namespace Frame.Intact

variable {code : Code} {first f f' : Frame} {position position' : Nat}

instance : Decidable (f.Intact code first position) :=
  decidable_of_iff (f.stack.length ≤ code.maxStack ∧ f.maxStack = code.maxStack ∧
      f.arguments.size = first.arguments.size ∧ f.locals.size = first.locals.size ∧
      position ≤ code.instructions.size)
    ⟨fun h => ⟨h.1, h.2.1, h.2.2.1, h.2.2.2.1, h.2.2.2.2⟩,
      fun h => ⟨h.stack, h.room, h.arguments, h.locals, h.inside⟩⟩

/-- The frame in which a method starts is intact. -/
theorem start (method : Method) (arguments : List Value) (code : Code) :
    (Frame.start method arguments code).Intact code (.start method arguments code) 0 :=
  ⟨Nat.zero_le _, rfl, rfl, rfl, Nat.zero_le _⟩

/-- A frame stays intact while its form stays. -/
theorem becomes (h : f.Intact code first position) (becomes : f.Becomes f')
    (inside : position' ≤ code.instructions.size) : f'.Intact code first position' where
  stack := by
    have fits := becomes.fits (h.room ▸ h.stack)
    rwa [becomes.maxStack_eq, h.room] at fits
  room := becomes.maxStack_eq.trans h.room
  arguments := becomes.arguments_size.trans h.arguments
  locals := becomes.locals_size.trans h.locals
  inside := inside

end Frame.Intact

namespace Machine

/-- Stops a run where the frame is not intact. -/
def guard (alarm : Error) (code : Code) (first : Frame) (position : Nat) : Step Unit := do
  if ¬ (← get).Intact code first position then throw alarm

/-- Runs the code of a method from a position on as `runFrom` does, under a guard that looks at every
frame, and that stops the run with an error of its own. -/
def runGuarded (m : Machine) (alarm : Error) :
    (fuel : Nat) → Code → (first : Frame) → (position : Nat) → Step Value
  | 0, code, first, position => do
    guard alarm code first position
    Step.fault (.instructionLimit m.limits.instructions)
  | fuel + 1, code, first, position => do
    guard alarm code first position
    match code.instructions[position]? with
    | none => Step.fault (.fellThrough (← get).method.fullName)
    | some i =>
      m.count i
      let execute := m.enter fun callee => do m.runGuarded alarm fuel callee (← get) 0
      match ← m.step execute i with
      | .next => m.runGuarded alarm fuel code first (position + 1)
      | .jump offset => m.runGuarded alarm fuel code first (← positionOf code offset)
      | .finish result => return result

end Machine

section Runs

variable {m : Machine} {execute : Executor} {code : Code} {first f f' : Frame} {i : Instruction}
  {s s' : MachineState} {control : Control} {position : Nat} {alarm : Error}

/-- Every error is some error. -/
private instance : MachineErrors fun _ => True := ⟨fun _ _ => ⟨⟩, fun _ => ⟨⟩, ⟨⟩, fun _ _ => ⟨⟩⟩

private instance : Indifferent (Keeps fun _ => True) :=
  ⟨fun _ => id, fun _ _ => id, fun _ _ => id, fun _ _ => id, fun _ _ _ => id, fun _ _ _ _ => id⟩

/-- An instruction keeps the form of the frame and uses the stack as it is said to. -/
theorem changes_of_step (h : YieldsWith (m.step execute i) f s control f' s') :
    f.Changes (m.stackUse f i).takes (m.stackUse f i).puts f' := by
  have guests : m.GuestsRaise (fun _ => True) fun _ => True :=
    ⟨fun _ _ _ _ _ _ _ _ => trivial, fun _ _ _ _ _ _ _ _ _ => trivial⟩
  have agree (token : Token) (method : Method) (arguments : List Value) :
      Run.SoundOnly (fun _ => True) (fun _ => True) (execute token method arguments) :=
    ⟨fun _ _ => ⟨trivial, trivial⟩, fun _ _ => trivial⟩
  exact ((soundIn_step guests agree).yields trivial h).2

/-- Control goes to the target of an instruction, if it is not the one behind it. -/
theorem target?_of_jump {offset : Nat}
    (h : YieldsWith (m.step execute i) f s (.jump offset) f' s') : i.target? = some offset := by
  obtain ⟨taken, -, goes⟩ := (yieldsWith_branch (isBranch_of_jump h)).mp h
  cases taken with
  | false => cases goes
  | true =>
    obtain ⟨target, known, same⟩ := goes
    cases same
    exact known

/-- Control that leaves an instruction comes to an instruction or to the end of the code. -/
theorem Control.GoesTo.le {target : Nat} (found : code.instructions[position]? = some i)
    (goes : control.GoesTo code position target) : target ≤ code.instructions.size := by
  obtain ⟨inside, -⟩ := Array.getElem?_eq_some_iff.mp found
  cases control with
  | next =>
    obtain rfl := goes
    exact inside
  | jump offset => exact Nat.le_of_lt (Array.findIdx?_eq_some_iff_getElem.mp goes).1
  | finish result => cases goes

namespace Machine

/-- A guard lets a run go on in a frame that is intact. -/
theorem yieldsWith_guard (intact : f.Intact code first position) :
    YieldsWith (guard alarm code first position) f s () f s := by
  unfold guard
  rw [yieldsWith_get_bind, if_neg (not_not.mpr intact)]
  exact yieldsWith_pure.mpr ⟨rfl, rfl, rfl⟩

/-- Methods are run alike if their code is, in the frames in which they start. -/
theorem enter_congr {run run' : Code → Step Value}
    (same : ∀ code method arguments, (run code).run (Frame.start method arguments code) =
      (run' code).run (Frame.start method arguments code)) : m.enter run = m.enter run' := by
  have inside (code : Code) (method : Method) (arguments : List Value) :
      (run code).run' (Frame.start method arguments code) =
        (run' code).run' (Frame.start method arguments code) :=
    congrArg (Functor.map Prod.fst) (same code method arguments)
  funext token method arguments
  unfold enter
  simp only [inside]

/-- No guard stops a run. -/
theorem runGuarded_eq (fuel : Nat) (intact : f.Intact code first position) :
    (m.runGuarded alarm fuel code first position).run f = (m.runFrom fuel code position).run f := by
  funext s
  show ((m.runGuarded alarm fuel code first position).run f).run.run s =
    ((m.runFrom fuel code position).run f).run.run s
  induction fuel generalizing code first f position s with
  | zero =>
    rw [runGuarded, (yieldsWith_guard intact).run_bind]
    rfl
  | succ fuel ih =>
    -- Methods that are called run with less fuel, so no guard stops them either.
    have callee : (m.enter fun callee => do m.runGuarded alarm fuel callee (← get) 0) =
        m.enter fun callee => m.runFrom fuel callee 0 :=
      enter_congr fun code method arguments => funext fun s => ih (.start method arguments code) s
    rw [runGuarded, (yieldsWith_guard intact).run_bind, runFrom, callee]
    cases found : code.instructions[position]? with
    | none => rfl
    | some i =>
      refine runWith_bind_congr fun u f₁ s₁ counted => ?_
      obtain ⟨-, rfl⟩ := yieldsWith_lift.mp counted
      refine runWith_bind_congr fun control f₂ s₂ stepped => ?_
      have goesOn {target : Nat} (goes : control.GoesTo code position target) :
          f₂.Intact code first target :=
        intact.becomes (changes_of_step stepped).toBecomes (goes.le found)
      cases control with
      | next => exact ih (goesOn rfl) s₂
      | jump offset =>
        refine runWith_bind_congr fun target f₃ s₃ landed => ?_
        obtain ⟨lands, rfl, rfl⟩ := yieldsWith_liftM.mp landed
        exact ih (goesOn (positionOf_eq_ok_iff.mp lands)) _
      | finish result => rfl

end Machine

end Runs

/-- A relation that lasts keeps what it says of a fixed state. -/
instance {P : MachineState → MachineState → Prop} [Lasting P] (s : MachineState) :
    Lasting (Keeps (P s)) where
  refl _ := id
  trans h h' reached := h' (h reached)
  store s' store reached := Indifferent.trans reached (Indifferent.store s' store)
  statics s' statics reached := Indifferent.trans reached (Indifferent.statics s' statics)
  provider s' _ _ reached := Indifferent.trans reached (Indifferent.provider s' _ _)
  callMap s' _ _ _ reached := Indifferent.trans reached (Indifferent.callMap s' _ _ _)
  executed s' reached := Indifferent.trans reached (Lasting.executed s')
  callStack s' _ reached := Indifferent.trans reached (Lasting.callStack s' _)

section Errors

variable {G : MachineState → Prop} {A : Error → Prop} [MachineErrors A] [Lasting (Keeps G)]
  {m : Machine} {f : Frame} {code : Code}

/-- Counting an instruction fails only with the fault that says so. -/
theorem sound_count (i : Instruction) : Run.SoundOnly G A (m.count i) where
  yields {s _ _} good counted := by
    obtain ⟨-, rfl⟩ := Machine.yields_count.mp counted
    exact ⟨Lasting.callStack (P := Keeps G) _ _ (Lasting.executed (P := Keeps G) s good), trivial⟩
  fails {s e s'} _ fails := by
    unfold Machine.count at fails
    rw [fails_modify_bind, fails_get_bind] at fails
    split at fails
    case isTrue =>
      rcases fails_bind.mp fails with first | ⟨_, _, first, -⟩
      · obtain ⟨rfl, -⟩ := fails_throw.mp first
        exact MachineErrors.fault _ rfl
      · exact (yields_throw.mp first).elim
    case isFalse => exact absurd fails not_fails_modify

/-- A method that is entered fails with errors of its code. -/
theorem sound_enter (program : m.program = .ofModule m.module) {run : Code → Step Value}
    (h : ∀ code f, code.IsDecoded → Run.SoundOnly G A ((run code).run f)) (token : Token)
    (method : Method) (arguments : List Value) :
    Run.SoundOnly G A (m.enter run token method arguments) := by
  refine .get_bind fun s _ => .guard (MachineErrors.fault _ rfl) fun _ => ?_
  refine Run.Sound.bind (Q := Code.IsDecoded) ?_ fun code decoded => .within ?_
  · rw [program]
    exact ((Run.Sound.of_result (errsOnly_code _ _ _)).and fun known =>
      Program.isDecoded_of_code (yields_liftM.mp known).1).mono fun _ => And.right
  · exact Run.Sound.bind (h code _ decoded) fun _ _ => .pure trivial

/-- A run of decoded code fails with no error of bad code unless a native method or a substitute
does. -/
theorem sound_runFrom (overflow : ∀ limit, A (.fault (.stackOverflow limit)))
    (guests : m.GuestsRaise G A) (program : m.program = .ofModule m.module) (fuel position : Nat)
    (decoded : code.IsDecoded) : Run.SoundOnly G A ((m.runFrom fuel code position).run f) := by
  induction fuel generalizing code f position with
  | zero => exact .throw (MachineErrors.fault _ rfl)
  | succ fuel ih =>
    rw [Machine.runFrom]
    cases found : code.instructions[position]? with
    | none => exact .throw (MachineErrors.fault _ rfl)
    | some i =>
      have counted : Run.SoundOnly G A ((liftM (m.count i) : Step Unit).run f) :=
        Run.Sound.bind (sound_count i) fun _ _ => .pure trivial
      refine Run.Sound.bind counted fun out _ => ?_
      have step : Step.SoundIn G A out.2 _ _ (m.step (m.enter fun callee => m.runFrom fuel callee 0) i) :=
        soundIn_step guests (sound_enter program fun callee f decoded => ih 0 decoded)
      have raises := step.mono_errors (B := A) fun e =>
        Or.rec id fun full => full.error_eq ▸ overflow _
      -- A branch that is taken goes to the target of the instruction.
      refine Run.Sound.bind (raises.and (R := fun out => ∀ offset, out.1 = .jump offset →
        i.target? = some offset) ?_) fun out known => ?_
      · rintro s ⟨control, f₂⟩ s' stepped offset rfl
        exact target?_of_jump stepped
      obtain ⟨control, f₂⟩ := out
      obtain ⟨-, lands⟩ := known
      cases control with
      | next => exact ih _ decoded
      | jump offset =>
        obtain ⟨target, there, -⟩ := decoded.lands (Array.mem_of_getElem? found) (lands offset rfl)
        have reached :
            Run.SoundOnly G A ((liftM (Machine.positionOf code offset) : Step Nat).run f₂) := by
          rw [Machine.positionOf_eq_ok_iff.mpr there]
          exact .pure trivial
        exact Run.Sound.bind reached fun _ _ => ih _ decoded
      | finish result => exact .pure trivial

end Errors

/-- A native method, or a substitute that may run while rules are in force, fails with an error. -/
def Machine.GuestFails (m : Machine) (r : Rules) (e : Error) : Prop :=
  (∃ method native call store store', m.natives.get? method = some native ∧
    Fails (native call) store e store') ∨
  ∃ invoke context store store', r.Supplies invoke ∧ Fails (invoke context) store e store'

namespace Machine

variable {m : Machine} {code : Code} {f : Frame}

/-- What the machine itself fails with has nothing to do with bad code. -/
theorem guestFails_of_runFrom (program : m.program = .ofModule m.module) (decoded : code.IsDecoded)
    {fuel position : Nat} {s s' : MachineState} {e : Error}
    (failed : Fails ((m.runFrom fuel code position).run f) s e s') (bad : e.isBadCode = true) :
    m.GuestFails s.rules e := by
  let A (e : Error) : Prop := e.isBadCode = true → m.GuestFails s.rules e
  have errors : MachineErrors A :=
    ⟨fun _ free bad => (Bool.false_ne_true
      ((Fault.isUnsupported_of_blamesCode free).symm.trans bad)).elim, fun _ => nofun, nofun,
      fun _ _ => nofun⟩
  have guests : m.GuestsRaise (SuppliesNoMore s) A := by
    refine ⟨fun method native found call store e store' failed _ => ?_,
      fun s' less invoke supplies context store e store' failed _ => ?_⟩
    · exact .inl ⟨method, native, call, store, store', found, failed⟩
    · exact .inr ⟨invoke, context, store, store', less invoke supplies, failed⟩
  exact (sound_runFrom (A := A) (fun _ => nofun) guests program fuel position decoded).fails
    (fun _ => id) failed bad

/-- In decoded code, jumps and what loads or stores are not short of an operand. -/
theorem not_fails_transfer (decoded : code.IsDecoded) {i : Instruction}
    (member : i ∈ code.instructions) (transfer : i.op.isTransfer = true) {execute : Executor}
    {s s' : MachineState} {found : String} :
    ¬ Fails ((m.step execute i).run f) s (.fault (.typeMismatch i.op.mnemonic found)) s' := by
  intro failed
  let A (e : Error) : Prop := e ≠ .fault (.typeMismatch i.op.mnemonic found)
  have errors : StackErrors A := by
    refine ⟨nofun, fun _ _ => nofun, fun _ _ => nofun, fun other same => ?_⟩
    have named : i.op.mnemonic ≠ "compare" := by
      generalize i.op = op
      cases op <;> decide
    simp only [Error.fault.injEq, Fault.typeMismatch.injEq] at same
    exact named same.1.symm
  rcases (soundIn_transfer (G := fun _ => True) (A := A) transfer (decoded.isFor member)).fails trivial
    failed with other | full
  · exact other rfl
  · cases full.error_eq

/-- In a frame with the room that decoded code asks for, no guard ever stops a run: the stack is never
higher than allowed, the numbers of arguments and of local variables stay, and the next instruction is
one of the code, or the end is reached.  No instruction is one that the machine cannot run, no branch
is one that it cannot take, and jumps and what loads or stores have their operands. -/
theorem intact_runFrom {body : Body} {position : Nat} (program : m.program = .ofModule m.module)
    (decoded : Code.ofBody body = .ok (some code)) (room : f.maxStack = code.maxStack)
    (fits : f.stack.length ≤ code.maxStack) (inside : position ≤ code.instructions.size)
    (fuel : Nat) :
    (∀ alarm, (m.runGuarded alarm fuel code f position).run f =
      (m.runFrom fuel code position).run f) ∧
    (∀ s e s', Fails ((m.runFrom fuel code position).run f) s e s' → e.isBadCode = true →
      m.GuestFails s.rules e) ∧
    ∀ i ∈ code.instructions, i.op.isTransfer = true → ∀ execute f s found s',
      ¬ Fails ((m.step execute i).run f) s (.fault (.typeMismatch i.op.mnemonic found)) s' :=
  ⟨fun _ => runGuarded_eq fuel ⟨fits, room, rfl, rfl, inside⟩,
    fun _ _ _ => guestFails_of_runFrom program ⟨body, decoded⟩,
    fun _ member transfer _ _ _ _ _ => not_fails_transfer ⟨body, decoded⟩ member transfer⟩

/-- Loads a number, jumps to the end and returns. -/
def jumpBody : Body where
  maxStack := 1
  code := [0x17, 0x2B, 0x00, 0x2A]

/-- The instructions of this body. -/
def jumpCode : Code where
  instructions := #[⟨0, .ldcI41, .none⟩, ⟨1, .brS, .target 3⟩, ⟨3, .ret, .none⟩]
  locals := []
  maxStack := 1

/-- A machine that runs a module without methods. -/
def idleMachine : Machine := { program := .ofModule { name := "Idle" } }

/-- No guard stops a run of these instructions, whatever the fuel, and the jump is not short of its
target. -/
theorem intact_runFrom_jump : Code.ofBody jumpBody = .ok (some jumpCode) ∧
    (∀ alarm fuel, let f := Frame.start default [] jumpCode
      (idleMachine.runGuarded alarm fuel jumpCode f 0).run f =
        (idleMachine.runFrom fuel jumpCode 0).run f) ∧
    ∀ execute f s found s', ¬ Fails ((idleMachine.step execute ⟨1, .brS, .target 3⟩).run f) s
      (.fault (.typeMismatch "br.s" found)) s' := by
  have decoded : Code.ofBody jumpBody = .ok (some jumpCode) := by rfl
  have start : 0 ≤ jumpCode.instructions.size := by decide
  have runs (fuel : Nat) := intact_runFrom (m := idleMachine) (f := .start default [] jumpCode)
    rfl decoded rfl (by decide) start fuel
  exact ⟨decoded, fun alarm fuel => (runs fuel).1 alarm,
    (runs 0).2.2 ⟨1, .brS, .target 3⟩ (by simp [jumpCode]) rfl⟩

end Machine

end Interpose
