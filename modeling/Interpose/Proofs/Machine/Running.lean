import Interpose.Machine.Run
import Interpose.Proofs.Code.Listing
import Interpose.Proofs.Machine.Stack

/-!
# Runs of code

A run of code goes from place to place.  Instructions that call no method of the module lead from
one place to the next whatever runs the methods of the module, and so do sequences of them.  This
file also says what it means that a listing is found in the code of a method, which is how the
places in woven code are known.

## Main definitions

* `MachineState.tick` — an instruction is counted and its offset is noted
* `Frame.Runs` — the code of a method runs in a frame
* `Place` — where a run is, with all that it knows
* `Leads` — a path of instructions leads from one place to another
* `Code.Holds` — code holds a listing at a position

## Main results

* `Leads.runFrom_eq` — a run may be taken up at the end of a path
* `Leads.exists_yieldsWith_runFrom` — a run that ends with a result goes along the path
* `Machine.yields_enter` — what it means that a method is entered and returns a value
* `Code.Holds.append` — a listing is held just if its parts are held one behind the other
* `Code.Holds.indexOf?` — the offset of a listing is that of its first instruction
-/

namespace Interpose

namespace MachineState

/-- The state in which the instruction at an offset is run: the instruction is counted, and its
offset is noted on the call stack. -/
def tick (s : MachineState) (offset : Nat) : MachineState :=
  { s with
    executed := s.executed + 1
    callStack :=
      match s.callStack with
      | entry :: outer => { entry with offset } :: outer
      | [] => [] }

variable (s : MachineState) (offset : Nat)

@[simp] theorem tick_store : (s.tick offset).store = s.store := rfl

@[simp] theorem tick_rules : (s.tick offset).rules = s.rules := rfl

@[simp] theorem tick_statics : (s.tick offset).statics = s.statics := rfl

@[simp] theorem tick_executed : (s.tick offset).executed = s.executed + 1 := rfl

@[simp] theorem map_method_tick :
    (s.tick offset).callStack.map TraceEntry.method = s.callStack.map TraceEntry.method := by
  rcases stack : s.callStack with _ | ⟨entry, outer⟩ <;> simp [tick, stack]

end MachineState

/-- An instruction is counted unless it is one too many. -/
theorem Machine.yields_count {m : Machine} {i : Instruction} {s s' : MachineState} {u : Unit} :
    Yields (m.count i) s u s' ↔ s.executed < m.limits.instructions ∧ s.tick i.offset = s' := by
  unfold Machine.count Run.fault
  rw [yields_modify_bind, yields_get_bind, yields_guard, yields_modify, Nat.not_lt]
  refine and_congr_right fun _ => ?_
  rcases stack : s.callStack with _ | ⟨entry, outer⟩ <;> simp [MachineState.tick, stack]

/-- A frame in which the code of a method runs. -/
structure Frame.Runs (f : Frame) (d : MethodDef) (c : Code) : Prop where
  locals : f.locals.size = c.locals.length
  maxStack : f.maxStack = c.maxStack
  self : d.hasThis = true → 0 < f.arguments.size

/-- The frame in which a method starts is one for its code. -/
theorem Frame.runs_start {d : MethodDef} {method : Method} {arguments : List Value} {c : Code}
    (self : d.hasThis = true → arguments ≠ []) : (Frame.start method arguments c).Runs d c := by
  refine ⟨by simp [Frame.start], rfl, fun this => ?_⟩
  simpa [Frame.start, List.length_pos_iff] using self this

/-- Where a run is: the position of the next instruction, with the frame and the state in which it
will be run. -/
structure Place where
  position : Nat
  frame : Frame
  state : MachineState

/-- Where control goes in code, given the position of the instruction it comes from. -/
def Control.GoesTo (code : Code) (position : Nat) : Control → Nat → Prop
  | .next, target => target = position + 1
  | .jump offset, target => code.indexOf? offset = some target
  | .finish _, _ => False

theorem Control.GoesTo.unique {code : Code} {position target target' : Nat} {control : Control}
    (h : control.GoesTo code position target) (h' : control.GoesTo code position target') :
    target = target' := by
  cases control with
  | next => exact Eq.trans h (Eq.symm h')
  | jump offset => exact Option.some.inj (Eq.trans (Eq.symm h) h')
  | finish result => cases h

/-- The position of the instruction at an offset is found just if there is one. -/
theorem Machine.positionOf_eq_ok_iff {code : Code} {offset target : Nat} :
    positionOf code offset = .ok target ↔ code.indexOf? offset = some target := by
  unfold positionOf
  cases code.indexOf? offset with
  | none => exact ⟨fun h => (nomatch h), fun h => (nomatch h)⟩
  | some position => exact ⟨fun h => congrArg some (Except.ok.inj h), fun h => by cases h; rfl⟩

/-- The instructions at the positions of a path lead from one place to another, whatever runs the
methods that are called. -/
inductive Leads (m : Machine) (code : Code) : List Nat → Place → Place → Prop
  | refl (a : Place) : Leads m code [] a a
  | cons {a b c : Place} {path : List Nat} {i : Instruction} {control : Control} :
      code.instructions[a.position]? = some i →
      (∀ execute, YieldsWith (m.step execute i) a.frame (a.state.tick i.offset) control b.frame
        b.state) →
      b.state.executed = a.state.executed + 1 → control.GoesTo code a.position b.position →
      Leads m code path b c → Leads m code (a.position :: path) a c

namespace Leads

variable {m : Machine} {code : Code} {path path' : List Nat} {a b c : Place}

/-- One instruction that leads to the one behind it. -/
theorem next {position : Nat} {f f' : Frame} {s s' : MachineState} {i : Instruction}
    (found : code.instructions[position]? = some i)
    (yields : ∀ execute, YieldsWith (m.step execute i) f (s.tick i.offset) .next f' s')
    (executed : s'.executed = s.executed + 1) :
    Leads m code [position] ⟨position, f, s⟩ ⟨position + 1, f', s'⟩ := by
  refine .cons (a := ⟨position, f, s⟩) (b := ⟨position + 1, f', s'⟩) found yields executed ?_
    (.refl _)
  rfl

/-- One instruction that leads to the one at an offset. -/
theorem jump {position there target : Nat} {f f' : Frame} {s s' : MachineState} {i : Instruction}
    (found : code.instructions[position]? = some i)
    (yields : ∀ execute, YieldsWith (m.step execute i) f (s.tick i.offset) (.jump target) f' s')
    (executed : s'.executed = s.executed + 1) (lands : code.indexOf? target = some there) :
    Leads m code [position] ⟨position, f, s⟩ ⟨there, f', s'⟩ := by
  refine .cons (a := ⟨position, f, s⟩) (b := ⟨there, f', s'⟩) found yields executed ?_ (.refl _)
  exact lands

theorem trans (h : Leads m code path a b) (h' : Leads m code path' b c) :
    Leads m code (path ++ path') a c := by
  induction h with
  | refl => exact h'
  | cons found yields executed goes _ ih => exact .cons found yields executed goes (ih h')

/-- Every instruction of a path is counted. -/
theorem executed_eq (h : Leads m code path a b) :
    b.state.executed = a.state.executed + path.length := by
  induction h with
  | refl => rfl
  | cons _ _ executed _ _ ih =>
    rw [ih, executed, List.length_cons]
    omega

/-- A run may be taken up at the end of a path. -/
theorem runFrom_eq (h : Leads m code path a b)
    (enough : a.state.executed + path.length ≤ m.limits.instructions) (fuel : Nat) :
    ((m.runFrom (fuel + path.length) code a.position).run a.frame).run.run a.state =
      ((m.runFrom fuel code b.position).run b.frame).run.run b.state := by
  induction h with
  | refl => rfl
  | @cons a b c path i control found yields executed goes _ ih =>
    rw [List.length_cons] at enough
    rw [← ih (by omega), List.length_cons, ← Nat.add_assoc, Machine.runFrom]
    simp only [found]
    have counted : YieldsWith (liftM (m.count i) : Step Unit) a.frame a.state () a.frame
        (a.state.tick i.offset) :=
      yieldsWith_lift.mpr ⟨Machine.yields_count.mpr ⟨by omega, rfl⟩, rfl⟩
    rw [counted.run_bind, (yields _).run_bind]
    cases control with
    | next =>
      rw [show b.position = a.position + 1 from goes]
    | jump offset =>
      have there : Machine.positionOf code offset = .ok b.position :=
        Machine.positionOf_eq_ok_iff.mpr goes
      exact (yieldsWith_liftM.mpr ⟨there, rfl, rfl⟩).run_bind
    | finish result => cases goes

end Leads

/-- A run with fuel runs one instruction, and then goes on where control goes or ends with a result. -/
theorem Machine.yieldsWith_runFrom_succ {m : Machine} {fuel position : Nat} {code : Code} {f f₂ : Frame}
    {s s₂ : MachineState} {value : Value} :
    YieldsWith (m.runFrom (fuel + 1) code position) f s value f₂ s₂ ↔ ∃ i control f₁ s₁,
      code.instructions[position]? = some i ∧ s.executed < m.limits.instructions ∧
      YieldsWith (m.step (m.enter fun callee => m.runFrom fuel callee 0) i) f (s.tick i.offset) control
        f₁ s₁ ∧
      ((∃ target, control.GoesTo code position target ∧
        YieldsWith (m.runFrom fuel code target) f₁ s₁ value f₂ s₂) ∨
        control = .finish value ∧ f₁ = f₂ ∧ s₁ = s₂) := by
  rw [Machine.runFrom]
  cases found : code.instructions[position]? with
  | none =>
    constructor
    · intro h
      obtain ⟨f₁, f', s₁, -, h⟩ := yieldsWith_bind.mp h
      exact (yieldsWith_throw.mp h).elim
    · rintro ⟨i, control, f₁, s₁, none, -⟩
      cases none
  | some i =>
    constructor
    · intro h
      obtain ⟨u, s₀, counted, h⟩ := yieldsWith_lift_bind.mp h
      obtain ⟨free, rfl⟩ := yields_count.mp counted
      obtain ⟨control, f₁, s₁, stepped, h⟩ := yieldsWith_bind.mp h
      refine ⟨i, control, f₁, s₁, rfl, free, stepped, ?_⟩
      cases control with
      | next => exact .inl ⟨position + 1, rfl, h⟩
      | jump offset =>
        obtain ⟨target, there, rest⟩ := yieldsWith_liftM_bind.mp h
        exact .inl ⟨target, positionOf_eq_ok_iff.mp there, rest⟩
      | finish result =>
        obtain ⟨rfl, rfl, rfl⟩ := yieldsWith_pure.mp h
        exact .inr ⟨rfl, rfl, rfl⟩
    · rintro ⟨i, control, f₁, s₁, same, free, stepped, rest⟩
      cases same
      have counted : YieldsWith (liftM (m.count i) : Step Unit) f s () f (s.tick i.offset) :=
        yieldsWith_lift.mpr ⟨yields_count.mpr ⟨free, rfl⟩, rfl⟩
      refine counted.bind (stepped.bind ?_)
      rcases rest with ⟨target, goes, rest⟩ | ⟨rfl, rfl, rfl⟩
      · cases control with
        | next =>
          obtain rfl := goes
          exact rest
        | jump offset => exact yieldsWith_liftM_bind.mpr ⟨target, positionOf_eq_ok_iff.mpr goes, rest⟩
        | finish result => cases goes
      · exact yieldsWith_pure.mpr ⟨rfl, rfl, rfl⟩

/-- A run that ends with a result goes along every path that leads from where it begins. -/
theorem Leads.exists_yieldsWith_runFrom {m : Machine} {code : Code} {path : List Nat} {a b : Place}
    (h : Leads m code path a b) {fuel : Nat} {value : Value} {f : Frame} {s : MachineState}
    (run : YieldsWith (m.runFrom fuel code a.position) a.frame a.state value f s) :
    ∃ fuel', YieldsWith (m.runFrom fuel' code b.position) b.frame b.state value f s := by
  induction h generalizing fuel with
  | refl => exact ⟨fuel, run⟩
  | cons found yields executed goes _ ih =>
    cases fuel with
    | zero => exact (yieldsWith_throw.mp run).elim
    | succ fuel =>
      obtain ⟨_, control, f₁, s₁, here, -, stepped, rest⟩ := Machine.yieldsWith_runFrom_succ.mp run
      obtain rfl := Option.some.inj (found.symm.trans here)
      obtain ⟨rfl, rfl, rfl⟩ := (yields _).unique stepped
      rcases rest with ⟨target, there, rest⟩ | ⟨rfl, -⟩
      · exact ih (goes.unique there ▸ rest)
      · cases goes

/-- A method that is entered runs its code with one more method on the call stack. -/
theorem Machine.yields_enter {m : Machine} {run : Code → Step Value} {token : Token}
    {method : Method} {arguments : List Value} {value : Value} {s s' : MachineState} :
    Yields (m.enter run token method arguments) s value s' ↔
      s.callStack.length < m.limits.callDepth ∧ ∃ code f inner,
        m.program.code token method.fullName = .ok code ∧
        YieldsWith (run code) (Frame.start method arguments code)
          { s with callStack := ⟨method, 0⟩ :: s.callStack } value f inner ∧
        { inner with callStack := inner.callStack.tail } = s' := by
  unfold Machine.enter Run.fault
  rw [yields_get_bind, yields_guard, Nat.not_le, yields_liftM_bind]
  refine and_congr_right fun _ => ⟨?_, ?_⟩
  · rintro ⟨code, known, within⟩
    obtain ⟨inner, ran, rfl⟩ := yields_within.mp within
    obtain ⟨result, body, rfl⟩ := yields_map.mp ran
    exact ⟨code, result.2, inner, known, body, rfl⟩
  · rintro ⟨code, f, inner, known, ran, rfl⟩
    exact ⟨code, known, yields_within.mpr ⟨inner, yields_map.mpr ⟨(value, f), ran, rfl⟩, rfl⟩⟩

/-- The number of instructions of a listing. -/
def instructionCount (items : List ListingItem) : Nat := items.countP (!·.isLabel)

@[simp] theorem instructionCount_nil : instructionCount [] = 0 := rfl

@[simp] theorem instructionCount_cons (item : ListingItem) (items : List ListingItem) :
    instructionCount (item :: items) = instructionCount items + if item.isLabel then 0 else 1 := by
  cases label : item.isLabel <;> simp [instructionCount, label]

@[simp] theorem instructionCount_append (first second : List ListingItem) :
    instructionCount (first ++ second) = instructionCount first + instructionCount second := by
  simp [instructionCount]

theorem length_instructionsFrom (labels : String → Option Nat) (offset : Nat)
    (items : List ListingItem) :
    (instructionsFrom labels offset items).length = instructionCount items := by
  induction items generalizing offset with
  | nil => rfl
  | cons item rest ih =>
    rw [instructionsFrom, List.length_append, ih, instructionCount_cons, Nat.add_comm]
    have placed := ListingItem.isSome_instruction? labels offset item
    cases read : item.instruction? labels offset <;> rw [read] at placed <;> simp_all

namespace Code

/-- The instructions of code are found in increasing order. -/
def Ordered (c : Code) : Prop := c.instructions.toList.Pairwise (·.offset < ·.offset)

/-- Code holds a listing at a position, where the listing is placed at an offset and its labels are
known. -/
structure Holds (c : Code) (labels : String → Option Nat) (position offset : Nat)
    (items : List ListingItem) : Prop where
  isPrefix : instructionsFrom labels offset items <+: c.instructions.toList.drop position
  placed : ∀ before name after, items = before ++ .label name :: after →
    labels name = some (offset + listingSize before)

namespace Holds

variable {c : Code} {labels : String → Option Nat} {position offset : Nat} {item : ListingItem}
  {i : Instruction} {first second rest : List ListingItem}

theorem left (h : c.Holds labels position offset (first ++ second)) :
    c.Holds labels position offset first := by
  refine ⟨?_, fun before name after split => ?_⟩
  · have whole := h.isPrefix
    rw [instructionsFrom_append] at whole
    exact (List.prefix_append _ _).trans whole
  · exact h.placed before name (after ++ second) (by rw [split]; simp)

theorem right (h : c.Holds labels position offset (first ++ second)) :
    c.Holds labels (position + instructionCount first) (offset + listingSize first) second := by
  refine ⟨?_, fun before name after split => ?_⟩
  · have whole := h.isPrefix
    rw [instructionsFrom_append] at whole
    obtain ⟨back, split⟩ := whole
    refine ⟨back, ?_⟩
    rw [← List.drop_drop, ← split, List.append_assoc, ← length_instructionsFrom labels offset first,
      List.drop_left]
  · have placed := h.placed (first ++ before) name after (by rw [split]; simp)
    rw [placed, listingSize_append, Nat.add_assoc]

/-- The first instruction of a listing. -/
theorem getElem? (h : c.Holds labels position offset (item :: rest))
    (read : item.instruction? labels offset = some i) : c.instructions[position]? = some i := by
  obtain ⟨back, split⟩ := h.isPrefix
  have first := congrArg (fun list => list[0]?) split
  simpa [instructionsFrom, read] using first.symm

/-- What is held behind an instruction. -/
theorem tail (h : c.Holds labels position offset (item :: rest)) (kind : item.isLabel = false) :
    c.Holds labels (position + 1) (offset + item.size) rest := by
  have behind : c.Holds labels (position + instructionCount [item]) (offset + listingSize [item])
      rest := h.right
  simpa [kind] using behind

/-- A label is placed where what is behind it is held. -/
theorem label {name : String} (h : c.Holds labels position offset (.label name :: rest)) :
    labels name = some offset ∧ c.Holds labels position offset rest := by
  refine ⟨by simpa using h.placed [] name rest rfl, ?_⟩
  have behind : c.Holds labels (position + instructionCount [.label name])
      (offset + listingSize [.label name]) rest := h.right
  simpa [ListingItem.isLabel] using behind

/-- The offset of a listing is that of its first instruction. -/
theorem indexOf? (h : c.Holds labels position offset first) (ordered : c.Ordered)
    (some : 0 < instructionCount first) : c.indexOf? offset = .some position := by
  induction first generalizing offset with
  | nil => cases some
  | cons item rest ih =>
    cases read : item.instruction? labels offset with
    | none =>
      have placed := ListingItem.isSome_instruction? labels offset item
      rw [read] at placed
      cases item with
      | label name => exact ih h.label.2 (by simpa [ListingItem.isLabel] using some)
      | _ => cases placed
    | some i =>
      have here := ListingItem.offset_of_instruction? read
      obtain ⟨inside, found⟩ := Array.getElem?_eq_some_iff.mp (h.getElem? read)
      have increasing := List.pairwise_iff_getElem.mp ordered
      unfold Code.indexOf?
      rw [Array.findIdx?_eq_some_iff_getElem]
      refine ⟨inside, by simp [found, here], fun j earlier => ?_⟩
      have less := increasing j position (by simpa using Nat.lt_trans earlier inside) (by simpa)
        earlier
      simp only [Array.getElem_toList, found, here] at less
      simpa using Nat.ne_of_lt less

end Holds

end Code

end Interpose
