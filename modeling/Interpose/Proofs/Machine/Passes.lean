import Interpose.Proofs.Machine.Forms
import Interpose.Proofs.Machine.Running
import Interpose.Proofs.Machine.Stack

/-!
# Straight code

Code without branches that calls no method of the module leads from its beginning to its end.  What
it does to the frame and to the store depends neither on where it is placed nor on how many
instructions were run before.  Longer code is put together from shorter code.

## Main definitions

* `MachineState.Like` — states with the same rules, static fields and running methods
* `Passes` — what straight code does

## Main results

* `Passes.append`, `Passes.cons` — code that is run after other code
* `passes_ldloc`, `passes_stloc`, `passes_int32` and others — the items of a listing
* `leads_br`, `leads_brfalse`, `leads_past_brfalse` — branches
-/

namespace Interpose

/-- The rules, the static fields and the methods that are running are the same in two states. -/
structure MachineState.Like (s s' : MachineState) : Prop where
  rules : s'.rules = s.rules
  statics : s'.statics = s.statics
  callStack : s'.callStack.map TraceEntry.method = s.callStack.map TraceEntry.method

namespace MachineState.Like

theorem refl (s : MachineState) : s.Like s := ⟨rfl, rfl, rfl⟩

theorem trans {s s' s'' : MachineState} (h : s.Like s') (h' : s'.Like s'') : s.Like s'' :=
  ⟨h'.rules.trans h.rules, h'.statics.trans h.statics, h'.callStack.trans h.callStack⟩

theorem tick (s : MachineState) (offset : Nat) : s.Like (s.tick offset) :=
  ⟨rfl, rfl, s.map_method_tick offset⟩

end MachineState.Like

/-- Wherever the items are held, they lead from their beginning to their end, change the frame to
`f'` and leave a store as `Q` says. -/
def Passes (m : Machine) (items : List ListingItem) (f : Frame) (s : MachineState) (f' : Frame)
    (Q : Store → Prop) : Prop :=
  ∀ ⦃c : Code⦄ ⦃labels : String → Option Nat⦄ ⦃position offset : Nat⦄,
    c.Holds labels position offset items → ∃ s',
      Leads m c (List.range' position (instructionCount items)) ⟨position, f, s⟩
        ⟨position + instructionCount items, f', s'⟩ ∧ s.Like s' ∧ Q s'.store

namespace Passes

variable {m : Machine} {item : ListingItem} {first second items : List ListingItem}
  {f f₁ f' : Frame} {s : MachineState} {Q Q₁ : Store → Prop}

theorem nil (h : Q s.store) : Passes m [] f s f Q :=
  fun _ _ _ _ _ => ⟨s, .refl _, .refl s, h⟩

/-- Straight code that is held in front of other code leads to the latter. -/
theorem leads (h : Passes m first f s f' Q) {c : Code} {labels : String → Option Nat}
    {position offset : Nat} (held : c.Holds labels position offset (first ++ second)) :
    ∃ s' offset', Leads m c (List.range' position (instructionCount first)) ⟨position, f, s⟩
        ⟨position + instructionCount first, f', s'⟩ ∧ s.Like s' ∧ Q s'.store ∧
      c.Holds labels (position + instructionCount first) offset' second := by
  obtain ⟨s', leads, like, store⟩ := h held.left
  exact ⟨s', _, leads, like, store, held.right⟩

/-- Code is run after other code. -/
theorem append (h : Passes m first f s f₁ Q₁)
    (h' : ∀ s₁, s.Like s₁ → Q₁ s₁.store → Passes m second f₁ s₁ f' Q) :
    Passes m (first ++ second) f s f' Q := by
  intro c labels position offset held
  obtain ⟨s₁, leads₁, like₁, store₁⟩ := h held.left
  obtain ⟨s', leads, like, store⟩ := h' s₁ like₁ store₁ held.right
  rw [instructionCount_append, ← List.range'_append_1, ← Nat.add_assoc]
  exact ⟨s', leads₁.trans leads, like₁.trans like, store⟩

theorem cons (h : Passes m [item] f s f₁ Q₁)
    (h' : ∀ s₁, s.Like s₁ → Q₁ s₁.store → Passes m items f₁ s₁ f' Q) :
    Passes m (item :: items) f s f' Q := h.append h'

/-- One item whose instruction leads to the next one. -/
theorem of_step (kind : item.isLabel = false)
    (does : ∀ labels offset i, item.instruction? labels offset = some i → ∃ s',
      (∀ execute, YieldsWith (m.step execute i) f (s.tick offset) .next f' s') ∧
        s'.executed = s.executed + 1 ∧ s.Like s' ∧ Q s'.store) :
    Passes m [item] f s f' Q := by
  intro c labels position offset held
  obtain ⟨i, read⟩ : ∃ i, item.instruction? labels offset = some i := by
    have placed := ListingItem.isSome_instruction? labels offset item
    rw [kind] at placed
    exact Option.isSome_iff_exists.mp placed
  obtain ⟨s', yields, executed, like, store⟩ := does labels offset i read
  have here := ListingItem.offset_of_instruction? read
  refine ⟨s', ?_, like, store⟩
  rw [instructionCount_cons, kind]
  exact .next (held.getElem? read) (here ▸ yields) executed

/-- One item that does something to the frame alone. -/
theorem of_frame {x : Step Unit} (kind : item.isLabel = false)
    (meaning : ∀ labels offset i, item.instruction? labels offset = some i →
      ∀ execute, m.step execute i = x >>= fun _ => pure .next)
    (does : ∀ s, YieldsWith x f s () f' s) : Passes m [item] f s f' (· = s.store) := by
  refine of_step kind fun labels offset i read => ⟨s.tick offset, fun execute => ?_, rfl,
    .tick s offset, rfl⟩
  rw [meaning labels offset i read execute]
  exact (does _).bind (yieldsWith_pure.mpr ⟨rfl, rfl, rfl⟩)

end Passes

section Forms

variable {labels : String → Option Nat} {offset : Nat} {i : Instruction} {index : UInt16}

theorem step_ldloc (h : (ListingItem.ldloc index).instruction? labels offset = some i)
    (m : Machine) (execute : Executor) :
    m.step execute i = Step.loadLocal index.toNat >>= fun _ => pure .next :=
  (Transfer.loadLocal index).step_item h m execute

theorem step_ldarg (h : (ListingItem.ldarg index).instruction? labels offset = some i)
    (m : Machine) (execute : Executor) :
    m.step execute i = Step.loadArgument index.toNat >>= fun _ => pure .next :=
  (Transfer.loadArgument index).step_item h m execute

theorem step_stloc (h : (ListingItem.stloc index).instruction? labels offset = some i)
    (m : Machine) (execute : Executor) :
    m.step execute i = Step.storeLocal index.toNat >>= fun _ => pure .next :=
  (Transfer.storeLocal index).step_item h m execute

theorem step_int32 {value : Int32}
    (h : (ListingItem.int32 value).instruction? labels offset = some i) (m : Machine)
    (execute : Executor) :
    m.step execute i = Step.push (.int32 value) >>= fun _ => pure .next :=
  (Transfer.loadConstant value).step_item h m execute

end Forms

section Items

variable {m : Machine} {f : Frame} {s : MachineState} {value : Value} {stack : List Value}

theorem passes_ldloc {index : UInt16} (known : f.locals[index.toNat]? = some value)
    (room : f.stack.length < f.maxStack) :
    Passes m [.ldloc index] f s { f with stack := value :: f.stack } (· = s.store) :=
  .of_frame rfl (fun _ _ _ read => step_ldloc read m) fun _ =>
    yieldsWith_loadLocal.mpr ⟨value, known, yieldsWith_push.mpr ⟨room, rfl, rfl⟩⟩

theorem passes_ldarg {index : UInt16} (known : f.arguments[index.toNat]? = some value)
    (room : f.stack.length < f.maxStack) :
    Passes m [.ldarg index] f s { f with stack := value :: f.stack } (· = s.store) :=
  .of_frame rfl (fun _ _ _ read => step_ldarg read m) fun _ =>
    yieldsWith_loadArgument.mpr ⟨value, known, yieldsWith_push.mpr ⟨room, rfl, rfl⟩⟩

theorem passes_stloc {index : UInt16} (top : f.stack = value :: stack)
    (inside : index.toNat < f.locals.size) :
    Passes m [.stloc index] f s
      { f with stack, locals := f.locals.setIfInBounds index.toNat value } (· = s.store) :=
  .of_frame rfl (fun _ _ _ read => step_stloc read m) fun _ =>
    yieldsWith_storeLocal.mpr ⟨value, { f with stack }, yieldsWith_pop.mpr ⟨top, rfl, rfl⟩, inside,
      rfl, rfl⟩

theorem passes_int32 (constant : Int32) (room : f.stack.length < f.maxStack) :
    Passes m [.int32 constant] f s { f with stack := .int32 constant :: f.stack } (· = s.store) :=
  .of_frame rfl (fun _ _ _ read => step_int32 read m) fun _ =>
    yieldsWith_push.mpr ⟨room, rfl, rfl⟩

theorem passes_ldnull (room : f.stack.length < f.maxStack) :
    Passes m [.plain .ldnull] f s { f with stack := .null :: f.stack } (· = s.store) :=
  .of_frame rfl (fun _ _ _ read _ => by cases read; rfl) fun _ =>
    yieldsWith_push.mpr ⟨room, rfl, rfl⟩

theorem passes_dup (top : f.stack = value :: stack) (room : f.stack.length < f.maxStack) :
    Passes m [.plain .dup] f s { f with stack := value :: f.stack } (· = s.store) :=
  .of_frame (x := Step.peek >>= Step.push) rfl (fun _ _ _ read _ => by cases read; rfl) fun _ =>
    (yieldsWith_peek.mpr ⟨by rw [top]; rfl, rfl, rfl⟩).bind (yieldsWith_push.mpr ⟨room, rfl, rfl⟩)

theorem passes_pop (top : f.stack = value :: stack) :
    Passes m [.plain .pop] f s { f with stack } (· = s.store) :=
  .of_frame (x := Step.pop >>= fun _ => pure ()) rfl
    (fun _ _ _ read _ => by cases read; rfl) fun _ =>
      yieldsWith_bind.mpr ⟨value, { f with stack }, _, yieldsWith_pop.mpr ⟨top, rfl, rfl⟩,
        yieldsWith_pure.mpr ⟨rfl, rfl, rfl⟩⟩

end Items

section Branches

variable {m : Machine} {c : Code} {labels : String → Option Nat} {position offset target there : Nat}
  {name : String} {rest : List ListingItem}

/-- A branch that is always taken. -/
theorem leads_br (h : c.Holds labels position offset (.branch .br name :: rest))
    (named : labels name = some target) (found : c.indexOf? target = some there)
    (f : Frame) (s : MachineState) :
    Leads m c [position] ⟨position, f, s⟩ ⟨there, f, s.tick offset⟩ := by
  refine .jump (h.getElem? rfl) (fun execute => ?_) rfl found
  rw [named]
  exact yieldsWith_pure.mpr ⟨rfl, rfl, rfl⟩

/-- A branch that is taken because of the topmost value. -/
theorem leads_brfalse (h : c.Holds labels position offset (.branch .brfalse name :: rest))
    (named : labels name = some target) (found : c.indexOf? target = some there) (f : Frame)
    (stack : List Value) {value : Value} (taken : value.takesBranch = false) (s : MachineState) :
    Leads m c [position] ⟨position, { f with stack := value :: stack }, s⟩
      ⟨there, { f with stack }, s.tick offset⟩ := by
  refine .jump (h.getElem? rfl) (fun execute => ?_) rfl found
  rw [named]
  refine yieldsWith_bind.mpr ⟨value, { f with stack }, s.tick offset,
    yieldsWith_pop.mpr ⟨rfl, rfl, rfl⟩, ?_⟩
  rw [taken]
  exact yieldsWith_pure.mpr ⟨rfl, rfl, rfl⟩

/-- A branch that is not taken because of the topmost value. -/
theorem leads_past_brfalse (h : c.Holds labels position offset (.branch .brfalse name :: rest))
    (f : Frame) (stack : List Value) {value : Value} (past : value.takesBranch = true)
    (s : MachineState) :
    Leads m c [position] ⟨position, { f with stack := value :: stack }, s⟩
      ⟨position + 1, { f with stack }, s.tick offset⟩ := by
  refine .next (h.getElem? rfl) (fun execute => ?_) rfl
  refine yieldsWith_bind.mpr ⟨value, { f with stack }, s.tick offset,
    yieldsWith_pop.mpr ⟨rfl, rfl, rfl⟩, ?_⟩
  rw [past]
  exact yieldsWith_pure.mpr ⟨rfl, rfl, rfl⟩

end Branches

end Interpose
