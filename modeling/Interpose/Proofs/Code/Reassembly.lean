import Interpose.Proofs.Code.Emission

/-!
# Code that is taken apart and put together again

Instructions that were decoded lie one behind the other, from the beginning of the code to its end.
If they are written again, with a label at each of them and each branch to the label at its target,
what is finished is the same code: every displacement that was in the code is in reach, and there
are no two ways to write an instruction.

## Main definitions

* `Tiles` — instructions lie one behind the other
* `Instruction.reemit` — writes a label and the instruction at it
* `relabeling` — the listing of instructions with a label at each of them

## Main results

* `SpelledFrom.tiles` — the instructions of code leave no byte out
* `SpelledFrom.emits` — the listing can be written
* `finishes_reemit` — it is finished to the code that was decoded
-/

namespace Interpose

/-- The instructions lie one behind the other between two offsets. -/
def Tiles : (lower : Nat) → List Instruction → (upper : Nat) → Prop
  | lower, [], upper => lower = upper
  | lower, i :: rest, upper => i.offset = lower ∧ Tiles i.next rest upper

theorem SpelledFrom.tiles {offset : Nat} {instructions : List Instruction} {code : List UInt8}
    (h : SpelledFrom offset instructions code) :
    Tiles offset instructions (offset + code.length) := by
  induction h with
  | nil => rfl
  | @cons offset i rest operandBytes code placed _ spelled _ ih =>
    have here : i.next = offset + i.size := by rw [Instruction.next, placed]
    refine ⟨placed, ?_⟩
    rw [here, List.length_append, List.length_append, Opcode.length_bytes, spelled.length_eq,
      ← Nat.add_assoc]
    exact ih

namespace Instruction

/-- Writes a label and the instruction at it; a branch goes to the label at its target. -/
def reemit (name : Nat → String) (i : Instruction) : Emit Unit := do
  Emit.label (name i.offset)
  match i.target? with
  | some target => Emit.branch (← Emit.named i.op.mnemonic) (name target)
  | none => Emit.decoded i

/-- An instruction as an item of a listing in which each offset has a label. -/
def relabeled (name : Nat → String) (i : Instruction) : ListingItem :=
  match i.target? with
  | some target => .branch i.op (name target)
  | none => .decoded i

/-- The displacement that is left to be filled in. -/
def fixup? (name : Nat → String) (i : Instruction) : Option Fixup :=
  i.target?.map fun target => ⟨name target, i.offset + i.op.size, i.op.operandKind.size⟩

end Instruction

/-- The listing of instructions with a label at each of them. -/
def relabeling (name : Nat → String) : List Instruction → List ListingItem
  | [] => []
  | i :: rest => .label (name i.offset) :: i.relabeled name :: relabeling name rest

section Relabeling

variable {name : Nat → String} {labels : String → Option Nat} {i : Instruction}
  {instructions : List Instruction} {offset : Nat} {code operandBytes : List UInt8}
  {e e' : Encoder}

/-- An instruction is written as the item for it. -/
theorem Instruction.emits_reemit : Yields (i.reemit name) e () e' ↔
    ∃ e₁, Yields (Emit.label (name i.offset)) e () e₁ ∧
      Yields (i.relabeled name).emit e₁ () e' := by
  unfold reemit relabeled
  rw [yields_bind]
  cases i.target? with
  | some target =>
    dsimp only
    have written {e₁ : Encoder} : Yields (Emit.named i.op.mnemonic >>= fun op =>
        Emit.branch op (name target)) e₁ () e' ↔ Yields (Emit.branch i.op (name target)) e₁ () e' := by
      simp only [emits_named_bind, Opcode.ofMnemonic?_mnemonic, Option.some.injEq, exists_eq_left']
    simp only [written]
    exact ⟨fun ⟨_, e₁, label, branch⟩ => ⟨e₁, label, branch⟩,
      fun ⟨e₁, label, branch⟩ => ⟨(), e₁, label, branch⟩⟩
  | none =>
    exact ⟨fun ⟨_, e₁, label, item⟩ => ⟨e₁, label, item⟩,
      fun ⟨e₁, label, item⟩ => ⟨(), e₁, label, item⟩⟩

theorem emits_forM_reemit : Yields (instructions.forM (Instruction.reemit name)) e () e' ↔
    Yields ((relabeling name instructions).forM ListingItem.emit) e () e' := by
  induction instructions generalizing e with
  | nil => rfl
  | cons i rest ih =>
    rw [relabeling, emits_cons, List.forM, yields_bind]
    constructor
    · rintro ⟨_, e₂, one, others⟩
      obtain ⟨e₁, label, item⟩ := Instruction.emits_reemit.mp one
      exact ⟨e₁, label, emits_cons.mpr ⟨e₂, item, ih.mp others⟩⟩
    · rintro ⟨e₁, label, others⟩
      obtain ⟨e₂, item, later⟩ := emits_cons.mp others
      exact ⟨(), e₂, Instruction.emits_reemit.mpr ⟨e₁, label, item⟩, ih.mpr later⟩

theorem Instruction.size_relabeled (name : Nat → String) (i : Instruction) :
    (i.relabeled name).size = i.size := by
  unfold relabeled
  split <;> rfl

/-- A relabeled instruction is read back as it was. -/
theorem Instruction.instruction?_relabeled
    (goes : ∀ target, i.target? = some target → labels (name target) = some target)
    (read : Operand.asRead i.op (some i.operand) = i.operand) :
    (i.relabeled name).instruction? labels i.offset = some i := by
  obtain ⟨offset, op, operand⟩ := i
  unfold relabeled
  cases operand with
  | target target =>
    simp only [target?, ListingItem.instruction?, goes target rfl, Option.getD_some]
  | none => rfl
  | _ => exact congrArg (fun operand => some (⟨offset, op, operand⟩ : Instruction)) read

/-- The listing stands for the instructions that it is made from. -/
theorem SpelledFrom.instructionsFrom_relabeling (h : SpelledFrom offset instructions code)
    (goes : ∀ i ∈ instructions, ∀ target, i.target? = some target →
      labels (name target) = some target)
    (read : ∀ i ∈ instructions, Operand.asRead i.op (some i.operand) = i.operand) :
    instructionsFrom labels offset (relabeling name instructions) = instructions := by
  induction h with
  | nil => rfl
  | @cons offset i rest _ _ placed _ _ _ ih =>
    obtain ⟨goes, later⟩ := List.forall_mem_cons.mp goes
    obtain ⟨read, others⟩ := List.forall_mem_cons.mp read
    subst placed
    simp only [relabeling, instructionsFrom, ListingItem.size_label, Nat.add_zero,
      Instruction.instruction?_relabeled goes read, Instruction.size_relabeled, ih later others]
    rfl

/-- An instruction that has bytes can be written. -/
theorem Instruction.emits_relabeled (name : Nat → String)
    (spelled : i.operand.Spelled offset i.op operandBytes)
    (here : e.code.size = i.offset) : ∃ e', Yields (i.relabeled name).emit e () e' ∧
      e'.labels = e.labels ∧
        e'.fixups.toList = e.fixups.toList ++ (i.fixup? name).toList := by
  obtain ⟨offset, op, operand⟩ := i
  unfold relabeled fixup?
  cases operand with
  | target target =>
    refine ⟨_, emits_branch.mpr ⟨spelled.1, rfl⟩, rfl, ?_⟩
    simp [target?, here]
  | _ => exact ⟨_, emits_instruction.mpr ⟨spelled.1, _, spelled.2, rfl⟩, rfl, by simp [target?]⟩

/-- Instructions that lie in code can be written again where they lie, with labels whose names are
new. -/
theorem SpelledFrom.emits (h : SpelledFrom offset instructions code) (here : e.code.size = offset)
    (new : ∀ i ∈ instructions, e.labels.lookup (name i.offset) = none)
    (distinct : instructions.Pairwise fun i j => name i.offset ≠ name j.offset) :
    ∃ e', Yields ((relabeling name instructions).forM ListingItem.emit) e () e' ∧
      e'.fixups.toList = e.fixups.toList ++ instructions.filterMap (·.fixup? name) ∧
        ∀ i ∈ instructions, e'.labels.lookup (name i.offset) = some i.offset := by
  -- The encoder is as long as the code in front of the offset, so the labels come to lie at the
  -- instructions that they are named for.
  induction h generalizing e with
  | nil => exact ⟨e, yields_pure.mpr ⟨rfl, rfl⟩, (List.append_nil _).symm, by simp⟩
  | @cons offset i rest operandBytes code placed inside spelled _ ih =>
    obtain ⟨newHere, newLater⟩ := List.forall_mem_cons.mp new
    obtain ⟨differs, distinct⟩ := List.pairwise_cons.mp distinct
    let e₁ : Encoder := { e with labels := (name i.offset, e.code.size) :: e.labels }
    have label : Yields (ListingItem.label (name i.offset)).emit e () e₁ :=
      emits_label.mpr ⟨newHere, here ▸ inside, rfl⟩
    have unmoved : e₁.code.size = i.offset := here.trans placed.symm
    obtain ⟨e₂, item, labels, fixups⟩ := Instruction.emits_relabeled name spelled unmoved
    have grown : e₂.code.size = offset + i.size := by
      have one : Yields ([i.relabeled name].forM ListingItem.emit) e₁ () e₂ :=
        emits_cons.mpr ⟨e₂, item, yields_pure.mpr ⟨rfl, rfl⟩⟩
      rw [size_of_emits one, listingSize_cons, listingSize_nil, Instruction.size_relabeled]
      exact congrArg (· + i.size) here
    have new : ∀ j ∈ rest, e₂.labels.lookup (name j.offset) = none := by
      intro j later
      have other : (name j.offset == name i.offset) = false :=
        beq_eq_false_iff_ne.mpr (Ne.symm (differs j later))
      rw [labels, List.lookup_cons, other]
      exact newLater j later
    obtain ⟨e₃, others, places, known⟩ := ih grown new distinct
    refine ⟨e₃, emits_cons.mpr ⟨e₁, label, emits_cons.mpr ⟨e₂, item, others⟩⟩, ?_,
      List.forall_mem_cons.mpr ⟨lookup_of_emits others ?_, known⟩⟩
    · rw [places, fixups, List.append_assoc, List.filterMap_cons]
      cases i.fixup? name <;> rfl
    · rw [labels, List.lookup_cons_self, here, placed]

/-- The bytes of each of the instructions. -/
theorem SpelledFrom.spelled_of_mem (h : SpelledFrom offset instructions code)
    (member : i ∈ instructions) :
    ∃ operandBytes, i.operand.Spelled i.offset i.op operandBytes := by
  induction h with
  | nil => cases member
  | cons placed _ spelled _ ih =>
    rcases List.mem_cons.mp member with rfl | later
    · exact ⟨_, placed ▸ spelled⟩
    · exact ih later

/-- Every displacement that was read can be filled in again. -/
theorem SpelledFrom.finish_ne_error (h : SpelledFrom offset instructions code)
    (fixups : e.fixups.toList = instructions.filterMap (·.fixup? name))
    (goes : ∀ i ∈ instructions, ∀ target, i.target? = some target →
      e.offset? (name target) = some target) (error : Error) : e.finish ≠ .error error := by
  intro failed
  obtain ⟨fixup, left, final, unfilled⟩ := exists_fill_error_of_finish failed
  rw [fixups, List.mem_filterMap] at left
  obtain ⟨i, member, left⟩ := left
  obtain ⟨target, branches, rfl⟩ := Option.map_eq_some_iff.mp left
  obtain ⟨bytes, spelled⟩ := h.spelled_of_mem member
  have operand : i.operand = .target target := Instruction.target?_eq_some_iff.mp branches
  rw [operand] at spelled
  let fixup : Fixup := ⟨name target, i.offset + i.op.size, i.op.operandKind.size⟩
  have filled : e.fill final fixup =
      .ok (Encoder.overwrite final (i.offset + i.op.size) bytes) :=
    fill_eq_ok_iff.mpr ⟨target, bytes, goes i member target branches, spelled.2 (name target), rfl⟩
  cases unfilled.symm.trans filled

/-- Finished code is the code in which the instructions lie. -/
theorem SpelledFrom.eq_of_finish (h : SpelledFrom 0 instructions code)
    (emitted : Yields ((relabeling name instructions).forM ListingItem.emit) {} () e)
    (goes : ∀ i ∈ instructions, ∀ target, i.target? = some target →
      e.offset? (name target) = some target)
    (read : ∀ i ∈ instructions, Operand.asRead i.op (some i.operand) = i.operand)
    {result : List UInt8 × List (String × Nat)} (finished : e.finish = .ok result) :
    result = (code, e.labels) := by
  obtain ⟨code', labels⟩ := result
  have same : labels = e.labels := by
    obtain ⟨final, -, done⟩ := bind_eq_ok_iff.mp finished
    cases done
    rfl
  subst same
  have assembled : assemble (relabeling name instructions) = .ok (code', e.labels) := by
    have run : ((relabeling name instructions).forM ListingItem.emit).run {} = (.ok (), e) :=
      emitted
    rw [assemble, run]
    exact finished
  have listed : instructionsFrom (fun label => e.labels.lookup label) 0
      (relabeling name instructions) = instructions := h.instructionsFrom_relabeling goes read
  have run := decodeInstructions_of_assemble assembled (listed.symm ▸ h.offset_lt)
  rw [listed] at run
  -- The finished code is decoded to the same instructions, and these lie in one code only.
  have again : SpelledFrom 0 instructions code' :=
    spelledFrom_of_decodeInstructions (Cursor.faces_ofBytes code') (Nat.le_refl _)
      (Prod.ext run rfl)
  rw [h.unique again]

end Relabeling

end Interpose
