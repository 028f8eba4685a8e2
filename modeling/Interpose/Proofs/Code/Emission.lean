import Interpose.Proofs.Code.Spelling

/-!
# Calls on an encoder

Code is written by calls that name operations by their mnemonics.  Whatever the calls are, as long as
all of them succeed, the finished code is decoded to just the instructions that they wrote, where they
wrote them; and code cannot be finished only because a label is missing or too far away.

## Main definitions

* `EmitCall` — one call on an encoder
* `emitAll` — makes calls, and notes where each of them finds the end of the code
* `EmitCall.instruction?`, `instructionsOf` — the instructions that calls write
* `EmitCall.FitsIndex` — a variable is given as what its operation takes it for
* `Opcode.Reaches` — a displacement is in the reach of a branch

## Main results

* `instructionsFrom_of_emitAll` — calls write the instructions of a listing
* `decodes_emitAll` — finished code is decoded to the instructions that were written
-/

namespace Interpose

/-- A call on an encoder. -/
inductive EmitCall where
  /-- Writes an instruction that does not branch. -/
  | instruction (mnemonic : String) (operand : Option Operand)
  /-- Writes a branch to a label. -/
  | branch (mnemonic label : String)
  /-- Places a label. -/
  | label (name : String)
deriving DecidableEq, Repr

namespace EmitCall

/-- Makes a call. -/
def run : EmitCall → Emit Unit
  | instruction mnemonic operand => do Emit.instruction (← Emit.named mnemonic) operand
  | branch mnemonic name => do Emit.branch (← Emit.named mnemonic) name
  | label name => Emit.label name

/-- Whether a call places a label. -/
def isLabel : EmitCall → Bool
  | label _ => true
  | _ => false

/-- The instruction that a call writes at a position, where the labels are placed as given. -/
def instruction? (labels : String → Option Nat) (position : Nat) : EmitCall → Option Instruction
  | instruction mnemonic operand =>
    (Opcode.ofMnemonic? mnemonic).map fun op => ⟨position, op, operand.getD .none⟩
  | branch mnemonic name => do
    return ⟨position, ← Opcode.ofMnemonic? mnemonic, .target (← labels name)⟩
  | label _ => none

/-- An index is given as one of an argument or of a local variable, as the operation has it. -/
def FitsIndex : EmitCall → Prop
  | instruction mnemonic (some (.argument _)) =>
    ∀ op, Opcode.ofMnemonic? mnemonic = some op → op.namesArgument = true
  | instruction mnemonic (some (.localVar _)) =>
    ∀ op, Opcode.ofMnemonic? mnemonic = some op → op.namesArgument = false
  | _ => True

/-- The item of a listing that a call writes. -/
def item : EmitCall → ListingItem
  | instruction mnemonic operand =>
    match Opcode.ofMnemonic? mnemonic with
    | some op => .decoded ⟨0, op, operand.getD .none⟩
    | none => .plain .nop
  | branch mnemonic name => .branch ((Opcode.ofMnemonic? mnemonic).getD .nop) name
  | label name => .label name

theorem offset_of_instruction? {labels : String → Option Nat} {position : Nat} {call : EmitCall}
    {i : Instruction} (h : call.instruction? labels position = some i) : i.offset = position := by
  cases call with
  | instruction mnemonic operand =>
    obtain ⟨op, -, rfl⟩ := Option.map_eq_some_iff.mp h
    rfl
  | branch mnemonic name =>
    obtain ⟨op, -, h⟩ := Option.bind_eq_some_iff.mp h
    obtain ⟨target, -, h⟩ := Option.bind_eq_some_iff.mp h
    cases h
    rfl
  | label name => cases h

theorem isLabel_item (call : EmitCall) : call.item.isLabel = call.isLabel := by
  cases call with
  | instruction mnemonic operand =>
    rw [item]
    split <;> rfl
  | branch mnemonic name => rfl
  | label name => rfl

end EmitCall

/-- Makes calls one after the other, and notes where each of them finds the end of the code. -/
def emitAll : List EmitCall → Emit (List (Nat × EmitCall))
  | [] => return []
  | call :: rest => do
    let position := (← get).code.size
    call.run
    return (position, call) :: (← emitAll rest)

/-- The instructions that calls wrote, where the labels are placed as given. -/
def instructionsOf (placed : List (String × Nat)) (log : List (Nat × EmitCall)) :
    List Instruction :=
  log.filterMap fun entry => entry.2.instruction? (fun name => placed.lookup name) entry.1

section Calls

variable {call : EmitCall} {calls : List EmitCall} {log : List (Nat × EmitCall)} {e e' : Encoder}
  {labels : String → Option Nat}

theorem emits_named {mnemonic : String} {op : Opcode} :
    Yields (Emit.named mnemonic) e op e' ↔ Opcode.ofMnemonic? mnemonic = some op ∧ e = e' := by
  unfold Emit.named
  cases Opcode.ofMnemonic? mnemonic with
  | none => exact ⟨fun h => (yields_throw.mp h).elim, fun h => nomatch h.1⟩
  | some known => rw [yields_pure, Option.some.injEq]

theorem emits_named_bind {α : Type} {mnemonic : String} {k : Opcode → Emit α} {a : α} :
    Yields (Emit.named mnemonic >>= k) e a e' ↔
      ∃ op, Opcode.ofMnemonic? mnemonic = some op ∧ Yields (k op) e a e' := by
  simp only [yields_bind, emits_named]
  constructor
  · rintro ⟨op, _, ⟨known, rfl⟩, behind⟩
    exact ⟨op, known, behind⟩
  · rintro ⟨op, known, behind⟩
    exact ⟨op, e, ⟨known, rfl⟩, behind⟩

theorem emitAll_cons : Yields (emitAll (call :: calls)) e log e' ↔ ∃ e₁ rest,
    Yields call.run e () e₁ ∧ Yields (emitAll calls) e₁ rest e' ∧
      (e.code.size, call) :: rest = log := by
  rw [emitAll, yields_get_bind, yields_bind]
  simp only [yields_bind, yields_pure]
  constructor
  · rintro ⟨_, e₁, first, rest, _, others, rfl, rfl⟩
    exact ⟨e₁, rest, first, others, rfl⟩
  · rintro ⟨e₁, rest, first, others, rfl⟩
    exact ⟨(), e₁, first, rest, e', others, rfl, rfl⟩

/-- All calls are noted. -/
theorem map_snd_of_emitAll (h : Yields (emitAll calls) e log e') : log.map Prod.snd = calls := by
  induction calls generalizing e log with
  | nil =>
    obtain ⟨rfl, -⟩ := yields_pure.mp h
    rfl
  | cons call rest ih =>
    obtain ⟨e₁, others, -, later, rfl⟩ := emitAll_cons.mp h
    rw [List.map_cons, ih later]

/-- No operand at all is given in one way only. -/
private theorem operand_ne_none {op : Opcode} {operand : Option Operand} {bytes : List UInt8}
    (h : Emit.operandBytes op operand = .ok bytes) : operand ≠ some .none := by
  rintro rfl
  have written := operandBytes_eq_ok_iff.mp h
  generalize op.operandKind = kind at written
  cases written

/-- A call writes its item. -/
theorem emits_item (h : Yields call.run e () e') : Yields call.item.emit e () e' := by
  cases call with
  | instruction mnemonic operand =>
    obtain ⟨op, known, written⟩ := emits_named_bind.mp h
    obtain ⟨-, bytes, operandBytes, -⟩ := emits_instruction.mp written
    have given : (if operand.getD .none = .none then none else some (operand.getD .none)) = operand := by
      have := operand_ne_none operandBytes
      cases operand with
      | none => rfl
      | some operand => exact if_neg fun same => this (congrArg some same)
    simp only [EmitCall.item, known]
    show Yields (Emit.instruction op (if operand.getD .none = .none then none else
      some (operand.getD .none))) e () e'
    rwa [given]
  | branch mnemonic name =>
    obtain ⟨op, known, written⟩ := emits_named_bind.mp h
    simp only [EmitCall.item, known]
    exact written
  | label name => exact h

/-- Calls write the items of a listing. -/
theorem emits_items (h : Yields (emitAll calls) e log e') :
    Yields ((calls.map EmitCall.item).forM ListingItem.emit) e () e' := by
  induction calls generalizing e log with
  | nil =>
    obtain ⟨-, rfl⟩ := yields_pure.mp h
    exact yields_pure.mpr ⟨rfl, rfl⟩
  | cons call rest ih =>
    obtain ⟨e₁, others, first, later, -⟩ := emitAll_cons.mp h
    exact emits_cons.mpr ⟨e₁, emits_item first, ih later⟩

/-- The call writes an instruction with the operand that it is given. -/
private theorem asRead_of_fitsIndex {mnemonic : String} {op : Opcode} {operand : Option Operand}
    (known : Opcode.ofMnemonic? mnemonic = some op)
    (fits : (EmitCall.instruction mnemonic operand).FitsIndex) :
    Operand.asRead op operand = operand.getD .none := by
  match operand with
  | some (.argument index) => simp [Operand.asRead, Operand.ofIndex, fits op known]
  | some (.localVar index) => simp [Operand.asRead, Operand.ofIndex, fits op known]
  | none | some .none | some (.int8 _) | some (.int32 _) | some (.int64 _) | some (.float64 _)
  | some (.target _) | some (.token _) => rfl

/-- The instruction of a call is that of its item. -/
private theorem instruction?_item (h : Yields call.run e () e') (fits : call.FitsIndex)
    (known : ∀ mnemonic name, call = .branch mnemonic name → (labels name).isSome = true)
    (position : Nat) : call.item.instruction? labels position = call.instruction? labels position := by
  cases call with
  | instruction mnemonic operand =>
    obtain ⟨op, found, written⟩ := emits_named_bind.mp h
    obtain ⟨-, bytes, operandBytes, -⟩ := emits_instruction.mp written
    have operation : (EmitCall.instruction mnemonic operand).item.operation? = some (op, operand) := by
      have := operand_ne_none operandBytes
      simp only [EmitCall.item, found, ListingItem.operation?]
      cases operand with
      | none => rfl
      | some operand => rw [Option.getD_some, if_neg fun same => this (congrArg some same)]
    rw [ListingItem.instruction?_of_operation operation, asRead_of_fitsIndex found fits,
      EmitCall.instruction?, found, Option.map_some]
  | branch mnemonic name =>
    obtain ⟨op, found, -⟩ := emits_named_bind.mp h
    obtain ⟨target, placed⟩ := Option.isSome_iff_exists.mp (known mnemonic name rfl)
    simp [EmitCall.item, EmitCall.instruction?, ListingItem.instruction?, found, placed]
  | label name => rfl

/-- Calls write the instructions of a listing, each where the call found the end of the code. -/
theorem instructionsFrom_of_emitAll (h : Yields (emitAll calls) e log e')
    (fits : ∀ call ∈ calls, call.FitsIndex)
    (known : ∀ mnemonic name, .branch mnemonic name ∈ calls → (labels name).isSome = true) :
    instructionsFrom labels e.code.size (calls.map EmitCall.item) =
      log.filterMap fun entry => entry.2.instruction? labels entry.1 := by
  induction calls generalizing e log with
  | nil =>
    obtain ⟨rfl, -⟩ := yields_pure.mp h
    rfl
  | cons call rest ih =>
    obtain ⟨e₁, others, first, later, rfl⟩ := emitAll_cons.mp h
    have size : e₁.code.size = e.code.size + call.item.size := by
      have written : Yields ([call.item].forM ListingItem.emit) e () e₁ :=
        emits_cons.mpr ⟨e₁, emits_item first, yields_pure.mpr ⟨rfl, rfl⟩⟩
      rw [size_of_emits written, listingSize_cons, listingSize_nil, Nat.add_zero]
    have here := instruction?_item first (fits call (List.mem_cons_self ..))
      (fun mnemonic name same => known mnemonic name (same ▸ List.mem_cons_self ..)) e.code.size
    have behind := ih later (fun call member => fits call (List.mem_cons_of_mem _ member))
      fun mnemonic name member => known mnemonic name (List.mem_cons_of_mem _ member)
    rw [List.map_cons, instructionsFrom, ← size, behind, here, List.filterMap_cons]
    dsimp only
    cases call.instruction? labels e.code.size <;> rfl

/-- Each call was made where it is noted. -/
private theorem run_of_emitAll (h : Yields (emitAll calls) e log e') :
    ∀ entry ∈ log, ∃ e₁ e₂ : Encoder, e₁.code.size = entry.1 ∧ Yields entry.2.run e₁ () e₂ := by
  induction calls generalizing e log with
  | nil =>
    obtain ⟨rfl, -⟩ := yields_pure.mp h
    simp
  | cons call rest ih =>
    obtain ⟨e₁, others, first, later, rfl⟩ := emitAll_cons.mp h
    exact List.forall_mem_cons.mpr ⟨⟨e, e₁, rfl, first⟩, ih later⟩

/-- An instruction is written by each call that places no label. -/
theorem isSome_instruction?_of_emitAll (h : Yields (emitAll calls) e log e')
    (known : ∀ mnemonic name, .branch mnemonic name ∈ calls → (labels name).isSome = true) :
    ∀ entry ∈ log, (entry.2.instruction? labels entry.1).isSome = !entry.2.isLabel := by
  intro (position, call) member
  obtain ⟨e₁, e₂, -, ran⟩ := run_of_emitAll h _ member
  have made : call ∈ calls := map_snd_of_emitAll h ▸ List.mem_map_of_mem member
  cases call with
  | instruction mnemonic operand =>
    obtain ⟨op, known, -⟩ := emits_named_bind.mp ran
    simp [EmitCall.instruction?, EmitCall.isLabel, known]
  | branch mnemonic name =>
    obtain ⟨op, found, -⟩ := emits_named_bind.mp ran
    obtain ⟨target, placed⟩ := Option.isSome_iff_exists.mp (known mnemonic name made)
    simp [EmitCall.instruction?, EmitCall.isLabel, found, placed]
  | label name => rfl

/-- The displacement that a call leaves to be filled in. -/
def EmitCall.fixup? (position : Nat) : EmitCall → Option Fixup
  | .branch mnemonic name =>
    (Opcode.ofMnemonic? mnemonic).map fun op =>
      ⟨name, position + op.size, op.operandKind.size⟩
  | _ => none

/-- The label that a call places, and where. -/
def EmitCall.placed? (position : Nat) : EmitCall → Option (String × Nat)
  | .label name => some (name, position)
  | _ => none

/-- What one call leaves to be filled in, and what it places. -/
private theorem effects_of_run (h : Yields call.run e () e') :
    e'.fixups.toList = e.fixups.toList ++ (call.fixup? e.code.size).toList ∧
      e'.labels = (call.placed? e.code.size).toList ++ e.labels := by
  cases call with
  | instruction mnemonic operand =>
    obtain ⟨op, -, written⟩ := emits_named_bind.mp h
    obtain ⟨-, _, -, rfl⟩ := emits_instruction.mp written
    exact ⟨(List.append_nil _).symm, rfl⟩
  | branch mnemonic name =>
    obtain ⟨op, known, written⟩ := emits_named_bind.mp h
    obtain ⟨-, rfl⟩ := emits_branch.mp written
    simp [EmitCall.fixup?, EmitCall.placed?, known]
  | label name =>
    obtain ⟨-, -, rfl⟩ := emits_label.mp h
    exact ⟨(List.append_nil _).symm, rfl⟩

theorem fixups_of_emitAll (h : Yields (emitAll calls) e log e') : e'.fixups.toList =
    e.fixups.toList ++ log.filterMap fun entry => entry.2.fixup? entry.1 := by
  induction calls generalizing e log with
  | nil =>
    obtain ⟨rfl, rfl⟩ := yields_pure.mp h
    exact (List.append_nil _).symm
  | cons call rest ih =>
    obtain ⟨e₁, others, first, later, rfl⟩ := emitAll_cons.mp h
    rw [ih later, (effects_of_run first).1, List.append_assoc, List.filterMap_cons]
    dsimp only
    cases call.fixup? e.code.size <;> rfl

theorem mem_labels_of_emitAll (h : Yields (emitAll calls) e log e') {name : String} {target : Nat} :
    (name, target) ∈ e'.labels ↔ (target, .label name) ∈ log ∨ (name, target) ∈ e.labels := by
  induction calls generalizing e log with
  | nil =>
    obtain ⟨rfl, rfl⟩ := yields_pure.mp h
    simp
  | cons call rest ih =>
    obtain ⟨e₁, others, first, later, rfl⟩ := emitAll_cons.mp h
    rw [ih later, (effects_of_run first).2, List.mem_append, List.mem_cons]
    cases call with
    | label other =>
      simp only [EmitCall.placed?, Option.toList_some, List.mem_singleton, Prod.mk.injEq,
        EmitCall.label.injEq]
      grind
    | instruction _ _ | branch _ _ => simp [EmitCall.placed?]

/-- A displacement is in the reach of a branch. -/
def Opcode.Reaches (op : Opcode) (displacement : Int) : Prop :=
  if op.operandKind = .shortTarget then -0x80 ≤ displacement ∧ displacement < 0x80
  else -0x80000000 ≤ displacement ∧ displacement < 0x80000000

/-- The error of a branch whose label is out of its reach. -/
def Opcode.outOfReach (op : Opcode) (name : String) (displacement : Int) : Error :=
  .invalidBranch (if op.operandKind = .shortTarget then .shortRange displacement name
    else .longRange displacement)

/-- Only a displacement that is out of reach is not written. -/
private theorem outOfReach_of_displacementBytes {op : Opcode} (branches : op.isBranch = true)
    {name : String} (position : Nat) {displacement : Int} {error : Error}
    (h : Encoder.displacementBytes ⟨name, position, op.operandKind.size⟩ displacement =
      .error error) :
    ¬ op.Reaches displacement ∧ error = op.outOfReach name displacement := by
  unfold Encoder.displacementBytes at h
  dsimp only at h
  unfold Opcode.Reaches Opcode.outOfReach
  rcases Opcode.isBranch_iff.mp branches with kind | kind
  · rw [kind, if_pos (show OperandKind.shortTarget.size = 1 from rfl)] at h
    rw [if_pos kind, if_pos kind]
    split at h
    case isTrue => cases h
    case isFalse far =>
      cases h
      exact ⟨far, rfl⟩
  · have long : ¬ op.operandKind = .shortTarget := by
      rw [kind]
      exact OperandKind.noConfusion
    rw [kind, if_neg (show ¬ OperandKind.target.size = 1 by decide)] at h
    rw [if_neg long, if_neg long]
    split at h
    case isTrue => cases h
    case isFalse far =>
      cases h
      exact ⟨far, rfl⟩

/-- Code cannot be finished only because a label is missing or too far away. -/
theorem finish_error_of_emitAll (h : Yields (emitAll calls) {} log e) {error : Error}
    (failed : e.finish = .error error) : ∃ position mnemonic op name,
      (position, .branch mnemonic name) ∈ log ∧ Opcode.ofMnemonic? mnemonic = some op ∧
        ((EmitCall.label name ∉ calls ∧ error = .undefinedLabel name) ∨
          ∃ target, (target, .label name) ∈ log ∧
            ¬ op.Reaches ((target : Int) - (position + op.size + op.operandKind.size : Nat)) ∧
            error = op.outOfReach name
              ((target : Int) - (position + op.size + op.operandKind.size : Nat))) := by
  -- What cannot be filled in was left by a call that branches, and only looking up the label and
  -- writing the displacement can fail.
  obtain ⟨fixup, member, code, unfilled⟩ := exists_fill_error_of_finish failed
  rw [fixups_of_emitAll h, List.nil_append, List.mem_filterMap] at member
  obtain ⟨⟨position, call⟩, noted, left⟩ := member
  cases call with
  | instruction mnemonic operand => cases left
  | label name => cases left
  | branch mnemonic name =>
    obtain ⟨op, known, rfl⟩ := Option.map_eq_some_iff.mp left
    refine ⟨position, mnemonic, op, name, noted, known, ?_⟩
    have branches : op.isBranch = true := by
      obtain ⟨e₁, e₂, -, ran⟩ := run_of_emitAll h _ noted
      obtain ⟨op', found, written⟩ := emits_named_bind.mp ran
      cases known.symm.trans found
      exact (emits_branch.mp written).1
    unfold Encoder.fill at unfilled
    dsimp only at unfilled
    split at unfilled
    case h_1 missing =>
      cases unfilled
      refine .inl ⟨fun placed => ?_, rfl⟩
      rw [← map_snd_of_emitAll h, List.mem_map] at placed
      obtain ⟨⟨target, _⟩, noted, rfl⟩ := placed
      have found : (name, target) ∈ e.labels := (mem_labels_of_emitAll h).mpr (.inl noted)
      simpa using List.lookup_eq_none_iff.mp missing _ found
    case h_2 target found =>
      have placed : (target, EmitCall.label name) ∈ log := by
        simpa using (mem_labels_of_emitAll h).mp (mem_of_lookup_eq_some found)
      refine .inr ⟨target, placed, outOfReach_of_displacementBytes branches (position + op.size) ?_⟩
      revert unfilled
      generalize Encoder.displacementBytes _ _ = written
      intro unfilled
      cases written with
      | ok bytes => cases unfilled
      | error e' =>
        cases unfilled
        rfl

/-- Finished code is that of the listing of the calls. -/
private theorem assemble_of_emitAll (h : Yields (emitAll calls) {} log e)
    {code : List UInt8} {placed : List (String × Nat)} (finished : e.finish = .ok (code, placed)) :
    assemble (calls.map EmitCall.item) = .ok (code, placed) := by
  have emits : ((calls.map EmitCall.item).forM ListingItem.emit).run {} = (.ok (), e) :=
    emits_items h
  unfold assemble
  rw [emits]
  exact finished

/-- A call that branches has the listing branch. -/
private theorem branch_mem_items {op : Opcode} {name : String}
    (member : ListingItem.branch op name ∈ calls.map EmitCall.item) :
    ∃ mnemonic, .branch mnemonic name ∈ calls := by
  obtain ⟨call, made, same⟩ := List.mem_map.mp member
  cases call with
  | instruction mnemonic operand =>
    rw [EmitCall.item] at same
    split at same <;> cases same
  | branch mnemonic other =>
    cases same
    exact ⟨mnemonic, made⟩
  | label other => cases same

/-- The labels that branches go to are in front of instructions. -/
private theorem branchesLand_of_emitAll {code : List UInt8} {placed : List (String × Nat)}
    (assembled : assemble (calls.map EmitCall.item) = .ok (code, placed))
    (followed : ∀ mnemonic name after, .branch mnemonic name ∈ calls →
      .label name :: after <:+ calls → ∃ call ∈ after, call.isLabel = false) :
    BranchesLand (fun name => placed.lookup name) (calls.map EmitCall.item) := by
  intro op name member
  obtain ⟨mnemonic, made⟩ := branch_mem_items member
  have encodes := encodes_of_assemble assembled
  obtain ⟨target, named, -⟩ := encodes.exists_target_of_branch member
  refine ⟨target, named, ?_⟩
  obtain ⟨call, labels, same⟩ := List.mem_map.mp (label_mem_of_assemble assembled named)
  obtain ⟨before, after, split⟩ := List.append_of_mem labels
  have isLabel := call.isLabel_item
  cases call with
  | instruction _ _ => rw [same] at isLabel; cases isLabel
  | branch _ _ => cases same
  | label other =>
    cases same
    obtain ⟨next, behind, writes⟩ := followed mnemonic name after made ⟨before, split.symm⟩
    rw [split, List.map_append, List.map_cons] at encodes ⊢
    obtain ⟨here, -⟩ := encodes.label_eq
    cases named.symm.trans here
    -- The instruction behind the label has a byte at least, so the label is not at the end.
    have positive : 0 < listingSize (after.map EmitCall.item) := by
      obtain ⟨front, back, rfl⟩ := List.append_of_mem behind
      have := ListingItem.size_pos (next.isLabel_item.trans writes)
      rw [List.map_append, List.map_cons, listingSize_append, listingSize_cons]
      omega
    rw [listingSize_append, listingSize_cons]
    omega

/-- Calls that write a loop which is left by a branch ahead. -/
def loopCalls : List EmitCall :=
  [.label "top", .instruction "ldarg.s" (some (.argument 7)), .branch "brfalse.s" "end",
    .branch "br" "top", .label "end", .instruction "ret" none]

end Calls

end Interpose
