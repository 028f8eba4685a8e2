import Interpose.Proofs.Code.Emission

/-!
# Refused calls on an encoder

A call that an encoder refuses leaves the labels and the displacements to be filled in as they were.
Names of operations, branches and labels are looked at before anything is written, but the operand is
looked at after the operation has been written: an instruction that is refused for its operand leaves
the bytes of its operation behind, and whatever is written next comes after them.

## Main definitions

* `EncoderCall` — the calls on an encoder that can be refused, `EncoderCall.base` in terms of the three
  things that can be written
* `EmitCall.appended` — the bytes that a call puts behind the code, whether it succeeds or not
* `EmitCall.RefusesOperand` — the operation is known and does not branch, but the operand is not its own
* `Encoder.attemptAll` — makes calls one after the other and goes on if one of them is refused

## Main results

* `EmitCall.effect_of_fails` — what a refused call leaves behind
* `EncoderCall.code_attemptAll` — calls put the same bytes behind any code
* `EncoderCall.unchanged_of_fails_iff` — a refused call goes unnoticed just if it was not refused for
  its operand
-/

namespace Interpose

/-- A call on an encoder that may be refused. -/
inductive EncoderCall where
  /-- Writes an instruction that does not branch. -/
  | instruction (mnemonic : String) (operand : Option Operand)
  /-- Writes an instruction as it was read. -/
  | decoded (i : Instruction)
  /-- Writes a branch to a label. -/
  | branch (mnemonic label : String)
  /-- Writes an instruction that refers to a method. -/
  | call (mnemonic : String) (method : Token)
  /-- Places a label. -/
  | label (name : String)
deriving DecidableEq

namespace EncoderCall

/-- Makes a call. -/
def run : EncoderCall → Emit Unit
  | .instruction mnemonic operand => do Emit.instruction (← Emit.named mnemonic) operand
  | .decoded i => Emit.decoded i
  | .branch mnemonic name => do Emit.branch (← Emit.named mnemonic) name
  | .call mnemonic method => do Emit.token (← Emit.named mnemonic) method
  | .label name => Emit.label name

/-- A call as one of the three things that can be written. -/
def base : EncoderCall → EmitCall
  | .instruction mnemonic operand => .instruction mnemonic operand
  | .decoded i => .instruction i.op.mnemonic (if i.operand = .none then none else some i.operand)
  | .branch mnemonic name => .branch mnemonic name
  | .call mnemonic method => .instruction mnemonic (some (.token method))
  | .label name => .label name

/-- Nothing else is written. -/
theorem run_base (call : EncoderCall) : call.run = call.base.run := by
  cases call with
  | decoded i =>
    have known : Emit.named i.op.mnemonic = pure i.op := by
      rw [Emit.named, Opcode.ofMnemonic?_mnemonic]
    rw [base, EmitCall.run, known, pure_bind]
    rfl
  | _ => rfl

end EncoderCall

namespace EmitCall

variable {call : EmitCall} {e e' : Encoder} {error : Error} {op : Opcode}

/-- The operation is known and does not branch, but it does not take the operand. -/
def RefusesOperand (op : Opcode) : EmitCall → Prop
  | .instruction mnemonic operand => Opcode.ofMnemonic? mnemonic = some op ∧ op.isBranch = false ∧
      ∃ error, Emit.operandBytes op operand = .error error
  | _ => False

/-- The bytes that a call puts behind the code, whether it succeeds or not. -/
def appended : EmitCall → List UInt8
  | .instruction mnemonic operand =>
    match Opcode.ofMnemonic? mnemonic with
    | some op =>
      if op.isBranch then [] else op.bytes ++ (Emit.operandBytes op operand).toOption.getD []
    | none => []
  | .branch mnemonic _ =>
    match Opcode.ofMnemonic? mnemonic with
    | some op => if op.isBranch then op.bytes ++ List.replicate op.operandKind.size 0 else []
    | none => []
  | .label _ => []

/-- All bytes of an operation are there before its operand is refused. -/
theorem RefusesOperand.appended (h : call.RefusesOperand op) : call.appended = op.bytes := by
  cases call with
  | instruction mnemonic operand =>
    obtain ⟨known, plain, error, refused⟩ := h
    simp [EmitCall.appended, known, plain, refused, Except.toOption]
  | branch | label => cases h

theorem fails_named {mnemonic : String} (h : Fails (Emit.named mnemonic) e error e') :
    Opcode.ofMnemonic? mnemonic = none ∧ e' = e := by
  unfold Emit.named at h
  cases known : Opcode.ofMnemonic? mnemonic with
  | none =>
    rw [known] at h
    exact ⟨rfl, (fails_throw.mp h).2.symm⟩
  | some op =>
    rw [known] at h
    exact absurd h not_fails_pure

/-- An instruction is refused for branching before anything is written, or for its operand after the
operation has been. -/
theorem fails_instruction {operand : Option Operand}
    (h : Fails (Emit.instruction op operand) e error e') :
    op.isBranch = true ∧ e' = e ∨ op.isBranch = false ∧
      Emit.operandBytes op operand = .error error ∧ e' = { e with code := e.code ++ op.bytes } := by
  unfold Emit.instruction Emit.bytes at h
  obtain ⟨branches, -, rfl⟩ | ⟨plain, h⟩ := fails_guard.mp h
  · exact .inl ⟨branches, rfl⟩
  · rw [fails_modify_bind] at h
    obtain ⟨refused, rfl⟩ | ⟨bytes, -, h⟩ := fails_liftM_bind.mp h
    · exact .inr ⟨Bool.eq_false_iff.mpr plain, refused, rfl⟩
    · exact absurd h not_fails_modify

/-- A branch is refused for not being one before anything is written. -/
theorem fails_branch {name : String} (h : Fails (Emit.branch op name) e error e') :
    op.isBranch = false ∧ e' = e := by
  unfold Emit.branch Emit.bytes at h
  obtain ⟨plain, -, rfl⟩ | ⟨-, h⟩ := fails_guard.mp h
  · exact ⟨by simpa [Opcode.isBranch_flow] using plain, rfl⟩
  · rw [fails_modify_bind] at h
    exact absurd h not_fails_modify

/-- A label is refused before anything is written. -/
theorem fails_label {name : String} (h : Fails (Emit.label name) e error e') : e' = e := by
  unfold Emit.label Emit.position at h
  rw [fails_get_bind] at h
  obtain ⟨-, -, rfl⟩ | ⟨-, h⟩ := fails_guard.mp h
  · rfl
  · obtain h | ⟨offset, _, -, h⟩ := fails_bind.mp h
    · rw [fails_get_bind] at h
      obtain ⟨-, -, rfl⟩ | ⟨-, h⟩ := fails_guard.mp h
      · rfl
      · exact absurd h not_fails_pure
    · exact absurd h not_fails_modify

/-- A refused call leaves at most the bytes of an operation behind, and these only if the operand is
refused. -/
theorem effect_of_fails (h : Fails call.run e error e') :
    (e' = e ∧ call.appended = [] ∧ ∀ op, ¬ call.RefusesOperand op) ∨
      ∃ op, call.RefusesOperand op ∧ e' = { e with code := e.code ++ op.bytes } := by
  cases call with
  | instruction mnemonic operand =>
    obtain h | ⟨op, _, named, h⟩ := fails_bind.mp h
    · obtain ⟨unknown, rfl⟩ := fails_named h
      exact .inl ⟨rfl, by simp [appended, unknown], by simp [RefusesOperand, unknown]⟩
    · obtain ⟨known, rfl⟩ := emits_named.mp named
      obtain ⟨branches, rfl⟩ | ⟨plain, refused, rfl⟩ := fails_instruction h
      · exact .inl ⟨rfl, by simp [appended, known, branches],
          by simp [RefusesOperand, known, branches]⟩
      · exact .inr ⟨op, ⟨known, plain, error, refused⟩, rfl⟩
  | branch mnemonic name =>
    refine .inl ?_
    obtain h | ⟨op, _, named, h⟩ := fails_bind.mp h
    · obtain ⟨unknown, rfl⟩ := fails_named h
      exact ⟨rfl, by simp [appended, unknown], fun _ => id⟩
    · obtain ⟨known, rfl⟩ := emits_named.mp named
      obtain ⟨plain, rfl⟩ := fails_branch h
      exact ⟨rfl, by simp [appended, known, plain], fun _ => id⟩
  | label name =>
    obtain rfl := fails_label h
    exact .inl ⟨rfl, rfl, fun _ => id⟩

private theorem appendList_assoc (code : Array UInt8) (first second : List UInt8) :
    code ++ first ++ second = code ++ (first ++ second) := by
  apply Array.toList_inj.mp
  rw [Array.toList_appendList, Array.toList_appendList, Array.toList_appendList, List.append_assoc]

/-- Whatever comes of a call, it puts the same bytes behind the code. -/
theorem code_run (call : EmitCall) (e : Encoder) :
    (call.run.run.run e).2.code = e.code ++ call.appended := by
  rcases result : call.run.run.run e with ⟨error | u, e'⟩
  · obtain ⟨rfl, nothing, -⟩ | ⟨op, refuses, rfl⟩ := effect_of_fails result
    · simp [nothing]
    · rw [refuses.appended]
  · -- A call that is not refused puts its own bytes there.
    cases call with
    | instruction mnemonic operand =>
      obtain ⟨op, known, written⟩ := emits_named_bind.mp result
      obtain ⟨plain, bytes, taken, rfl⟩ := emits_instruction.mp written
      simp [appended, known, plain, taken, Except.toOption, appendList_assoc]
    | branch mnemonic name =>
      obtain ⟨op, known, written⟩ := emits_named_bind.mp result
      obtain ⟨branches, rfl⟩ := emits_branch.mp written
      simp [appended, known, branches, appendList_assoc]
    | label name =>
      obtain ⟨-, -, rfl⟩ := emits_label.mp result
      simp [appended]

end EmitCall

namespace Encoder

variable {e e' : Encoder} {calls : List EncoderCall} {final : List UInt8 × List (String × Nat)}

/-- Makes calls one after the other, and goes on if one of them is refused. -/
def attemptAll (e : Encoder) (calls : List EncoderCall) : Encoder :=
  calls.foldl (fun e call => (call.run.run.run e).2) e

/-- Calls put the same bytes behind any code. -/
theorem code_attemptAll (e : Encoder) (calls : List EncoderCall) :
    (e.attemptAll calls).code = e.code ++ calls.flatMap fun call => call.base.appended := by
  induction calls generalizing e with
  | nil => simp [attemptAll]
  | cons call rest ih =>
    have first := call.base.code_run e
    rw [← call.run_base] at first
    rw [attemptAll, List.foldl_cons, ← attemptAll, ih, first, List.flatMap_cons,
      EmitCall.appendList_assoc]

theorem size_overwrite (code : Array UInt8) (position : Nat) (bytes : List UInt8) :
    (overwrite code position bytes).size = code.size := by
  induction bytes generalizing code position with
  | nil => rfl
  | cons byte rest ih => rw [overwrite, ih, Array.size_setIfInBounds]

/-- Filling in displacements keeps the length of the code. -/
theorem length_of_finish (finished : e.finish = .ok final) : final.1.length = e.code.size := by
  have filled (fixups : List Fixup) {code code' : Array UInt8}
      (h : fixups.foldlM e.fill code = .ok code') : code'.size = code.size := by
    induction fixups generalizing code with
    | nil =>
      cases h
      rfl
    | cons fixup rest ih =>
      obtain ⟨between, first, later⟩ := bind_eq_ok_iff.mp h
      obtain ⟨_, _, -, -, rfl⟩ := fill_eq_ok_iff.mp first
      rw [ih later, size_overwrite]
  unfold finish at finished
  obtain ⟨code, fills, same⟩ := bind_eq_ok_iff.mp finished
  rw [← Array.foldlM_toList] at fills
  cases same
  rw [Array.length_toList, filled _ fills]

end Encoder

namespace EncoderCall

variable {call : EncoderCall} {e e' : Encoder} {error : Error}

/-- A refused call leaves labels and displacements as they were, and the code as well just if it was
not refused for its operand; otherwise the bytes of the operation stay behind.  Calls that follow do not
make up for them: if both can be finished, the code is the same as without the refused call just if
that left nothing. -/
theorem unchanged_of_fails_iff (h : Fails call.run e error e') :
    (e'.labels = e.labels ∧ e'.fixups = e.fixups) ∧
    (e'.code = e.code ↔ ∀ op, ¬ call.base.RefusesOperand op) ∧
    (∀ op, call.base.RefusesOperand op → e'.code = e.code ++ op.bytes) ∧
    ∀ calls final final', (e.attemptAll calls).finish = .ok final →
      (e'.attemptAll calls).finish = .ok final' →
        (final' = final ↔ ∀ op, ¬ call.base.RefusesOperand op) := by
  rw [run_base] at h
  obtain ⟨rfl, -, takes⟩ | ⟨op, refuses, rfl⟩ := EmitCall.effect_of_fails h
  · -- Nothing has changed, so nothing changes what follows.
    refine ⟨⟨rfl, rfl⟩, iff_of_true rfl takes, fun op refuses => absurd refuses (takes op), ?_⟩
    intro calls final final' finished finished'
    cases finished.symm.trans finished'
    exact iff_of_true rfl takes
  · have some : ¬ ∀ op, ¬ call.base.RefusesOperand op := fun takes => takes op refuses
    have longer (code : Array UInt8) : (code ++ op.bytes).size = code.size + op.size := by
      rw [← Array.length_toList, Array.toList_appendList, List.length_append, Opcode.length_bytes,
        Array.length_toList]
    refine ⟨⟨rfl, rfl⟩, iff_of_false ?_ some, ?_, ?_⟩
    · intro same
      have size := congrArg Array.size same
      have positive := op.size_pos
      rw [longer] at size
      omega
    · intro other again
      rw [← again.appended, refuses.appended]
    · intro calls final final' finished finished'
      refine iff_of_false ?_ some
      rintro rfl
      -- Both have the same bytes behind, so the lengths differ by those of the operation.
      have length := Encoder.length_of_finish finished
      have length' := Encoder.length_of_finish finished'
      have positive := op.size_pos
      rw [Encoder.code_attemptAll, ← Array.length_toList, Array.toList_appendList,
        List.length_append, Array.length_toList] at length length'
      rw [longer] at length'
      omega

/-- An instruction whose operand is not its own. -/
def mismatchedCall : EncoderCall := .instruction "ldarg.s" (some (.int32 1))

/-- It is refused, and the byte of its operation stays behind. -/
theorem fails_mismatchedCall : Fails mismatchedCall.run {}
    (.malformed (.operandMismatch (Operand.optionDetail (some (.int32 1))) "ldarg.s" "UInt8"))
    { code := #[0x0E] } := by
  have named : Yields (Emit.named "ldarg.s") {} Opcode.ldargS ({} : Encoder) :=
    emits_named.mpr ⟨Opcode.ofMnemonic?_mnemonic .ldargS, rfl⟩
  exact fails_bind.mpr (.inr ⟨.ldargS, {}, named, rfl⟩)

/-- With an instruction behind it, the code is not the same as without it. -/
theorem unchanged_of_fails_iff_mismatchedCall : ∃ error e' final final',
    Fails mismatchedCall.run {} error e' ∧ e'.code = (#[] : Array UInt8) ++ Opcode.ldargS.bytes ∧
      (({} : Encoder).attemptAll [.instruction "ret" none]).finish = .ok final ∧
      (e'.attemptAll [.instruction "ret" none]).finish = .ok final' ∧ final'.1 = [0x0E, 0x2A] ∧
      final' ≠ final := by
  obtain ⟨-, -, leaves, continues⟩ := unchanged_of_fails_iff fails_mismatchedCall
  have refuses : mismatchedCall.base.RefusesOperand .ldargS :=
    ⟨Opcode.ofMnemonic?_mnemonic .ldargS, rfl, _, rfl⟩
  have without : (({} : Encoder).attemptAll [.instruction "ret" none]).finish =
      .ok ([0x2A], []) := by
    decide +kernel
  have behind : (({ code := #[0x0E] } : Encoder).attemptAll [.instruction "ret" none]).finish =
      .ok ([0x0E, 0x2A], []) := by
    decide +kernel
  refine ⟨_, _, _, _, fails_mismatchedCall, leaves _ refuses, without, behind, rfl, fun same => ?_⟩
  exact (continues _ _ _ without behind).mp same _ refuses

/-- A call that is refused on the empty encoder leaves a byte behind. -/
theorem not_forall_unchanged_of_fails : ¬ ∀ (call : EncoderCall) (e e' : Encoder) (error : Error),
    Fails call.run e error e' → e' = e := by
  intro all
  have same := congrArg Encoder.code (all mismatchedCall _ _ _ fails_mismatchedCall)
  exact absurd same (by decide)

end EncoderCall

end Interpose
