import Interpose.Code.Encoder
import Interpose.Proofs.Bytes.Reading

/-!
# One instruction, written and read

An instruction that was written is read back as the same operation.  Its operand is read back as it
was written, except that the operation decides whether an index is that of an argument or of a local
variable; a displacement is read back as the offset of the label it was made for.

## Main definitions

* `Operand.asRead` — the operand that is read back for the one that was written
* `Operand.Written` — what is written of the operands of each kind

## Main results

* `operandBytes_eq_ok_iff` — which operands can be written behind an operation, and as what
* `takes_opcode`, `takes_operand`, `takes_displacement` — the parts of an instruction are read back
* `takes_instruction` — a whole instruction is read back
* `asRead_of_decodeInstructions` — operands are read in the form in which they are read back
-/

namespace Interpose

namespace Operand

/-- The index operand of an operation. -/
def ofIndex (op : Opcode) (index : UInt16) : Operand :=
  if op.namesArgument then .argument index else .localVar index

/-- The operand that is read back for one that was written. -/
def asRead (op : Opcode) : Option Operand → Operand
  | .none => .none
  | some (.argument index) | some (.localVar index) => ofIndex op index
  | some operand => operand

end Operand

namespace Opcode

variable {op : Opcode}

theorem length_bytes (op : Opcode) : op.bytes.length = op.size := by
  rw [bytes, size]
  split <;> rfl

theorem size_pos (op : Opcode) : 0 < op.size := by
  rw [size]
  split <;> decide

theorem code_ne_extendedMark (h : op.isExtended = false) : op.code ≠ extendedMark := by
  revert h
  cases op <;> decide

/-- The kinds of operand that are displacements. -/
theorem isBranch_iff :
    op.isBranch = true ↔ op.operandKind = .shortTarget ∨ op.operandKind = .target := by
  unfold isBranch
  generalize op.operandKind = kind
  cases kind <;> simp [OperandKind.isTarget]

theorem isBranch_flow (op : Opcode) : op.flow.isBranch = op.isBranch := by
  cases op <;> rfl

/-- The width of a displacement is that of the operand. -/
theorem displacement_width (h : op.isBranch = true) :
    (if op.operandKind = .shortTarget then 1 else 4) = op.operandKind.size := by
  rcases isBranch_iff.mp h with kind | kind
  · rw [kind]
    rfl
  · rw [kind]
    rfl

/-- The long form of a branch is a branch, and its own long form. -/
theorem widened_of_isBranch (op : Opcode) (h : op.isBranch = true) :
    op.widened.isBranch = true ∧ op.widened.widened = op.widened := by
  cases op <;> first | exact ⟨rfl, rfl⟩ | cases h

end Opcode

namespace Instruction

variable {i : Instruction}

theorem target?_eq_some_iff {target : Nat} :
    i.target? = some target ↔ i.operand = .target target := by
  unfold target?
  cases i.operand <;> simp

/-- Calls and creations of objects name what they call by its token. -/
theorem operandKind_of_isCall (h : (i.isCall || i.isConstruction) = true) :
    i.op.operandKind = .token := by
  unfold isCall isConstruction at h
  simp only [Bool.or_eq_true, decide_eq_true_eq] at h
  rcases h with (op | op) | op <;> rw [op] <;> rfl

/-- Calls and creations of objects do not branch. -/
theorem isBranch_of_isCall (h : (i.isCall || i.isConstruction) = true) : i.op.isBranch = false := by
  unfold Opcode.isBranch
  rw [operandKind_of_isCall h]
  rfl

end Instruction

theorem takes_opcode (op : Opcode) : Takes Opcode.decode op.bytes op := by
  have known := Opcode.ofCode?_code op
  unfold Opcode.decode
  cases extended : op.isExtended with
  | true =>
    rw [extended] at known
    rw [Opcode.bytes, if_pos extended]
    refine (takes_byte _).bind (v := [op.code]) ?_
    rw [if_pos rfl]
    refine (takes_byte _).bind (v := []) ?_
    rw [known]
    exact takes_pure op
  | false =>
    rw [extended] at known
    rw [Opcode.bytes, if_neg (by simp [extended])]
    refine (takes_byte _).bind (v := []) ?_
    rw [if_neg (Opcode.code_ne_extendedMark extended), known]
    exact takes_pure op

/-- An index that fits into one byte is read back from it. -/
private theorem takes_index8 {index : UInt16} (h : index.toNat < 0x100) (f : UInt16 → Operand) :
    Takes (Read.byte >>= fun b => pure (f b.toUInt16)) [index.toUInt8] (f index) := by
  have same : index.toUInt8.toUInt16 = index := by
    apply UInt16.toNat_inj.mp
    rw [UInt8.toNat_toUInt16, UInt16.toNat_toUInt8, Nat.mod_eq_of_lt h]
  have read := (takes_byte index.toUInt8).map fun b => f b.toUInt16
  rwa [same] at read

/-- What is written of an operand behind an operation that takes operands of the given kind. -/
inductive Operand.Written : OperandKind → Option Operand → List UInt8 → Prop
  | none : Written .none .none []
  | int8 (value : Int8) : Written .int8 (some (.int8 value)) [value.toUInt8]
  | argument8 {index : UInt16} (small : index.toNat < 0x100) :
      Written .index8 (some (.argument index)) [index.toUInt8]
  | localVar8 {index : UInt16} (small : index.toNat < 0x100) :
      Written .index8 (some (.localVar index)) [index.toUInt8]
  | argument16 (index : UInt16) :
      Written .index16 (some (.argument index)) (littleEndian 2 index.toNat)
  | localVar16 (index : UInt16) :
      Written .index16 (some (.localVar index)) (littleEndian 2 index.toNat)
  | int32 (value : Int32) :
      Written .int32 (some (.int32 value)) (littleEndian 4 value.toUInt32.toNat)
  | int64 (value : Int64) :
      Written .int64 (some (.int64 value)) (littleEndian 8 value.toUInt64.toNat)
  | float64 (bits : UInt64) : Written .float64 (some (.float64 bits)) (littleEndian 8 bits.toNat)
  | token (token : Token) : Written .token (some (.token token)) (littleEndian 4 token.value.toNat)

/-- The kind of operand that an operation takes decides what can be written behind it. -/
theorem operandBytes_eq_ok_iff {op : Opcode} {operand : Option Operand} {bytes : List UInt8} :
    Emit.operandBytes op operand = .ok bytes ↔ Operand.Written op.operandKind operand bytes := by
  unfold Emit.operandBytes
  constructor
  · intro h
    generalize op.operandKind = kind at h ⊢
    split at h
    case h_3 | h_4 =>
      split at h
      case isTrue small =>
        cases h
        constructor
        exact small
      case isFalse => cases h
    case h_11 => cases h
    all_goals
      cases h
      constructor
  · intro written
    generalize op.operandKind = kind at written ⊢
    cases written with
    | argument8 small | localVar8 small => exact if_pos small
    | _ => rfl

/-- Operands other than displacements are read back. -/
theorem takes_operand {op : Opcode} {operand : Option Operand} {bytes : List UInt8}
    (h : Emit.operandBytes op operand = .ok bytes) (offset : Nat) :
    Takes (Operand.decode offset op) bytes (Operand.asRead op operand) := by
  have written := operandBytes_eq_ok_iff.mp h
  unfold Operand.decode
  generalize op.operandKind = kind at written ⊢
  cases written with
  | none => exact takes_pure _
  | int8 value =>
    have read := (takes_byte value.toUInt8).map fun b => Operand.int8 b.toInt8
    rwa [Int8.toInt8_toUInt8] at read
  | argument8 small | localVar8 small => exact takes_index8 small (Operand.ofIndex op)
  | argument16 index | localVar16 index => exact (takes_word16 index).map _
  | int32 value => exact (takes_word32 value.toUInt32).map fun n => Operand.int32 n.toInt32
  | int64 value => exact (takes_word64 value.toUInt64).map fun n => Operand.int64 n.toInt64
  | float64 bits => exact (takes_word64 bits).map Operand.float64
  | token token => exact (takes_token token).map Operand.token

/-- An operand has as many bytes as its kind says. -/
theorem length_operandBytes {op : Opcode} {operand : Option Operand} {bytes : List UInt8}
    (h : Emit.operandBytes op operand = .ok bytes) : bytes.length = op.operandKind.size := by
  have written := operandBytes_eq_ok_iff.mp h
  generalize op.operandKind = kind at written ⊢
  cases written with
  | _ => rfl

/-- No displacement is written as an operand. -/
theorem asRead_ne_target {op : Opcode} {operand : Option Operand} {bytes : List UInt8}
    (h : Emit.operandBytes op operand = .ok bytes) (target : Nat) :
    Operand.asRead op operand ≠ .target target := by
  have written := operandBytes_eq_ok_iff.mp h
  generalize op.operandKind = kind at written
  cases written with
  | argument8 | localVar8 | argument16 | localVar16 =>
    rw [Operand.asRead, Operand.ofIndex]
    split <;> exact Operand.noConfusion
  | _ => exact Operand.noConfusion

/-- The one byte of a displacement stands for the displacement. -/
private theorem toInt_byte {d : Int} (lower : -0x80 ≤ d) (upper : d < 0x80) :
    (UInt8.ofNat (d % 0x100).toNat).toInt8.toInt = d := by
  rw [UInt8.toInt8_ofNat', Int8.toInt_ofNat', Int.toNat_of_nonneg (by omega)]
  exact (Int.emod_bmod d (0x100)).trans (Int.bmod_eq_of_le (by omega) (by omega))

/-- The four bytes of a displacement stand for the displacement. -/
private theorem toInt_word {d : Int} (lower : -0x80000000 ≤ d) (upper : d < 0x80000000) :
    (UInt32.ofNat ((d % 0x100000000).toNat % 256 ^ 4)).toInt32.toInt = d := by
  rw [Nat.mod_eq_of_lt (by omega), UInt32.toInt32_ofNat', Int32.toInt_ofNat',
    Int.toNat_of_nonneg (by omega)]
  exact (Int.emod_bmod d (0x100000000)).trans (Int.bmod_eq_of_le (by omega) (by omega))

/-- A displacement has as many bytes as its operation asks for. -/
theorem length_displacementBytes {op : Opcode} {label : String} {position : Nat} {d : Int}
    {bytes : List UInt8} (isBranch : op.isBranch = true)
    (h : Encoder.displacementBytes ⟨label, position, op.operandKind.size⟩ d = .ok bytes) :
    bytes.length = op.operandKind.size := by
  unfold Encoder.displacementBytes at h
  dsimp only at h
  rcases Opcode.isBranch_iff.mp isBranch with kind | kind
  · rw [kind] at h ⊢
    rw [if_pos (show OperandKind.shortTarget.size = 1 from rfl)] at h
    split at h <;> cases h
    rfl
  · rw [kind] at h ⊢
    rw [if_neg (by decide)] at h
    split at h <;> cases h
    rfl

/-- A displacement is read back as the offset of its label. -/
theorem takes_displacement {op : Opcode} {label : String} {bytes : List UInt8} {offset target : Nat}
    (isBranch : op.isBranch = true) (small : target < 0x100000000)
    (h : Encoder.displacementBytes ⟨label, offset + op.size, op.operandKind.size⟩
      ((target : Int) - (offset + op.size + op.operandKind.size : Nat)) = .ok bytes) :
    Takes (Operand.decode offset op) bytes (.target target) := by
  -- A displacement counts from the end of the operand that holds it.
  have back : destination offset (offset + op.size + op.operandKind.size)
      ((target : Int) - (offset + op.size + op.operandKind.size : Nat)) = .ok target := by
    have sum : ((offset + op.size + op.operandKind.size : Nat) : Int) +
        (target - (offset + op.size + op.operandKind.size : Nat)) = target := by omega
    rw [destination, sum, if_pos ⟨by omega, by exact_mod_cast small⟩]
    rfl
  generalize (target : Int) - (offset + op.size + op.operandKind.size : Nat) = d at h back
  unfold Encoder.displacementBytes at h
  unfold Operand.decode
  rcases Opcode.isBranch_iff.mp isBranch with kind | kind
  · rw [kind] at h back ⊢
    dsimp only at h
    rw [if_pos (show OperandKind.shortTarget.size = 1 from rfl)] at h
    split at h
    case isTrue reach =>
      cases h
      rw [← toInt_byte reach.1 reach.2] at back
      exact (takes_byte _).bind (v := []) ((takes_liftM back).map Operand.target)
    case isFalse => cases h
  · rw [kind] at h back ⊢
    dsimp only at h
    rw [if_neg (by decide)] at h
    split at h
    case isTrue reach =>
      cases h
      rw [← toInt_word reach.1 reach.2] at back
      exact ((takes_word 4 _).map UInt32.ofNat).bind (v := [])
        ((takes_liftM back).map Operand.target)
    case isFalse => cases h

/-- A written instruction is read back, with the offset at which it is found. -/
theorem takes_instruction {op : Opcode} {operand : Operand} {bytes tail : List UInt8} {c : Cursor}
    (start : c.position < 0x100000000) (h : Takes (Operand.decode c.position op) bytes operand)
    (faces : c.Faces (op.bytes ++ bytes ++ tail)) :
    Yields Instruction.decode c ⟨c.position, op, operand⟩ (c.skip (op.bytes ++ bytes).length) := by
  have rest : Takes (Opcode.decode >>= fun op => Operand.decode c.position op >>= fun operand =>
      pure (⟨c.position, op, operand⟩ : Instruction)) (op.bytes ++ bytes) ⟨c.position, op, operand⟩ :=
    (takes_opcode op).bind (h.map _)
  unfold Instruction.decode Read.position
  refine yields_bind.mpr ⟨c.position, c, ?_, ?_⟩
  · exact (yields_get.mpr ⟨rfl, rfl⟩).bind (yields_pure.mpr ⟨rfl, rfl⟩)
  · rw [if_neg (by omega)]
    exact rest faces

/-- The operand of an operation is read in the form in which it is read back. -/
theorem asRead_of_decode {offset : Nat} {op : Opcode} {operand : Operand} {c c' : Cursor}
    (h : Yields (Operand.decode offset op) c operand c') :
    Operand.asRead op (some operand) = operand := by
  have index (n : UInt16) : Operand.asRead op (some (Operand.ofIndex op n)) = Operand.ofIndex op n := by
    unfold Operand.ofIndex
    cases names : op.namesArgument <;> simp [Operand.asRead, Operand.ofIndex, names]
  unfold Operand.decode at h
  dsimp only at h
  split at h
  case h_1 =>
    obtain ⟨rfl, -⟩ := yields_pure.mp h
    rfl
  case h_9 | h_10 =>
    obtain ⟨displacement, c₁, -, h⟩ := yields_bind.mp h
    obtain ⟨target, -, h⟩ := yields_liftM_bind.mp h
    obtain ⟨rfl, -⟩ := yields_pure.mp h
    rfl
  all_goals
    obtain ⟨read, c₁, -, h⟩ := yields_bind.mp h
    obtain ⟨rfl, -⟩ := yields_pure.mp h
    first | rfl | exact index _

theorem asRead_of_decodeInstruction {i : Instruction} {c c' : Cursor}
    (h : Yields Instruction.decode c i c') : Operand.asRead i.op (some i.operand) = i.operand := by
  unfold Instruction.decode Read.malformed at h
  obtain ⟨offset, c₁, -, h⟩ := yields_bind.mp h
  obtain ⟨-, h⟩ := yields_guard.mp h
  obtain ⟨op, c₂, -, h⟩ := yields_bind.mp h
  obtain ⟨operand, c₃, read, h⟩ := yields_bind.mp h
  obtain ⟨rfl, -⟩ := yields_pure.mp h
  exact asRead_of_decode read

/-- All operands of code are read in the form in which they are read back. -/
theorem asRead_of_decodeInstructions {fuel : Nat} {instructions : List Instruction} {c c' : Cursor}
    (h : Yields (decodeInstructions fuel) c instructions c') :
    ∀ i ∈ instructions, Operand.asRead i.op (some i.operand) = i.operand := by
  induction fuel generalizing c c' instructions with
  | zero =>
    obtain ⟨rfl, -⟩ := yields_pure.mp h
    exact fun i member => nomatch member
  | succ fuel ih =>
    unfold decodeInstructions at h
    obtain ⟨more, c₁, -, h⟩ := yields_bind.mp h
    cases more with
    | false =>
      obtain ⟨rfl, -⟩ := yields_pure.mp h
      exact fun i member => nomatch member
    | true =>
      rw [if_pos rfl] at h
      obtain ⟨first, c₂, read, h⟩ := yields_bind.mp h
      obtain ⟨rest, c₃, others, h⟩ := yields_bind.mp h
      obtain ⟨rfl, -⟩ := yields_pure.mp h
      exact List.forall_mem_cons.mpr ⟨asRead_of_decodeInstruction read, ih others⟩

end Interpose
