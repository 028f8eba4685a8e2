import Interpose.Proofs.Bytes.Reading
import Interpose.Proofs.Code.Assembly

/-!
# Where instructions are found

Reading an instruction moves on, so the instructions of a method are found one behind the other.

## Main definitions

* `Read.Advances` — a read does not go back

## Main results

* `pairwise_offset_of_decodeCode` — the instructions of a method are found in increasing order
-/

namespace Interpose

/-- A read that succeeds does not go back. -/
def Read.Advances {α : Type} (read : Read α) : Prop :=
  ∀ ⦃c a c'⦄, Yields read c a c' → c.position ≤ c'.position

section Advances

variable {α β : Type} {read : Read α} {k : α → Read β}

theorem advances_pure (a : α) : Read.Advances (pure a) := by
  intro c b c' h
  rw [(yields_pure.mp h).2]

theorem advances_throw (error : Error) : Read.Advances (throw error : Read α) :=
  fun _ _ _ h => (yields_throw.mp h).elim

theorem Read.Advances.bind (h : read.Advances) (later : ∀ a, (k a).Advances) :
    (read >>= k).Advances := by
  intro c b c' yields
  obtain ⟨a, c₁, first, second⟩ := yields_bind.mp yields
  exact Nat.le_trans (h first) (later a second)

theorem Read.Advances.map (h : read.Advances) (f : α → β) : (f <$> read).Advances := by
  rw [map_eq_pure_bind]
  exact h.bind fun a => advances_pure (f a)

theorem advances_liftM (x : Except Error α) : Read.Advances (liftM x) := by
  intro c a c' h
  rw [(yields_liftM.mp h).2]

theorem advances_byte : Read.byte.Advances := by
  intro c b c' h
  rw [← (yields_byte.mp h).2, Cursor.skip_position]
  exact Nat.le_add_right _ _

theorem advances_word (width : Nat) : (Read.word width).Advances := by
  refine Read.Advances.map (fun c bytes c' h => ?_) _
  unfold Read.bytes at h
  rw [yields_get_bind, yields_guard, yields_set_bind] at h
  rw [← (yields_pure.mp h.2).2]
  exact Nat.le_add_right _ _

end Advances

section Instructions

variable {c c' : Cursor} {i : Instruction} {instructions : List Instruction}

theorem Operand.advances_decode (offset : Nat) (op : Opcode) :
    (Operand.decode offset op).Advances := by
  unfold Operand.decode
  dsimp only
  split
  case h_1 => exact advances_pure _
  case h_2 | h_3 => exact advances_byte.bind fun _ => advances_pure _
  case h_4 | h_5 | h_6 | h_7 => exact ((advances_word _).map _).bind fun _ => advances_pure _
  case h_8 => exact (((advances_word _).map _).map _).bind fun _ => advances_pure _
  case h_9 =>
    exact advances_byte.bind fun _ => (advances_liftM _).bind fun _ => advances_pure _
  case h_10 =>
    exact ((advances_word _).map _).bind fun _ => (advances_liftM _).bind fun _ => advances_pure _

/-- The code of an operation takes at least one byte. -/
theorem Opcode.position_lt_of_decode {op : Opcode} (h : Yields Opcode.decode c op c') :
    c.position < c'.position := by
  unfold Opcode.decode at h
  obtain ⟨first, c₁, here, h⟩ := yields_bind.mp h
  have moved : c₁.position = c.position + 1 := by
    rw [← (yields_byte.mp here).2, Cursor.skip_position]
  have later : c₁.position ≤ c'.position := by
    split at h
    case isTrue =>
      refine advances_byte.bind (fun second => ?_) h
      split
      case h_1 op _ => exact advances_pure op
      case h_2 => exact advances_throw _
    case isFalse =>
      split at h
      case h_1 op _ => exact advances_pure op h
      case h_2 => exact advances_throw _ h
  omega

/-- An instruction has the offset at which it is read, and the next one comes behind it. -/
theorem Instruction.offset_of_decode (h : Yields Instruction.decode c i c') :
    i.offset = c.position ∧ c.position < c'.position := by
  unfold Instruction.decode at h
  obtain ⟨offset, c₁, here, h⟩ := yields_bind.mp h
  obtain ⟨rfl, rfl⟩ := yields_position.mp here
  obtain ⟨-, h⟩ := yields_guard.mp h
  obtain ⟨op, c₁, first, h⟩ := yields_bind.mp h
  obtain ⟨operand, c₂, second, h⟩ := yields_bind.mp h
  obtain ⟨rfl, rfl⟩ := yields_pure.mp h
  exact ⟨rfl, Nat.lt_of_lt_of_le (Opcode.position_lt_of_decode first)
    (Operand.advances_decode _ _ second)⟩

theorem pairwise_offset_of_decodeInstructions {fuel : Nat}
    (h : Yields (decodeInstructions fuel) c instructions c') :
    instructions.Pairwise (·.offset < ·.offset) ∧ ∀ i ∈ instructions, c.position ≤ i.offset := by
  -- All instructions are found from the cursor on, which carries the order through the induction.
  induction fuel generalizing c c' instructions with
  | zero =>
    obtain ⟨rfl, -⟩ := yields_pure.mp h
    exact ⟨.nil, fun i member => nomatch member⟩
  | succ fuel ih =>
    unfold decodeInstructions at h
    obtain ⟨more, c₁, here, h⟩ := yields_bind.mp h
    obtain ⟨-, rfl⟩ := yields_hasMore.mp here
    split at h
    case isFalse =>
      obtain ⟨rfl, -⟩ := yields_pure.mp h
      exact ⟨.nil, fun i member => nomatch member⟩
    case isTrue =>
      obtain ⟨first, c₁, one, h⟩ := yields_bind.mp h
      obtain ⟨rest, c₂, others, h⟩ := yields_bind.mp h
      obtain ⟨rfl, -⟩ := yields_pure.mp h
      obtain ⟨placed, moved⟩ := Instruction.offset_of_decode one
      obtain ⟨increasing, behind⟩ := ih others
      refine ⟨List.pairwise_cons.mpr ⟨fun i later => ?_, increasing⟩,
        List.forall_mem_cons.mpr ⟨Nat.le_of_eq placed.symm, fun i later => ?_⟩⟩
      · have := behind i later
        omega
      · have := behind i later
        omega

/-- The instructions of a method are found in increasing order. -/
theorem pairwise_offset_of_decodeCode {code : List UInt8} (h : decodeCode code = .ok instructions) :
    instructions.Pairwise (·.offset < ·.offset) := by
  obtain ⟨run, -⟩ := decodeCode_eq_ok_iff.mp h
  exact (pairwise_offset_of_decodeInstructions (Prod.ext run rfl)).1

end Instructions

end Interpose
