import Interpose.Proofs.Code.Offsets

/-!
# What instructions are read from

There is one way only to write an instruction, short and long forms being different operations.  So
the bytes that an instruction is read from are those that an encoder writes for it, and code is made
of nothing but such bytes.  Hence different code is decoded to different instructions.

## Main definitions

* `Spells` — a read takes bytes that are determined by what it gives
* `Operand.Spelled` — the bytes of an operand
* `Operand.IsFor` — an operand is of the kind that follows an operation
* `SpelledFrom` — bytes are those of instructions that lie one behind the other

## Main results

* `spells_operand`, `decode_spelled` — instructions are read from the bytes that are written
* `spelledFrom_of_decodeCode` — so is all code that is accepted
* `SpelledFrom.unique` — instructions lie in one code only
-/

namespace Interpose

/-- A read that succeeds takes bytes that have a given relation to what it gives. -/
def Spells {α : Type} (read : Read α) (Q : α → List UInt8 → Prop) : Prop :=
  ∀ ⦃c : Cursor⦄ ⦃all : List UInt8⦄ ⦃a : α⦄ ⦃c' : Cursor⦄, c.Faces all → Yields read c a c' →
    ∃ bytes tail, bytes ++ tail = all ∧ c.skip bytes.length = c' ∧ Q a bytes

section Reads

variable {α β : Type} {read : Read α} {k : α → Read β} {P : α → List UInt8 → Prop}
  {Q : β → List UInt8 → Prop}

theorem spells_pure {b : β} (h : Q b []) : Spells (pure b) Q := by
  intro c all b' c' faces yields
  obtain ⟨rfl, rfl⟩ := yields_pure.mp yields
  exact ⟨[], all, rfl, rfl, h⟩

theorem spells_throw (e : Error) : Spells (throw e) Q := fun _ _ _ _ _ yields =>
  (yields_throw.mp yields).elim

theorem Spells.bind (h : Spells read P)
    (h' : ∀ a u, P a u → Spells (k a) fun b v => Q b (u ++ v)) : Spells (read >>= k) Q := by
  intro c all b c' faces yields
  obtain ⟨a, c₁, first, second⟩ := yields_bind.mp yields
  obtain ⟨u, tail, rfl, rfl, spelled⟩ := h faces first
  obtain ⟨v, rest, rfl, rfl, spelled'⟩ := h' a u spelled faces.skip second
  refine ⟨u ++ v, rest, List.append_assoc .., ?_, spelled'⟩
  rw [List.length_append, Cursor.skip_skip]

theorem Spells.map (h : Spells read P) {f : α → β} (h' : ∀ a bytes, P a bytes → Q (f a) bytes) :
    Spells (read >>= fun a => pure (f a)) Q :=
  h.bind fun a u spelled => spells_pure (by simpa using h' a u spelled)

theorem spells_liftM {x : Except Error α} {Q : α → List UInt8 → Prop}
    (h : ∀ a, x = .ok a → Q a []) : Spells (liftM x) Q := by
  intro c all a c' faces yields
  obtain ⟨known, rfl⟩ := yields_liftM.mp yields
  exact ⟨[], all, rfl, rfl, h a known⟩

theorem spells_byte : Spells Read.byte fun b bytes => bytes = [b] := by
  intro c all b c' faces yields
  obtain ⟨found, rfl⟩ := yields_byte.mp yields
  cases all with
  | nil =>
    have size := faces.size_eq
    obtain ⟨inside, -⟩ := Array.getElem?_eq_some_iff.mp found
    simp only [List.length_nil] at size
    omega
  | cons first rest =>
    cases found.symm.trans faces.getElem?
    exact ⟨[b], rest, rfl, rfl, rfl⟩

theorem spells_bytes (count : Nat) :
    Spells (Read.bytes count) fun taken bytes => bytes = taken ∧ taken.length = count := by
  intro c all taken c' faces yields
  have length := length_of_bytes yields
  unfold Read.bytes at yields
  rw [yields_get_bind, yields_guard, yields_set_bind] at yields
  obtain ⟨enough, yields⟩ := yields
  obtain ⟨same, rfl⟩ := yields_pure.mp yields
  have split : all = all.take count ++ all.drop count := (List.take_append_drop count all).symm
  have few : (all.take count).length = count := by
    have size := faces.size_eq
    rw [List.length_take]
    omega
  rw [split] at faces
  have taken_eq := faces.extract
  rw [few, same] at taken_eq
  exact ⟨taken, all.drop count, taken_eq ▸ split.symm, by rw [length]; rfl, rfl, length⟩

/-- Bytes are those of the number that they stand for. -/
theorem littleEndian_ofLittleEndian (bytes : List UInt8) :
    littleEndian bytes.length (ofLittleEndian bytes) = bytes := by
  induction bytes with
  | nil => rfl
  | cons byte rest ih =>
    have small := byte.toNat_lt
    have quotient : (byte.toNat + 256 * ofLittleEndian rest) / 256 = ofLittleEndian rest := by omega
    have remainder : UInt8.ofNat (byte.toNat + 256 * ofLittleEndian rest) = byte := by
      apply UInt8.toNat_inj.mp
      rw [UInt8.toNat_ofNat']
      omega
    rw [List.length_cons, littleEndian, ofLittleEndian, quotient, remainder, ih]

theorem spells_word (width : Nat) :
    Spells (Read.word width) fun n bytes => bytes = littleEndian width n ∧ n < 256 ^ width :=
  (spells_bytes width).map fun taken bytes ⟨same, length⟩ => by
    subst same length
    exact ⟨(littleEndian_ofLittleEndian bytes).symm, ofLittleEndian_lt bytes⟩

theorem spells_word16 : Spells Read.word16 fun n bytes => bytes = littleEndian 2 n.toNat :=
  (spells_word 2).map fun n bytes ⟨same, small⟩ => by
    rw [UInt16.toNat_ofNat', Nat.mod_eq_of_lt (show n < 2 ^ 16 from small), same]

theorem spells_word32 : Spells Read.word32 fun n bytes => bytes = littleEndian 4 n.toNat :=
  (spells_word 4).map fun n bytes ⟨same, small⟩ => by
    rw [UInt32.toNat_ofNat', Nat.mod_eq_of_lt (show n < 2 ^ 32 from small), same]

theorem spells_word64 : Spells Read.word64 fun n bytes => bytes = littleEndian 8 n.toNat :=
  (spells_word 8).map fun n bytes ⟨same, small⟩ => by
    rw [UInt64.toNat_ofNat', Nat.mod_eq_of_lt (show n < 2 ^ 64 from small), same]

theorem spells_token : Spells Read.token fun t bytes => bytes = littleEndian 4 t.value.toNat :=
  spells_word32.map fun _ _ same => same

end Reads

theorem Opcode.eq_of_ofCode? {extended : Bool} {code : UInt8} {op : Opcode}
    (h : Opcode.ofCode? extended code = some op) : op.isExtended = extended ∧ op.code = code := by
  simpa using List.find?_some h

theorem spells_opcode : Spells Opcode.decode fun op bytes => bytes = op.bytes := by
  unfold Opcode.decode
  refine spells_byte.bind fun first u spelled => ?_
  subst spelled
  split
  case isTrue marked =>
    refine spells_byte.bind fun second v spelled => ?_
    subst spelled
    split
    case h_1 op known =>
      obtain ⟨extended, code⟩ := Opcode.eq_of_ofCode? known
      exact spells_pure (by rw [Opcode.bytes, if_pos extended, code, ← marked]; rfl)
    case h_2 => exact spells_throw _
  case isFalse =>
    split
    case h_1 op known =>
      obtain ⟨plain, code⟩ := Opcode.eq_of_ofCode? known
      exact spells_pure (by rw [Opcode.bytes, if_neg (by simp [plain]), code]; rfl)
    case h_2 => exact spells_throw _

/-- The bytes of an operand of an operation at an offset. -/
def Operand.Spelled (offset : Nat) (op : Opcode) (operand : Operand) (bytes : List UInt8) : Prop :=
  match operand with
  | .target goal => op.isBranch = true ∧ ∀ label,
      Encoder.displacementBytes ⟨label, offset + op.size, op.operandKind.size⟩
        ((goal : Int) - (offset + op.size + op.operandKind.size : Nat)) = .ok bytes
  | operand => op.isBranch = false ∧
      Emit.operandBytes op (if operand = .none then .none else some operand) = .ok bytes

theorem Operand.Spelled.unique {offset : Nat} {op : Opcode} {operand : Operand}
    {bytes bytes' : List UInt8} (h : operand.Spelled offset op bytes)
    (h' : operand.Spelled offset op bytes') : bytes = bytes' := by
  cases operand with
  | target goal => exact Except.ok.inj ((h.2 "").symm.trans (h'.2 ""))
  | _ => exact Except.ok.inj (h.2.symm.trans h'.2)

theorem Operand.Spelled.length_eq {offset : Nat} {op : Opcode} {operand : Operand}
    {bytes : List UInt8} (h : operand.Spelled offset op bytes) :
    bytes.length = op.operandKind.size := by
  cases operand with
  | target goal => exact length_displacementBytes h.1 (h.2 "")
  | _ => exact length_operandBytes h.2

/-- The kinds of operand that follow an operation. -/
def Operand.IsFor (op : Opcode) (operand : Operand) : Prop :=
  match op.operandKind, operand with
  | .none, .none | .int8, .int8 _ | .int32, .int32 _ | .int64, .int64 _ | .float64, .float64 _
  | .token, .token _ | .shortTarget, .target _ | .target, .target _ => True
  | .index8, operand | .index16, operand => ∃ index, operand = .ofIndex op index
  | _, _ => False

/-- An operand that is read for an operation is one that follows it. -/
theorem Operand.Spelled.isFor {offset : Nat} {op : Opcode} {operand : Operand} {bytes : List UInt8}
    (h : operand.Spelled offset op bytes) (read : Operand.asRead op (some operand) = operand) :
    operand.IsFor op := by
  unfold Operand.IsFor
  cases operand with
  | target goal =>
    have branches : op.operandKind.isTarget = true := h.1
    generalize op.operandKind = kind at branches ⊢
    cases kind <;> trivial
  | argument index | localVar index =>
    have written := operandBytes_eq_ok_iff.mp h.2
    rw [if_neg (fun same => nomatch same)] at written
    generalize op.operandKind = kind at written ⊢
    cases written <;> exact ⟨index, read.symm⟩
  | _ =>
    have written := operandBytes_eq_ok_iff.mp h.2
    generalize op.operandKind = kind at written ⊢
    split at written <;> cases written <;> trivial

/-- The operand of a branch is its target. -/
theorem Operand.IsFor.exists_target {op : Opcode} {operand : Operand} (h : operand.IsFor op)
    (branches : op.isBranch = true) : ∃ target, operand = .target target := by
  unfold Operand.IsFor at h
  rcases Opcode.isBranch_iff.mp branches with kind | kind <;>
  · rw [kind] at h
    cases operand <;> first | exact ⟨_, rfl⟩ | cases h

/-- The displacement that is read from one byte is written as this byte. -/
private theorem displacementBytes_byte (b : UInt8) (label : String) (position : Nat) :
    Encoder.displacementBytes ⟨label, position, 1⟩ b.toInt8.toInt = .ok [b] := by
  have small := b.toNat_lt
  have value : b.toInt8.toInt = (b.toNat : Int).bmod 0x100 :=
    BitVec.toInt_eq_toNat_bmod b.toBitVec
  have residue : b.toInt8.toInt % 0x100 = b.toNat % 0x100 := value ▸ Int.bmod_emod
  have lower := Int8.le_toInt b.toInt8
  have upper := Int8.toInt_lt b.toInt8
  unfold Encoder.displacementBytes
  rw [if_pos rfl, if_pos ⟨lower, upper⟩, show (b.toInt8.toInt % 0x100).toNat = b.toNat by omega]
  show Except.ok [UInt8.ofNat b.toNat] = .ok [b]
  rw [UInt8.ofNat_toNat]

/-- The displacement that is read from four bytes is written as these bytes. -/
private theorem displacementBytes_word (w : UInt32) (label : String) (position : Nat) :
    Encoder.displacementBytes ⟨label, position, 4⟩ w.toInt32.toInt =
      .ok (littleEndian 4 w.toNat) := by
  have small := w.toNat_lt
  have value : w.toInt32.toInt = (w.toNat : Int).bmod 0x100000000 :=
    BitVec.toInt_eq_toNat_bmod w.toBitVec
  have residue : w.toInt32.toInt % 0x100000000 = w.toNat % 0x100000000 := value ▸ Int.bmod_emod
  have lower := Int32.le_toInt w.toInt32
  have upper := Int32.toInt_lt w.toInt32
  unfold Encoder.displacementBytes
  rw [if_neg (show ¬ 4 = 1 by decide), if_pos ⟨lower, upper⟩,
    show (w.toInt32.toInt % 0x100000000).toNat = w.toNat by omega]
  rfl

/-- A branch goes by its displacement from where the next instruction is. -/
private theorem sub_of_destination {offset next goal : Nat} {displacement : Int}
    (h : destination offset next displacement = .ok goal) :
    (goal : Int) - next = displacement := by
  unfold destination at h
  dsimp only at h
  split at h
  case isTrue inside =>
    cases h
    omega
  case isFalse => cases h

theorem spells_operand (offset : Nat) (op : Opcode) :
    Spells (Operand.decode offset op) fun operand bytes => operand.Spelled offset op bytes := by
  have straight {kind : OperandKind} (h : op.operandKind = kind) (other : kind.isTarget = false) :
      op.isBranch = false := by rw [Opcode.isBranch, h, other]
  have branches {kind : OperandKind} (h : op.operandKind = kind) (target : kind.isTarget = true) :
      op.isBranch = true := by rw [Opcode.isBranch, h, target]
  have goes {displacement : Int} : Spells
      (liftM (destination offset (offset + op.size + op.operandKind.size) displacement) : Read Nat)
      fun goal bytes => bytes = [] ∧
        (goal : Int) - (offset + op.size + op.operandKind.size : Nat) = displacement :=
    spells_liftM fun goal known => ⟨rfl, sub_of_destination known⟩
  -- One case for each kind of operand: what it is read from is what is written for it.
  unfold Operand.decode
  dsimp only
  split
  case h_1 kind =>
    refine spells_pure ⟨straight kind rfl, operandBytes_eq_ok_iff.mpr ?_⟩
    rw [if_pos rfl, kind]
    exact .none
  case h_2 kind =>
    refine spells_byte.map fun b bytes same => ⟨straight kind rfl, operandBytes_eq_ok_iff.mpr ?_⟩
    have written := Operand.Written.int8 b.toInt8
    rw [UInt8.toUInt8_toInt8] at written
    rwa [if_neg Operand.noConfusion, kind, same]
  case h_3 kind =>
    refine spells_byte.map fun b bytes same => ?_
    have small : b.toUInt16.toNat < 0x100 := by
      rw [UInt8.toNat_toUInt16]
      exact b.toNat_lt
    have back : bytes = [b.toUInt16.toUInt8] := by rw [UInt8.toUInt8_toUInt16, same]
    split
    all_goals
      refine ⟨straight kind rfl, operandBytes_eq_ok_iff.mpr ?_⟩
      rw [if_neg Operand.noConfusion, kind, back]
      constructor
      exact small
  case h_4 kind =>
    refine spells_word16.map fun n bytes same => ?_
    split
    all_goals
      refine ⟨straight kind rfl, operandBytes_eq_ok_iff.mpr ?_⟩
      rw [if_neg Operand.noConfusion, kind, same]
      constructor
  case h_5 kind =>
    refine spells_word32.map fun n bytes same => ⟨straight kind rfl, operandBytes_eq_ok_iff.mpr ?_⟩
    have written := Operand.Written.int32 n.toInt32
    rw [UInt32.toUInt32_toInt32] at written
    rwa [if_neg Operand.noConfusion, kind, same]
  case h_6 kind =>
    refine spells_word64.map fun n bytes same => ⟨straight kind rfl, operandBytes_eq_ok_iff.mpr ?_⟩
    have written := Operand.Written.int64 n.toInt64
    rw [UInt64.toUInt64_toInt64] at written
    rwa [if_neg Operand.noConfusion, kind, same]
  case h_7 kind =>
    refine spells_word64.map fun n bytes same => ⟨straight kind rfl, operandBytes_eq_ok_iff.mpr ?_⟩
    rw [if_neg Operand.noConfusion, kind, same]
    exact .float64 n
  case h_8 kind =>
    refine spells_token.map fun t bytes same => ⟨straight kind rfl, operandBytes_eq_ok_iff.mpr ?_⟩
    rw [if_neg Operand.noConfusion, kind, same]
    exact .token t
  case h_9 kind =>
    refine spells_byte.bind fun b u spelled => goes.map fun goal v ⟨empty, reach⟩ => ?_
    refine ⟨branches kind rfl, fun label => ?_⟩
    rw [reach, empty, spelled, kind]
    exact displacementBytes_byte b label _
  case h_10 kind =>
    refine spells_word32.bind fun w u spelled => goes.map fun goal v ⟨empty, reach⟩ => ?_
    refine ⟨branches kind rfl, fun label => ?_⟩
    rw [reach, empty, spelled, kind, List.append_nil]
    exact displacementBytes_word w label _

/-- The bytes are those of instructions that lie one behind the other from an offset on. -/
inductive SpelledFrom : Nat → List Instruction → List UInt8 → Prop
  | nil (offset : Nat) : SpelledFrom offset [] []
  | cons {offset : Nat} {i : Instruction} {rest : List Instruction}
      {operandBytes code : List UInt8} :
      i.offset = offset → offset < 0x100000000 → i.operand.Spelled offset i.op operandBytes →
      SpelledFrom (offset + i.size) rest code →
      SpelledFrom offset (i :: rest) (i.op.bytes ++ operandBytes ++ code)

/-- An instruction is read from its bytes. -/
theorem decode_spelled {c c' : Cursor} {all : List UInt8} {i : Instruction} (faces : c.Faces all)
    (h : Yields Instruction.decode c i c') : i.offset = c.position ∧ c.position < 0x100000000 ∧
      ∃ operandBytes tail, i.op.bytes ++ operandBytes ++ tail = all ∧
        i.operand.Spelled c.position i.op operandBytes ∧
        c' = c.skip (i.op.bytes ++ operandBytes).length := by
  unfold Instruction.decode at h
  obtain ⟨offset, c₁, here, h⟩ := yields_bind.mp h
  obtain ⟨rfl, rfl⟩ := yields_position.mp here
  obtain ⟨inside, h⟩ := yields_guard.mp h
  obtain ⟨op, c₁, first, h⟩ := yields_bind.mp h
  obtain ⟨operand, c₂, second, h⟩ := yields_bind.mp h
  obtain ⟨rfl, rfl⟩ := yields_pure.mp h
  obtain ⟨u, tail, rfl, rfl, rfl⟩ := spells_opcode faces first
  obtain ⟨v, rest, rfl, rfl, spelled⟩ := spells_operand _ _ faces.skip second
  refine ⟨rfl, Nat.lt_of_not_le inside, v, rest, List.append_assoc .., spelled, ?_⟩
  rw [List.length_append, Cursor.skip_skip]

theorem spelledFrom_of_decodeInstructions {fuel : Nat} {c c' : Cursor} {all : List UInt8}
    {instructions : List Instruction} (faces : c.Faces all) (enough : all.length ≤ fuel)
    (h : Yields (decodeInstructions fuel) c instructions c') :
    SpelledFrom c.position instructions all := by
  -- Each instruction that is read uses up a byte, so there is fuel as long as there are bytes.
  induction fuel generalizing c c' all instructions with
  | zero =>
    obtain ⟨rfl, -⟩ := yields_pure.mp h
    rw [List.eq_nil_of_length_eq_zero (Nat.le_zero.mp enough)]
    exact .nil _
  | succ fuel ih =>
    unfold decodeInstructions at h
    obtain ⟨more, c₁, here, h⟩ := yields_bind.mp h
    obtain ⟨end?, rfl⟩ := yields_hasMore.mp here
    rw [faces.hasMore] at end?
    split at h
    case isFalse none =>
      obtain ⟨rfl, -⟩ := yields_pure.mp h
      cases all with
      | nil => exact .nil _
      | cons byte rest => simp_all
    case isTrue =>
      obtain ⟨first, c₁, one, h⟩ := yields_bind.mp h
      obtain ⟨rest, c₂, others, h⟩ := yields_bind.mp h
      obtain ⟨rfl, -⟩ := yields_pure.mp h
      obtain ⟨placed, inside, operandBytes, tail, rfl, spelled, rfl⟩ := decode_spelled faces one
      have positive := first.op.size_pos
      simp only [List.length_append, Opcode.length_bytes, spelled.length_eq] at enough
      have later := ih faces.skip (by omega) others
      rw [Cursor.skip_position, List.length_append, Opcode.length_bytes, spelled.length_eq] at later
      exact .cons placed inside spelled later

/-- Code that is accepted is made of the bytes of its instructions. -/
theorem spelledFrom_of_decodeCode {code : List UInt8} {instructions : List Instruction}
    (h : decodeCode code = .ok instructions) : SpelledFrom 0 instructions code := by
  obtain ⟨run, -⟩ := decodeCode_eq_ok_iff.mp h
  exact spelledFrom_of_decodeInstructions (Cursor.faces_ofBytes code) (Nat.le_refl _)
    (Prod.ext run rfl)

namespace SpelledFrom

variable {offset : Nat} {instructions : List Instruction} {code code' : List UInt8}

/-- Instructions lie in one code only. -/
theorem unique (h : SpelledFrom offset instructions code)
    (h' : SpelledFrom offset instructions code') : code = code' := by
  induction h generalizing code' with
  | nil =>
    cases h'
    rfl
  | cons _ _ spelled _ ih =>
    cases h' with
    | cons _ _ spelled' later => rw [spelled.unique spelled', ih later]

theorem offset_lt (h : SpelledFrom offset instructions code) :
    ∀ i ∈ instructions, i.offset < 0x100000000 := by
  induction h with
  | nil => simp
  | cons placed inside _ _ ih => exact List.forall_mem_cons.mpr ⟨placed ▸ inside, ih⟩

end SpelledFrom

end Interpose
