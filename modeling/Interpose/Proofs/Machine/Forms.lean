import Interpose.Machine.Step
import Interpose.Proofs.Code.Spelling

/-!
# Short and long forms

Arguments, local variables and constants are named by an operation itself if they are among the first
ones, by one byte if that is enough, and in full width otherwise.  The form that is written does what
the long one does, and no instruction that names the same takes fewer bytes.

## Main definitions

* `Transfer` — what is put on the stack or taken from it by an instruction that has several forms
* `Transfer.NamedBy` — an instruction names the variable or the constant
* `Transfer.long` — the form in full width
* `Transfer.width` — the number of bytes that are needed

## Main results

* `Transfer.isForm_indexForm`, `constantForm_cases` — the forms, with the values for which they are
  used
* `Transfer.step_item` — all forms do the same
* `Transfer.width_le_size` — an instruction that names the same is not shorter
* `Transfer.emits_shortest` — what is written is read back, does what the long form does and is
  shortest
-/

namespace Interpose

/-- What an instruction that has several forms puts on the stack or takes from it. -/
inductive Transfer where
  | loadArgument (index : UInt16)
  | loadLocal (index : UInt16)
  | storeLocal (index : UInt16)
  | loadConstant (value : Int32)
deriving DecidableEq, Repr

/-- The number of bytes that are needed to name a variable. -/
def indexWidth (index : UInt16) : Nat :=
  if index.toNat < 4 then 1 else if index.toNat < 256 then 2 else 4

/-- The number of bytes that are needed to name a constant. -/
def constantWidth (value : Int32) : Nat :=
  if -1 ≤ value.toInt ∧ value.toInt ≤ 8 then 1
  else if -128 ≤ value.toInt ∧ value.toInt ≤ 127 then 2
  else 5

namespace Transfer

/-- Writes an instruction. -/
def emit : Transfer → Emit Unit
  | loadArgument index => Emit.ldarg index
  | loadLocal index => Emit.ldloc index
  | storeLocal index => Emit.stloc index
  | loadConstant value => Emit.constant value

/-- The item of a listing that stands for the instruction. -/
def item : Transfer → ListingItem
  | loadArgument index => .ldarg index
  | loadLocal index => .ldloc index
  | storeLocal index => .stloc index
  | loadConstant value => .int32 value

/-- The form that is written. -/
def form : Transfer → Opcode × Option Operand
  | loadArgument index =>
    indexForm [.ldarg0, .ldarg1, .ldarg2, .ldarg3] .ldargS .ldarg .argument index
  | loadLocal index =>
    indexForm [.ldloc0, .ldloc1, .ldloc2, .ldloc3] .ldlocS .ldloc .localVar index
  | storeLocal index =>
    indexForm [.stloc0, .stloc1, .stloc2, .stloc3] .stlocS .stloc .localVar index
  | loadConstant value => constantForm value

/-- The form in full width, placed at an offset. -/
def long (offset : Nat) : Transfer → Instruction
  | loadArgument index => ⟨offset, .ldarg, .argument index⟩
  | loadLocal index => ⟨offset, .ldloc, .localVar index⟩
  | storeLocal index => ⟨offset, .stloc, .localVar index⟩
  | loadConstant value => ⟨offset, .ldcI4, .int32 value⟩

/-- An instruction names the variable or the constant. -/
def NamedBy (i : Instruction) : Transfer → Prop
  | loadArgument index => i.argument? = some index
  | loadLocal index | storeLocal index => i.localVar? = some index
  | loadConstant value => i.constant? = some value

/-- The number of bytes that are needed. -/
def width : Transfer → Nat
  | loadArgument index | loadLocal index | storeLocal index => indexWidth index
  | loadConstant value => constantWidth value

/-- A form that can be written in just the bytes that are needed, names the same as the long form when
it is read, and does the same. -/
structure IsForm (t : Transfer) (form : Opcode × Option Operand) : Prop where
  noBranch : form.1.isBranch = false
  written : ∃ bytes, Emit.operandBytes form.1 form.2 = .ok bytes
  size : form.1.size + form.1.operandKind.size = t.width
  named : ∀ offset, t.NamedBy ⟨offset, form.1, Operand.asRead form.1 form.2⟩
  step : ∀ offset (m : Machine) execute,
    m.step execute ⟨offset, form.1, Operand.asRead form.1 form.2⟩ = m.step execute (t.long offset)

end Transfer

section Forms

variable {index : UInt16} {value : Int32}

/-- A small integer survives being written in one byte. -/
theorem toInt32_toInt8 (lower : -128 ≤ value) (upper : value ≤ 127) :
    value.toInt8.toInt32 = value := by
  rw [Int32.le_iff_toInt_le] at lower upper
  apply Int32.toInt_inj.mp
  rw [Int8.toInt_toInt32, Int32.toInt_toInt8]
  refine Int.bmod_eq_of_le ?_ ?_
  · simpa using lower
  · exact Int.lt_of_le_of_lt upper (by decide)

theorem indexWidth_narrow (large : 4 ≤ index.toNat) (small : index.toNat < 256) :
    indexWidth index = 2 := by
  rw [indexWidth, if_neg (Nat.not_lt.mpr large), if_pos small]

theorem indexWidth_wide (large : 256 ≤ index.toNat) : indexWidth index = 4 := by
  rw [indexWidth, if_neg (by omega), if_neg (Nat.not_lt.mpr large)]

theorem constantWidth_narrow (unnamed : ¬ (-1 ≤ value.toInt ∧ value.toInt ≤ 8))
    (small : -128 ≤ value.toInt ∧ value.toInt ≤ 127) : constantWidth value = 2 := by
  rw [constantWidth, if_neg unnamed, if_pos small]

theorem constantWidth_wide (large : ¬ (-128 ≤ value.toInt ∧ value.toInt ≤ 127)) :
    constantWidth value = 5 := by
  rw [constantWidth, if_neg (by omega), if_neg large]

/-- The forms of an operation that loads a constant, with the constants for which they are used. -/
theorem constantForm_cases {P : Opcode × Option Operand → Prop}
    (implied : ∀ op ∈ impliedConstants, op.impliedConstant? = some value → P (op, none))
    (narrow : ¬ (-1 ≤ value.toInt ∧ value.toInt ≤ 8) → -128 ≤ value → value ≤ 127 →
      P (.ldcI4S, some (.int8 value.toInt8)))
    (wide : ¬ (-128 ≤ value.toInt ∧ value.toInt ≤ 127) → P (.ldcI4, some (.int32 value))) :
    P (constantForm value) := by
  unfold constantForm
  split
  case h_1 op found =>
    have names := List.find?_some found
    exact implied op (List.mem_of_find?_eq_some found) (of_decide_eq_true names)
  case h_2 unnamed =>
    have others : ¬ (-1 ≤ value.toInt ∧ value.toInt ≤ 8) := by
      simp only [impliedConstants, List.find?_eq_none, List.forall_mem_cons,
        Opcode.impliedConstant?, Option.some.injEq, decide_eq_true_eq, ← Int32.toInt_inj,
        Int32.reduceToInt] at unnamed
      omega
    by_cases small : -128 ≤ value ∧ value ≤ 127
    · rw [if_pos small]
      exact narrow others small.1 small.2
    · rw [if_neg small]
      refine wide ?_
      rwa [Int32.le_iff_toInt_le, Int32.le_iff_toInt_le] at small

end Forms

namespace Transfer

/-- An operation on a numbered variable has a form for each of the first four numbers, one for numbers
of one byte and one for all others. -/
theorem isForm_indexForm {t : UInt16 → Transfer} {a b c d short long : Opcode}
    {operand : UInt16 → Operand} (first : (t 0).IsForm (a, none)) (second : (t 1).IsForm (b, none))
    (third : (t 2).IsForm (c, none)) (fourth : (t 3).IsForm (d, none))
    (narrow : ∀ index : UInt16, 4 ≤ index.toNat → index.toNat < 256 →
      (t index).IsForm (short, some (operand index)))
    (wide : ∀ index : UInt16, 256 ≤ index.toNat → (t index).IsForm (long, some (operand index)))
    (index : UInt16) : (t index).IsForm (indexForm [a, b, c, d] short long operand index) := by
  have cases : index = 0 ∨ index = 1 ∨ index = 2 ∨ index = 3 ∨ 4 ≤ index.toNat := by
    simp only [← UInt16.toNat_inj, UInt16.toNat_ofNat]
    omega
  obtain rfl | rfl | rfl | rfl | large := cases
  · exact first
  · exact second
  · exact third
  · exact fourth
  · have below : index < 256 ↔ index.toNat < 256 := UInt16.lt_iff_toNat_lt
    rw [indexForm, List.getElem?_eq_none large]
    by_cases small : index.toNat < 256
    · simp only [below, if_pos small]
      exact narrow index large small
    · simp only [below, if_neg small]
      exact wide index (Nat.not_lt.mp small)

/-- The form that is written is one. -/
theorem isForm (t : Transfer) : t.IsForm t.form := by
  -- What a form is read as and what it does is computed for each form; only the width depends on the
  -- range of the number.
  cases t with
  | loadArgument index | loadLocal index | storeLocal index =>
    refine isForm_indexForm ?_ ?_ ?_ ?_ (fun index large small => ?_) (fun index large => ?_) index
    case refine_5 =>
      exact ⟨rfl, ⟨_, if_pos small⟩, (indexWidth_narrow large small).symm, fun _ => rfl,
        fun _ _ _ => rfl⟩
    case refine_6 =>
      exact ⟨rfl, ⟨_, rfl⟩, (indexWidth_wide large).symm, fun _ => rfl, fun _ _ _ => rfl⟩
    all_goals exact ⟨rfl, ⟨_, rfl⟩, rfl, fun _ => rfl, fun _ _ _ => rfl⟩
  | loadConstant value =>
    refine constantForm_cases (fun op member names => ?_) (fun unnamed lower upper => ?_)
      fun large => ?_
    case refine_1 =>
      simp only [impliedConstants, List.mem_cons, List.not_mem_nil, or_false] at member
      rcases member with rfl | rfl | rfl | rfl | rfl | rfl | rfl | rfl | rfl | rfl
      all_goals
        cases names
        exact ⟨rfl, ⟨_, rfl⟩, rfl, fun _ => rfl, fun _ _ _ => rfl⟩
    case refine_2 =>
      have same := toInt32_toInt8 lower upper
      rw [Int32.le_iff_toInt_le] at lower upper
      refine ⟨rfl, ⟨_, rfl⟩, (constantWidth_narrow unnamed ⟨lower, upper⟩).symm,
        fun _ => congrArg some same, fun _ _ _ => ?_⟩
      show Step.push (.int32 value.toInt8.toInt32) >>= (fun _ => pure Control.next) = _
      rw [same]
      rfl
    case refine_3 =>
      exact ⟨rfl, ⟨_, rfl⟩, (constantWidth_wide large).symm, fun _ => rfl, fun _ _ _ => rfl⟩

theorem emit_eq (t : Transfer) : t.emit = t.item.emit := by
  cases t <;> rfl

theorem operation?_item (t : Transfer) : t.item.operation? = some (t.form.1, t.form.2) := by
  cases t <;> rfl

/-- Wherever the item is placed, it does what the long form does. -/
theorem step_item (t : Transfer) {labels : String → Option Nat} {offset : Nat} {i : Instruction}
    (h : t.item.instruction? labels offset = some i) (m : Machine) (execute : Executor) :
    m.step execute i = m.step execute (t.long offset) := by
  rw [ListingItem.instruction?_of_operation t.operation?_item] at h
  cases h
  exact t.isForm.step offset m execute

end Transfer

section Widths

variable {op : Opcode} {operand : Operand} {index : UInt16} {bytes : List UInt8}

/-- Operations name the first four variables by themselves. -/
theorem lt_four_of_implied
    (h : op.impliedArgument? = some index ∨ op.impliedLocal? = some index) : index.toNat < 4 := by
  obtain h | h := h
  · unfold Opcode.impliedArgument? at h
    split at h <;> cases h <;> decide
  · unfold Opcode.impliedLocal? at h
    split at h <;> cases h <;> decide

/-- An index that is written as an operand fits there. -/
theorem index_fits (h : Emit.operandBytes op (some operand) = .ok bytes)
    (isIndex : operand = .argument index ∨ operand = .localVar index) :
    op.operandKind = .index8 ∧ index.toNat < 256 ∨ op.operandKind = .index16 := by
  have written := operandBytes_eq_ok_iff.mp h
  generalize op.operandKind = kind at written ⊢
  obtain rfl | rfl := isIndex
  · cases written with
    | argument8 small => exact .inl ⟨rfl, small⟩
    | argument16 => exact .inr rfl
  · cases written with
    | localVar8 small => exact .inl ⟨rfl, small⟩
    | localVar16 => exact .inr rfl

/-- Operations with an index of two bytes have codes of two bytes. -/
theorem size_of_index16 (h : op.operandKind = .index16) : op.size = 2 := by
  revert h
  cases op <;> decide

theorem indexWidth_le (index : UInt16) : indexWidth index ≤ 4 := by
  unfold indexWidth
  split
  · decide
  · split <;> decide

/-- A variable is named by the operation or by its operand. -/
theorem implied_or_operand {i : Instruction}
    (names : i.argument? = some index ∨ i.localVar? = some index) :
    (i.op.impliedArgument? = some index ∨ i.op.impliedLocal? = some index) ∨
      i.operand = .argument index ∨ i.operand = .localVar index := by
  obtain names | names := names
  · unfold Instruction.argument? at names
    split at names
    case h_1 implied => exact .inl (.inl (implied.trans names))
    case h_2 operand => exact .inr (.inl (operand.trans (congrArg _ (Option.some.inj names))))
    case h_3 => cases names
  · unfold Instruction.localVar? at names
    split at names
    case h_1 implied => exact .inl (.inr (implied.trans names))
    case h_2 operand => exact .inr (.inr (operand.trans (congrArg _ (Option.some.inj names))))
    case h_3 => cases names

/-- No instruction names a variable in fewer bytes. -/
theorem indexWidth_le_size {i : Instruction}
    (names : i.argument? = some index ∨ i.localVar? = some index)
    (spelled : i.operand.Spelled i.offset i.op bytes) : indexWidth index ≤ i.size := by
  have positive := i.op.size_pos
  unfold Instruction.size
  obtain implied | operand := implied_or_operand names
  · rw [indexWidth, if_pos (lt_four_of_implied implied)]
    omega
  · have written : Emit.operandBytes i.op (some i.operand) = .ok bytes := by
      obtain same | same := operand <;>
        · rw [same] at spelled ⊢
          exact spelled.2
    obtain ⟨kind, small⟩ | kind := index_fits written operand
    · have one : i.op.operandKind.size = 1 := congrArg OperandKind.size kind
      have width : indexWidth index ≤ 2 := by
        unfold indexWidth
        split <;> omega
      omega
    -- An index of two bytes comes behind a code of two bytes, so there is no form of three.
    · have two : i.op.operandKind.size = 2 := congrArg OperandKind.size kind
      rw [size_of_index16 kind, two]
      exact indexWidth_le index

theorem constantWidth_le (value : Int32) : constantWidth value ≤ 5 := by
  unfold constantWidth
  split
  · decide
  · split <;> decide

theorem constantWidth_of_implied {value : Int32} (h : op.impliedConstant? = some value) :
    constantWidth value = 1 := by
  unfold Opcode.impliedConstant? at h
  split at h <;> cases h <;> rfl

/-- No instruction names a constant in fewer bytes. -/
theorem constantWidth_le_size {i : Instruction} {value : Int32} (names : i.constant? = some value)
    (spelled : i.operand.Spelled i.offset i.op bytes) : constantWidth value ≤ i.size := by
  obtain ⟨offset, op, operand⟩ := i
  unfold Instruction.constant? at names
  split at names
  case h_1 implied =>
    rw [constantWidth_of_implied (implied.trans names)]
    exact Nat.le_trans op.size_pos (Nat.le_add_right _ _)
  case h_2 small _ short operand =>
    cases short
    cases names
    have lower := small.le_toInt
    have upper := small.toInt_lt
    show constantWidth small.toInt32 ≤ 2
    rw [constantWidth, Int8.toInt_toInt32]
    split
    · decide
    · rw [if_pos ⟨lower, by omega⟩]
  case h_3 short operand =>
    -- The operand of the short form has one byte.
    cases short
    cases operand
    cases spelled.2
  case h_4 long _ | h_5 long _ =>
    cases long
    exact constantWidth_le value
  case h_6 => cases names

end Widths

/-- No instruction is read outside of the code. -/
theorem Instruction.inside_of_decode {c c' : Cursor} {i : Instruction}
    (h : Yields Instruction.decode c i c') : c.position ≤ c.data.size := by
  unfold Instruction.decode at h
  obtain ⟨offset, c₁, here, h⟩ := yields_bind.mp h
  obtain ⟨-, rfl⟩ := yields_position.mp here
  obtain ⟨-, h⟩ := yields_guard.mp h
  obtain ⟨op, c₂, first, -⟩ := yields_bind.mp h
  unfold Opcode.decode at first
  obtain ⟨b, c₃, byte, -⟩ := yields_bind.mp first
  exact Nat.le_of_lt (Array.getElem?_eq_some_iff.mp (yields_byte.mp byte).1).1

namespace Transfer

/-- No instruction that names the same takes fewer bytes. -/
theorem width_le_size {t : Transfer} {i : Instruction} {bytes : List UInt8} (names : t.NamedBy i)
    (spelled : i.operand.Spelled i.offset i.op bytes) : t.width ≤ i.size := by
  cases t with
  | loadArgument index => exact indexWidth_le_size (.inl names) spelled
  | loadLocal index | storeLocal index => exact indexWidth_le_size (.inr names) spelled
  | loadConstant value => exact constantWidth_le_size names spelled

/-- An instruction that is read ends as far behind the cursor as the bytes that are needed. -/
theorem width_le_of_decode {t : Transfer} {c c' : Cursor} {i : Instruction}
    (h : Yields Instruction.decode c i c') (names : t.NamedBy i) :
    c.position + t.width ≤ c'.position := by
  have inside := Instruction.inside_of_decode h
  obtain ⟨here, -, bytes, tail, -, spelled, rfl⟩ := decode_spelled ⟨inside, rfl⟩ h
  have enough := width_le_size names (here ▸ spelled)
  rw [Cursor.skip_position, List.length_append, Opcode.length_bytes, spelled.length_eq]
  exact Nat.add_le_add_left enough _

/-- What is written for an argument, a local variable or a constant is read back, in any code, as an
instruction that names it and does what the long form does; and no instruction that names it takes
fewer bytes. -/
theorem emits_shortest (t : Transfer) (e : Encoder) :
    ∃ (op : Opcode) (operand : Operand) (bytes : List UInt8),
    Yields t.emit e () { e with code := e.code ++ bytes } ∧ bytes.length = t.width ∧
    (∀ c tail, c.position < 0x100000000 → c.Faces (bytes ++ tail) →
      Yields Instruction.decode c ⟨c.position, op, operand⟩ (c.skip bytes.length)) ∧
    (∀ offset, t.NamedBy ⟨offset, op, operand⟩ ∧ ∀ (m : Machine) execute,
      m.step execute ⟨offset, op, operand⟩ = m.step execute (t.long offset)) ∧
    ∀ c i c', Yields Instruction.decode c i c' → t.NamedBy i →
      c.position + bytes.length ≤ c'.position := by
  have isForm := t.isForm
  obtain ⟨operandBytes, written⟩ := isForm.written
  have length : (t.form.1.bytes ++ operandBytes).length = t.width := by
    rw [List.length_append, Opcode.length_bytes, length_operandBytes written, isForm.size]
  refine ⟨t.form.1, Operand.asRead t.form.1 t.form.2, t.form.1.bytes ++ operandBytes, ?_, length,
    ?_, fun offset => ⟨isForm.named offset, isForm.step offset⟩, ?_⟩
  · rw [emit_eq, ListingItem.emit_of_operation t.operation?_item]
    refine emits_instruction.mpr ⟨isForm.noBranch, operandBytes, written, ?_⟩
    have code : e.code ++ t.form.1.bytes ++ operandBytes =
        e.code ++ (t.form.1.bytes ++ operandBytes) := by
      rw [← Array.toList_inj]
      simp only [Array.toList_appendList, List.append_assoc]
    rw [code]
  · intro c tail start faces
    exact takes_instruction start (takes_operand written c.position) faces
  · -- No form that names it is shorter than the one that is chosen.
    intro c i c' read names
    exact length ▸ width_le_of_decode read names

/-- Argument 5 is named by one byte behind the code, and the form in full width is longer. -/
theorem emits_shortest_five : ∃ (op : Opcode) (operand : Operand) (bytes : List UInt8),
    Yields Instruction.decode (.ofBytes bytes) ⟨0, op, operand⟩ ((Cursor.ofBytes bytes).skip 2) ∧
    (Instruction.mk 0 op operand).argument? = some 5 ∧
    Yields Instruction.decode (.ofBytes [0xFE, 0x09, 5, 0]) ⟨0, .ldarg, .argument 5⟩
      ((Cursor.ofBytes [0xFE, 0x09, 5, 0]).skip 4) ∧ bytes.length ≤ 4 := by
  obtain ⟨op, operand, bytes, -, length, reads, means, shortest⟩ :=
    emits_shortest (.loadArgument 5) {}
  have faces : (Cursor.ofBytes bytes).Faces (bytes ++ []) := by
    rw [List.append_nil]
    exact Cursor.faces_ofBytes bytes
  have start : (Cursor.ofBytes bytes).position < 0x100000000 := Nat.succ_pos _
  have short := reads (.ofBytes bytes) [] start faces
  have long : Yields Instruction.decode (.ofBytes [0xFE, 0x09, 5, 0]) ⟨0, .ldarg, .argument 5⟩
      ((Cursor.ofBytes [0xFE, 0x09, 5, 0]).skip 4) := rfl
  have least := shortest _ _ _ long rfl
  rw [length] at short
  exact ⟨op, operand, bytes, short, (means 0).1, long, by simpa using least⟩

end Transfer

end Interpose
