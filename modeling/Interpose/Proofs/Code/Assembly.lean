import Interpose.Proofs.Code.Listing

/-!
# Assembled listings

Assembling a listing writes its items one after the other, with zeros for the displacements of
branches, and then fills the displacements in.  What results is the code of the listing.

## Main definitions

* `Laid` — what is written before the displacements are filled in

## Main results

* `encodes_of_assemble` — an assembled listing is the code of the listing
* `decodeInstructions_of_assemble` — and is decoded to its instructions
* `decodeCode_of_assemble`, `branchesLand_of_decodeCode` — it is accepted just if all branches go to
  instructions
-/

namespace Interpose

namespace ListingItem

/-- The two ways to choose the form of an operation on a numbered variable agree. -/
private theorem instruction_indexForm {implied : List Opcode} (short long : Opcode)
    (operand : UInt16 → Operand) {index : UInt16} (h : implied.length ≤ index.toNat) :
    (if index < 256 then Emit.instruction short (some (operand index))
      else Emit.instruction long (some (operand index))) =
    Emit.instruction (indexForm implied short long operand index).1
      (indexForm implied short long operand index).2 := by
  rw [indexForm, List.getElem?_eq_none h]
  by_cases small : index < 256
  · simp only [if_pos small]
  · simp only [if_neg small]

/-- The same where the first four numbers are named by operations. -/
private theorem instruction_indexForm_four (a b c d short long : Opcode)
    (operand : UInt16 → Operand) (index : UInt16) :
    (if index = 0 then Emit.instruction a
      else if index = 1 then Emit.instruction b
      else if index = 2 then Emit.instruction c
      else if index = 3 then Emit.instruction d
      else if index < 256 then Emit.instruction short (some (operand index))
      else Emit.instruction long (some (operand index))) =
    Emit.instruction (indexForm [a, b, c, d] short long operand index).1
      (indexForm [a, b, c, d] short long operand index).2 := by
  by_cases h0 : index = 0
  · subst h0
    rfl
  by_cases h1 : index = 1
  · subst h1
    rfl
  by_cases h2 : index = 2
  · subst h2
    rfl
  by_cases h3 : index = 3
  · subst h3
    rfl
  rw [if_neg h0, if_neg h1, if_neg h2, if_neg h3]
  refine instruction_indexForm short long operand ?_
  simp only [← UInt16.toNat_inj] at h0 h1 h2 h3
  simp only [List.length_cons, List.length_nil]
  simp at h0 h1 h2 h3
  omega

/-- The form of a constant that no operation names. -/
private theorem constantForm_of_unnamed {value : Int32}
    (h : ∀ op ∈ impliedConstants, op.impliedConstant? ≠ some value) :
    constantForm value =
      if -128 ≤ value ∧ value ≤ 127 then (.ldcI4S, some (.int8 value.toInt8))
      else (.ldcI4, some (.int32 value)) := by
  have unnamed : impliedConstants.find? (·.impliedConstant? = some value) = none :=
    List.find?_eq_none.mpr fun op member => by simpa using h op member
  rw [constantForm, unnamed]

private theorem instruction_constantForm (value : Int32) :
    Emit.constant value = Emit.instruction (constantForm value).1 (constantForm value).2 := by
  by_cases named : ∃ op ∈ impliedConstants, op.impliedConstant? = some value
  · obtain ⟨op, member, names⟩ := named
    simp only [impliedConstants, List.mem_cons, List.not_mem_nil, or_false] at member
    rcases member with rfl | rfl | rfl | rfl | rfl | rfl | rfl | rfl | rfl | rfl
    all_goals
      cases names
      rfl
  · simp only [not_exists, not_and] at named
    rw [constantForm_of_unnamed named]
    simp only [impliedConstants, List.forall_mem_cons, Opcode.impliedConstant?,
      Option.some.injEq] at named
    obtain ⟨h₀, h₁, h₂, h₃, h₄, h₅, h₆, h₇, h₈, h₉, -⟩ := named
    rw [Emit.constant, if_neg (Ne.symm h₀), if_neg (Ne.symm h₁), if_neg (Ne.symm h₂),
      if_neg (Ne.symm h₃), if_neg (Ne.symm h₄), if_neg (Ne.symm h₅), if_neg (Ne.symm h₆),
      if_neg (Ne.symm h₇), if_neg (Ne.symm h₈), if_neg (Ne.symm h₉)]
    by_cases small : -128 ≤ value ∧ value ≤ 127
    · simp only [if_pos small]
    · simp only [if_neg small]

/-- An item that neither is a label nor branches to one is written as an instruction. -/
theorem emit_of_operation {item : ListingItem} {op : Opcode} {operand : Option Operand}
    (h : item.operation? = some (op, operand)) : item.emit = Emit.instruction op operand := by
  cases item with
  | label name => cases h
  | branch op name => cases h
  | ldarg index =>
    have written := instruction_indexForm_four .ldarg0 .ldarg1 .ldarg2 .ldarg3 .ldargS .ldarg
      .argument index
    rw [Option.some.inj h] at written
    exact written
  | starg index =>
    have none : ([] : List Opcode).length ≤ index.toNat := Nat.zero_le _
    have written := instruction_indexForm .stargS .starg .argument none
    rw [Option.some.inj h] at written
    exact written
  | ldloc index =>
    have written := instruction_indexForm_four .ldloc0 .ldloc1 .ldloc2 .ldloc3 .ldlocS .ldloc
      .localVar index
    rw [Option.some.inj h] at written
    exact written
  | stloc index =>
    have written := instruction_indexForm_four .stloc0 .stloc1 .stloc2 .stloc3 .stlocS .stloc
      .localVar index
    rw [Option.some.inj h] at written
    exact written
  | int32 value =>
    have written := instruction_constantForm value
    rw [Option.some.inj h] at written
    exact written
  | plain _ | withToken _ _ | int64 _ | float64 _ | decoded _ =>
    cases h
    rfl

/-- Items other than labels and branches have an operation. -/
theorem operation_cases (item : ListingItem) :
    (∃ name, item = label name) ∨ (∃ op name, item = branch op name) ∨
      ∃ op operand, item.operation? = some (op, operand) := by
  cases item with
  | label name => exact .inl ⟨name, rfl⟩
  | branch op name => exact .inr (.inl ⟨op, name, rfl⟩)
  | _ => exact .inr (.inr ⟨_, _, rfl⟩)

end ListingItem

/-- Behind a sequence of bytes follow those that are added. -/
private theorem size_append_bytes (code : Array UInt8) (bytes : List UInt8) :
    (code ++ bytes).size = code.size + bytes.length := by
  rw [← Array.length_toList, Array.toList_appendList, List.length_append, Array.length_toList]

section Emission

variable {e e' : Encoder} {u : Unit}

/-- What an instruction writes. -/
theorem emits_instruction {op : Opcode} {operand : Option Operand} :
    Yields (Emit.instruction op operand) e u e' ↔ op.isBranch = false ∧
      ∃ bytes, Emit.operandBytes op operand = .ok bytes ∧
        { e with code := e.code ++ op.bytes ++ bytes } = e' := by
  unfold Emit.instruction Emit.bytes
  simp only [yields_guard, yields_modify_bind, yields_liftM_bind, yields_modify,
    Bool.not_eq_true]

/-- What a branch writes. -/
theorem emits_branch {op : Opcode} {name : String} :
    Yields (Emit.branch op name) e u e' ↔ op.isBranch = true ∧
      { e with
        code := e.code ++ op.bytes ++ List.replicate op.operandKind.size (0 : UInt8)
        fixups := e.fixups.push ⟨name, e.code.size + op.size, op.operandKind.size⟩ } = e' := by
  unfold Emit.branch Emit.bytes
  simp only [yields_guard, yields_modify_bind, yields_modify, Opcode.isBranch_flow,
    Bool.not_eq_true', Bool.not_eq_false, size_append_bytes, Opcode.length_bytes]
  refine and_congr_right fun branches => ?_
  rw [Opcode.displacement_width branches]

private theorem emits_position {offset : Nat} :
    Yields Emit.position e offset e' ↔ e.code.size < 0x100000000 ∧ e.code.size = offset ∧ e = e' := by
  unfold Emit.position
  simp only [yields_get_bind, yields_guard, yields_pure, Nat.not_le]

/-- What a label adds. -/
theorem emits_label {name : String} :
    Yields (Emit.label name) e u e' ↔ e.labels.lookup name = none ∧ e.code.size < 0x100000000 ∧
      { e with labels := (name, e.code.size) :: e.labels } = e' := by
  unfold Emit.label
  simp only [yields_get_bind, yields_guard, Bool.not_eq_true, Option.isSome_eq_false_iff,
    Option.isNone_iff_eq_none]
  refine and_congr_right fun _ => ?_
  rw [yields_bind]
  simp only [emits_position, yields_modify]
  constructor
  · rintro ⟨_, _, ⟨small, rfl, rfl⟩, rfl⟩
    exact ⟨small, rfl⟩
  · rintro ⟨small, rfl⟩
    exact ⟨_, e, ⟨small, rfl, rfl⟩, rfl⟩

end Emission

/-- Writing a listing is writing its first item and then the others. -/
theorem emits_cons {item : ListingItem} {rest : List ListingItem} {e e' : Encoder} {u : PUnit} :
    Yields ((item :: rest).forM ListingItem.emit) e u e' ↔
      ∃ e₁, Yields item.emit e () e₁ ∧ Yields (rest.forM ListingItem.emit) e₁ () e' := by
  rw [List.forM, yields_bind]
  constructor
  · rintro ⟨_, e₁, first, others⟩
    exact ⟨e₁, first, others⟩
  · rintro ⟨e₁, first, others⟩
    exact ⟨(), e₁, first, others⟩

/-- What a listing is before its displacements are filled in: its bytes, with zeros for the
displacements, and the places where these are to be filled in. -/
inductive Laid (labels : String → Option Nat) :
    Nat → List ListingItem → List UInt8 → List Fixup → Prop
  | nil (offset : Nat) : Laid labels offset [] [] []
  | label {offset : Nat} {name : String} {rest : List ListingItem} {bytes : List UInt8}
      {fixups : List Fixup} :
      labels name = some offset → offset < 0x100000000 → Laid labels offset rest bytes fixups →
      Laid labels offset (.label name :: rest) bytes fixups
  | branch {offset : Nat} {op : Opcode} {name : String} {rest : List ListingItem}
      {bytes : List UInt8} {fixups : List Fixup} :
      op.isBranch = true →
      Laid labels (offset + (op.size + op.operandKind.size)) rest bytes fixups →
      Laid labels offset (.branch op name :: rest)
        (op.bytes ++ List.replicate op.operandKind.size 0 ++ bytes)
        (⟨name, offset + op.size, op.operandKind.size⟩ :: fixups)
  | operation {offset : Nat} {item : ListingItem} {op : Opcode} {operand : Option Operand}
      {rest : List ListingItem} {operandBytes bytes : List UInt8} {fixups : List Fixup} :
      item.operation? = some (op, operand) → Emit.operandBytes op operand = .ok operandBytes →
      Laid labels (offset + (op.size + op.operandKind.size)) rest bytes fixups →
      Laid labels offset (item :: rest) (op.bytes ++ operandBytes ++ bytes) fixups

theorem Laid.length_eq {labels : String → Option Nat} {offset : Nat} {items : List ListingItem}
    {bytes : List UInt8} {fixups : List Fixup} (h : Laid labels offset items bytes fixups) :
    bytes.length = listingSize items := by
  induction h with
  | nil => rfl
  | label _ _ _ ih => simpa using ih
  | branch _ _ ih =>
    simp only [List.length_append, Opcode.length_bytes, List.length_replicate, ih, listingSize_cons,
      ListingItem.size_branch]
  | operation known written _ ih =>
    simp only [List.length_append, Opcode.length_bytes, length_operandBytes written, ih,
      listingSize_cons, ListingItem.size_of_operation known]

/-- What is looked up in a list is in the list. -/
theorem mem_of_lookup_eq_some {labels : List (String × Nat)} {name : String} {offset : Nat}
    (h : labels.lookup name = some offset) : (name, offset) ∈ labels := by
  obtain ⟨before, after, rfl, -⟩ := List.lookup_eq_some_iff.mp h
  simp

section Laying

variable {e e' E : Encoder} {items : List ListingItem}

/-- Labels that are placed stay where they are. -/
theorem lookup_of_emits (h : Yields (items.forM ListingItem.emit) e () e') {name : String}
    {offset : Nat} (known : e.labels.lookup name = some offset) :
    e'.labels.lookup name = some offset := by
  induction items generalizing e with
  | nil =>
    obtain ⟨-, rfl⟩ := yields_pure.mp h
    exact known
  | cons item rest ih =>
    obtain ⟨e₁, first, others⟩ := emits_cons.mp h
    refine ih others ?_
    rcases item.operation_cases with ⟨other, rfl⟩ | ⟨op, other, rfl⟩ | ⟨op, operand, operation⟩
    · obtain ⟨new, -, rfl⟩ := emits_label.mp first
      have differs : (name == other) = false := by
        rw [beq_eq_false_iff_ne]
        rintro rfl
        rw [known] at new
        cases new
      rw [List.lookup_cons, differs]
      exact known
    · obtain ⟨-, rfl⟩ := emits_branch.mp first
      exact known
    · rw [ListingItem.emit_of_operation operation] at first
      obtain ⟨-, _, -, rfl⟩ := emits_instruction.mp first
      exact known

/-- Labels are placed within the reach of a decoder. -/
theorem label_lt_of_emits (h : Yields (items.forM ListingItem.emit) e () e')
    (small : ∀ entry ∈ e.labels, entry.2 < 0x100000000) : ∀ entry ∈ e'.labels, entry.2 < 0x100000000 := by
  induction items generalizing e with
  | nil =>
    obtain ⟨-, rfl⟩ := yields_pure.mp h
    exact small
  | cons item rest ih =>
    obtain ⟨e₁, first, others⟩ := emits_cons.mp h
    refine ih others ?_
    rcases item.operation_cases with ⟨other, rfl⟩ | ⟨op, other, rfl⟩ | ⟨op, operand, operation⟩
    · obtain ⟨-, reach, rfl⟩ := emits_label.mp first
      exact List.forall_mem_cons.mpr ⟨reach, small⟩
    · obtain ⟨-, rfl⟩ := emits_branch.mp first
      exact small
    · rw [ListingItem.emit_of_operation operation] at first
      obtain ⟨-, _, -, rfl⟩ := emits_instruction.mp first
      exact small

/-- Only the labels of a listing are placed. -/
theorem label_mem_of_emits (h : Yields (items.forM ListingItem.emit) e () e') :
    ∀ entry ∈ e'.labels, entry ∈ e.labels ∨ .label entry.1 ∈ items := by
  induction items generalizing e with
  | nil =>
    obtain ⟨-, rfl⟩ := yields_pure.mp h
    exact fun entry known => .inl known
  | cons item rest ih =>
    obtain ⟨e₁, first, others⟩ := emits_cons.mp h
    intro entry member
    rcases ih others entry member with before | later
    · rcases item.operation_cases with ⟨other, rfl⟩ | ⟨op, other, rfl⟩ | ⟨op, operand, operation⟩
      · obtain ⟨-, -, rfl⟩ := emits_label.mp first
        rcases List.mem_cons.mp before with rfl | known
        · exact .inr (List.mem_cons_self ..)
        · exact .inl known
      · obtain ⟨-, rfl⟩ := emits_branch.mp first
        exact .inl before
      · rw [ListingItem.emit_of_operation operation] at first
        obtain ⟨-, _, -, rfl⟩ := emits_instruction.mp first
        exact .inl before
    · exact .inr (List.mem_cons_of_mem _ later)

/-- What a listing writes. -/
theorem laid_of_emits (h : Yields (items.forM ListingItem.emit) e () e') :
    ∃ bytes fixups, Laid e'.offset? e.code.size items bytes fixups ∧
      e'.code.toList = e.code.toList ++ bytes ∧ e'.fixups.toList = e.fixups.toList ++ fixups := by
  induction items generalizing e with
  | nil =>
    obtain ⟨-, rfl⟩ := yields_pure.mp h
    exact ⟨[], [], .nil _, by simp, by simp⟩
  | cons item rest ih =>
    obtain ⟨e₁, first, others⟩ := emits_cons.mp h
    obtain ⟨bytes, fixups, laid, code, places⟩ := ih others
    rcases item.operation_cases with ⟨name, rfl⟩ | ⟨op, name, rfl⟩ | ⟨op, operand, operation⟩
    · obtain ⟨-, small, rfl⟩ := emits_label.mp first
      -- A label keeps the offset at which it was placed, whatever is written behind it.
      refine ⟨bytes, fixups, .label ?_ small laid, code, places⟩
      exact lookup_of_emits others (by rw [List.lookup_cons_self])
    · obtain ⟨branches, rfl⟩ := emits_branch.mp first
      simp only [size_append_bytes, Opcode.length_bytes, List.length_replicate,
        Array.toList_appendList, List.append_assoc, Nat.add_assoc, Array.toList_push] at laid code places
      refine ⟨_, _, .branch branches laid, ?_, ?_⟩
      · rw [code, List.append_assoc]
      · rw [places]
        rfl
    · rw [ListingItem.emit_of_operation operation] at first
      obtain ⟨-, operandBytes, written, rfl⟩ := emits_instruction.mp first
      simp only [size_append_bytes, Opcode.length_bytes, length_operandBytes written,
        Array.toList_appendList, List.append_assoc, Nat.add_assoc] at laid code places
      refine ⟨_, _, .operation operation written laid, ?_, places⟩
      rw [code, List.append_assoc]

/-- The code grows by the size of the listing. -/
theorem size_of_emits (h : Yields (items.forM ListingItem.emit) e () e') :
    e'.code.size = e.code.size + listingSize items := by
  obtain ⟨bytes, fixups, laid, code, -⟩ := laid_of_emits h
  rw [← Array.length_toList, code, List.length_append, laid.length_eq, Array.length_toList]

end Laying

/-- Overwriting replaces just as many bytes as are written. -/
theorem toList_overwrite {code : Array UInt8} {front old new back : List UInt8}
    (same : old.length = new.length) (h : code.toList = front ++ old ++ back) :
    (Encoder.overwrite code front.length new).toList = front ++ new ++ back := by
  induction new generalizing code front old with
  | nil =>
    rw [List.length_nil, List.length_eq_zero_iff] at same
    rw [Encoder.overwrite, h, same]
  | cons byte rest ih =>
    cases old with
    | nil => cases same
    | cons first others =>
      have step : (code.setIfInBounds front.length byte).toList =
          (front ++ [byte]) ++ others ++ back := by
        rw [Array.toList_setIfInBounds, h]
        simp
      have written := ih (Nat.succ.inj same) step
      rw [List.length_append, List.length_singleton] at written
      rw [Encoder.overwrite, written]
      simp

/-- What filling in a displacement does. -/
theorem fill_eq_ok_iff {E : Encoder} {code final : Array UInt8} {fixup : Fixup} :
    E.fill code fixup = .ok final ↔ ∃ target bytes, E.offset? fixup.label = some target ∧
      Encoder.displacementBytes fixup ((target : Int) - (fixup.position + fixup.width : Nat)) =
        .ok bytes ∧
      Encoder.overwrite code fixup.position bytes = final := by
  unfold Encoder.fill
  cases named : E.offset? fixup.label with
  | none =>
    constructor
    · intro h
      cases h
    · rintro ⟨_, _, h, -⟩
      cases h
  | some target =>
    simp only [bind_eq_ok_iff, Option.some.injEq]
    constructor
    · rintro ⟨bytes, written, h⟩
      exact ⟨target, bytes, rfl, written, Except.ok.inj h⟩
    · rintro ⟨_, bytes, rfl, written, rfl⟩
      exact ⟨bytes, written, rfl⟩

/-- A fold fails because of one of its members. -/
private theorem exists_error_of_foldlM {α β : Type} {f : β → α → Except Error β} {list : List α}
    {init : β} {error : Error} (h : list.foldlM f init = .error error) :
    ∃ a ∈ list, ∃ b, f b a = .error error := by
  induction list generalizing init with
  | nil => cases h
  | cons a rest ih =>
    rw [List.foldlM_cons] at h
    cases first : f init a with
    | error e =>
      rw [first] at h
      cases h
      exact ⟨a, List.mem_cons_self .., init, first⟩
    | ok b =>
      rw [first] at h
      obtain ⟨a', member, found⟩ := ih h
      exact ⟨a', List.mem_cons_of_mem _ member, found⟩

/-- Code cannot be finished only because of a displacement. -/
theorem exists_fill_error_of_finish {E : Encoder} {error : Error}
    (failed : E.finish = .error error) :
    ∃ fixup ∈ E.fixups.toList, ∃ code, E.fill code fixup = .error error := by
  unfold Encoder.finish at failed
  rw [← Array.foldlM_toList] at failed
  cases filled : E.fixups.toList.foldlM E.fill E.code with
  | ok code =>
    rw [filled] at failed
    cases failed
  | error e =>
    rw [filled] at failed
    cases failed
    exact exists_error_of_foldlM filled

/-- With all displacements filled in, what was laid is the code of the listing. -/
theorem Laid.encodes {E : Encoder} {offset : Nat} {items : List ListingItem} {bytes : List UInt8}
    {fixups : List Fixup} (h : Laid E.offset? offset items bytes fixups)
    (small : ∀ name target, E.offset? name = some target → target < 0x100000000)
    {front back : List UInt8} {code final : Array UInt8} (start : front.length = offset)
    (split : code.toList = front ++ bytes ++ back) (filled : fixups.foldlM E.fill code = .ok final) :
    ∃ written, final.toList = front ++ written ++ back ∧
      Encodes E.offset? offset items written := by
  -- Fixups are filled in from the first one on: what is in front is final, the rest has zeros in it.
  induction h generalizing front code with
  | nil offset =>
    cases filled
    exact ⟨[], split, .nil offset⟩
  | label named reach _ ih =>
    obtain ⟨written, result, encodes⟩ := ih start split filled
    exact ⟨written, result, .label named reach encodes⟩
  | @branch offset op name rest bytes fixups branches _ ih =>
    subst start
    rw [List.foldlM_cons, bind_eq_ok_iff] at filled
    obtain ⟨next, first, others⟩ := filled
    obtain ⟨target, displacement, named, inReach, rfl⟩ := fill_eq_ok_iff.mp first
    have length := length_displacementBytes branches inReach
    have next : (Encoder.overwrite code (front.length + op.size) displacement).toList =
        (front ++ (op.bytes ++ displacement)) ++ bytes ++ back := by
      have zeros : code.toList = (front ++ op.bytes) ++
          List.replicate op.operandKind.size 0 ++ (bytes ++ back) := by
        rw [split]
        simp
      have written := toList_overwrite (List.length_replicate.trans length.symm) zeros
      rw [List.length_append, Opcode.length_bytes] at written
      rw [written]
      simp
    obtain ⟨written, result, encodes⟩ := ih (by simp [Opcode.length_bytes, length]) next others
    refine ⟨op.bytes ++ displacement ++ written, ?_, ?_⟩
    · rw [result]
      simp
    · exact .branch branches named length
        (takes_displacement branches (small _ _ named) inReach) encodes
  | @operation offset item op operand rest operandBytes bytes fixups operation inReach _ ih =>
    subst start
    have length := length_operandBytes inReach
    have next : code.toList = (front ++ (op.bytes ++ operandBytes)) ++ bytes ++ back := by
      rw [split]
      simp
    obtain ⟨written, result, encodes⟩ := ih (by simp [Opcode.length_bytes, length]) next filled
    refine ⟨op.bytes ++ operandBytes ++ written, ?_, ?_⟩
    · rw [result]
      simp
    · exact .operation operation length (takes_operand inReach _) (asRead_ne_target inReach)
        encodes

/-- No branch is astray just if there is an instruction at every target. -/
theorem strayBranch?_eq_none_iff {instructions : List Instruction} :
    strayBranch? instructions = none ↔ ∀ i ∈ instructions, ∀ target, i.target? = some target →
      ∃ j ∈ instructions, j.offset = target := by
  unfold strayBranch?
  rw [List.findSome?_eq_none_iff]
  refine forall₂_congr fun i _ => ?_
  cases goes : i.target? with
  | none => simp
  | some target => simp

/-- Code is accepted just if it can be decoded and no branch is astray. -/
theorem decodeCode_eq_ok_iff {code : List UInt8} {instructions : List Instruction} :
    decodeCode code = .ok instructions ↔
      Read.run (decodeInstructions code.length) code.toArray = .ok instructions ∧
        strayBranch? instructions = none := by
  unfold decodeCode
  rw [bind_eq_ok_iff]
  constructor
  · rintro ⟨found, run, checked⟩
    split at checked
    case h_1 => cases checked
    case h_2 none =>
      cases checked
      exact ⟨run, none⟩
  · rintro ⟨run, none⟩
    refine ⟨instructions, run, ?_⟩
    rw [none]
    rfl

/-- All operands of code that can be decoded are read in the form in which they are read back. -/
theorem asRead_of_decodeCode {code : List UInt8} {instructions : List Instruction}
    (h : decodeCode code = .ok instructions) :
    ∀ i ∈ instructions, Operand.asRead i.op (some i.operand) = i.operand := by
  obtain ⟨run, -⟩ := decodeCode_eq_ok_iff.mp h
  exact asRead_of_decodeInstructions (Prod.ext run rfl)

section Assembled

variable {items : List ListingItem} {code : List UInt8} {labels : List (String × Nat)}

/-- An assembled listing is the code of the listing. -/
theorem encodes_of_assemble (h : assemble items = .ok (code, labels)) :
    Encodes (fun name => labels.lookup name) 0 items code := by
  unfold assemble at h
  split at h
  case h_1 E emitted =>
    have emits : Yields (items.forM ListingItem.emit) {} () E := emitted
    unfold Encoder.finish at h
    obtain ⟨final, filled, done⟩ := bind_eq_ok_iff.mp h
    cases done
    obtain ⟨bytes, fixups, laid, written, places⟩ := laid_of_emits emits
    have small (name : String) (target : Nat) (known : E.offset? name = some target) :
        target < 0x100000000 :=
      label_lt_of_emits emits (by simp) _ (mem_of_lookup_eq_some known)
    have start : E.code.toList = [] ++ bytes ++ [] := by
      rw [written]
      simp
    have fixups : fixups.foldlM E.fill E.code = .ok final := by
      rw [← filled, ← Array.foldlM_toList, places]
      rfl
    obtain ⟨code, result, encodes⟩ := laid.encodes small rfl start fixups
    rw [result, List.nil_append, List.append_nil]
    exact encodes
  case h_2 => cases h

/-- A label that is known was placed. -/
theorem label_mem_of_assemble (h : assemble items = .ok (code, labels)) {name : String}
    {offset : Nat} (known : labels.lookup name = some offset) : .label name ∈ items := by
  unfold assemble at h
  split at h
  case h_1 E emitted =>
    have emits : Yields (items.forM ListingItem.emit) {} () E := emitted
    obtain ⟨final, -, done⟩ := bind_eq_ok_iff.mp h
    cases done
    exact (label_mem_of_emits emits _ (mem_of_lookup_eq_some known)).resolve_left (by simp)
  case h_2 => cases h

/-- The offset of an instruction of an assembled listing. -/
theorem offset_eq_iff_of_assemble (h : assemble items = .ok (code, labels)) {name : String}
    {target : Nat} (known : labels.lookup name = some target) :
    (∃ i ∈ instructionsFrom (fun name => labels.lookup name) 0 items, i.offset = target) ↔
      target < listingSize items := by
  have encodes := encodes_of_assemble h
  constructor
  · rintro ⟨i, member, rfl⟩
    simpa using offset_lt_of_mem_instructionsFrom member
  · intro before
    obtain ⟨front, back, rfl⟩ := List.append_of_mem (label_mem_of_assemble h known)
    have placed := (Encodes.label_eq encodes).1
    rw [known, Option.some.injEq, Nat.zero_add] at placed
    subst placed
    rw [listingSize_append, listingSize_cons, ListingItem.size_label] at before
    have positive : 0 < listingSize back := by omega
    obtain ⟨i, member, here⟩ := exists_offset_eq (fun name => labels.lookup name)
      (listingSize front) positive
    refine ⟨i, ?_, here⟩
    rw [instructionsFrom_append, Nat.zero_add]
    exact List.mem_append_right _ (List.mem_append_right _ member)

/-- The instructions that an assembled listing is decoded to, before its branches are checked. -/
theorem decodeInstructions_of_assemble (h : assemble items = .ok (code, labels))
    (reach : ∀ i ∈ instructionsFrom (fun name => labels.lookup name) 0 items,
      i.offset < 0x100000000) :
    Read.run (decodeInstructions code.length) code.toArray =
      .ok (instructionsFrom (fun name => labels.lookup name) 0 items) := by
  have yields := (encodes_of_assemble h).decodeInstructions reach (Nat.le_refl _) rfl
    (Cursor.faces_ofBytes code)
  exact congrArg Prod.fst yields

/-- An assembled listing is decoded to its instructions if all branches go to one of them. -/
theorem decodeCode_of_assemble (h : assemble items = .ok (code, labels))
    (reach : ∀ i ∈ instructionsFrom (fun name => labels.lookup name) 0 items, i.offset < 0x100000000)
    (land : BranchesLand (fun name => labels.lookup name) items) :
    decodeCode code = .ok (instructionsFrom (fun name => labels.lookup name) 0 items) := by
  refine decodeCode_eq_ok_iff.mpr ⟨decodeInstructions_of_assemble h reach, ?_⟩
  refine strayBranch?_eq_none_iff.mpr fun i member target goes => ?_
  obtain ⟨op, name, found, named⟩ := (encodes_of_assemble h).exists_branch_of_target member goes
  obtain ⟨target', named', before⟩ := land op name found
  have same : target = target' := Option.some.inj (named.symm.trans named')
  exact (offset_eq_iff_of_assemble h named).mpr (same ▸ before)

/-- If an assembled listing can be decoded, all its branches go to instructions. -/
theorem branchesLand_of_decodeCode (h : assemble items = .ok (code, labels))
    (reach : ∀ i ∈ instructionsFrom (fun name => labels.lookup name) 0 items, i.offset < 0x100000000)
    {instructions : List Instruction} (decodes : decodeCode code = .ok instructions) :
    BranchesLand (fun name => labels.lookup name) items := by
  obtain ⟨run, none⟩ := decodeCode_eq_ok_iff.mp decodes
  rw [decodeInstructions_of_assemble h reach, Except.ok.injEq] at run
  subst run
  intro op name member
  obtain ⟨target, named, i, found, goes⟩ := (encodes_of_assemble h).exists_target_of_branch member
  exact ⟨target, named, (offset_eq_iff_of_assemble h named).mp
    (strayBranch?_eq_none_iff.mp none i found target goes)⟩

end Assembled

end Interpose
