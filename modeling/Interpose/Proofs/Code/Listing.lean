import Interpose.Code.Listing
import Interpose.Proofs.Code.Instruction

/-!
# The instructions of a listing

Every item of a listing other than a label is written as one instruction.  This file says which one,
at which offset it is found, and what instructions code of a listing is decoded to.

## Main definitions

* `ListingItem.operation?` — operation and operand of an item that neither is a label nor branches
* `ListingItem.size`, `listingSize` — the number of bytes of an item, and of several
* `instructionsFrom` — the instructions of a listing that is placed at an offset
* `BranchesLand` — all branches go to labels in front of instructions
* `Encodes` — bytes are the code of a listing

## Main results

* `Encodes.decodeInstructions` — code of a listing is decoded to its instructions
* `offset_lt_of_mem_instructionsFrom` — instructions are found before the end of their code
-/

namespace Interpose

/-- The form of an operation on a numbered variable: one that names the number by itself, one with
an index of one byte, or one with an index of two. -/
def indexForm (implied : List Opcode) (short long : Opcode) (operand : UInt16 → Operand)
    (index : UInt16) : Opcode × Option Operand :=
  match implied[index.toNat]? with
  | some op => (op, none)
  | none => if index < 256 then (short, some (operand index)) else (long, some (operand index))

/-- The operations that load a constant which they name by themselves. -/
def impliedConstants : List Opcode :=
  [.ldcI4M1, .ldcI40, .ldcI41, .ldcI42, .ldcI43, .ldcI44, .ldcI45, .ldcI46, .ldcI47, .ldcI48]

/-- The form of an operation that loads a 32-bit constant. -/
def constantForm (value : Int32) : Opcode × Option Operand :=
  match impliedConstants.find? (·.impliedConstant? = some value) with
  | some op => (op, none)
  | none =>
    if -128 ≤ value ∧ value ≤ 127 then (.ldcI4S, some (.int8 value.toInt8))
    else (.ldcI4, some (.int32 value))

namespace ListingItem

/-- Operation and operand of an item that neither is a label nor branches to one. -/
def operation? : ListingItem → Option (Opcode × Option Operand)
  | label _ | branch _ _ => none
  | plain op => some (op, none)
  | withToken op token => some (op, some (.token token))
  | ldarg index =>
    some (indexForm [.ldarg0, .ldarg1, .ldarg2, .ldarg3] .ldargS .ldarg .argument index)
  | starg index => some (indexForm [] .stargS .starg .argument index)
  | ldloc index =>
    some (indexForm [.ldloc0, .ldloc1, .ldloc2, .ldloc3] .ldlocS .ldloc .localVar index)
  | stloc index =>
    some (indexForm [.stloc0, .stloc1, .stloc2, .stloc3] .stlocS .stloc .localVar index)
  | int32 value => some (constantForm value)
  | int64 value => some (.ldcI8, some (.int64 value))
  | float64 bits => some (.ldcR8, some (.float64 bits))
  | decoded i => some (i.op, if i.operand = .none then none else some i.operand)

/-- The operation of an item; labels have none. -/
def opcode? : ListingItem → Option Opcode
  | branch op _ => some op
  | item => item.operation?.map Prod.fst

/-- The number of bytes of an item. -/
def size (item : ListingItem) : Nat :=
  match item.opcode? with
  | some op => op.size + op.operandKind.size
  | none => 0

/-- The instruction that an item is read back as when it is placed at an offset. -/
def instruction? (labels : String → Option Nat) (offset : Nat) : ListingItem → Option Instruction
  | branch op name => some ⟨offset, op, .target ((labels name).getD 0)⟩
  | item => item.operation?.map fun (op, operand) => ⟨offset, op, Operand.asRead op operand⟩

/-- Whether an item places a label. -/
def isLabel : ListingItem → Bool
  | label _ => true
  | _ => false

theorem opcode?_of_operation {item : ListingItem} {op : Opcode} {operand : Option Operand}
    (h : item.operation? = some (op, operand)) : item.opcode? = some op := by
  cases item <;> simp_all [operation?, opcode?]

theorem size_of_operation {item : ListingItem} {op : Opcode} {operand : Option Operand}
    (h : item.operation? = some (op, operand)) : item.size = op.size + op.operandKind.size := by
  rw [size, opcode?_of_operation h]

theorem instruction?_of_operation {item : ListingItem} {op : Opcode} {operand : Option Operand}
    (h : item.operation? = some (op, operand)) (labels : String → Option Nat) (offset : Nat) :
    item.instruction? labels offset = some ⟨offset, op, Operand.asRead op operand⟩ := by
  cases item <;> simp_all [operation?, instruction?]

@[simp] theorem size_label (name : String) : (label name).size = 0 := rfl

@[simp] theorem size_branch (op : Opcode) (name : String) :
    (branch op name).size = op.size + op.operandKind.size := rfl

/-- Every item other than a label takes some bytes. -/
theorem size_pos {item : ListingItem} (h : item.isLabel = false) : 0 < item.size := by
  cases item with
  | label name => cases h
  | branch op name => exact Nat.add_pos_left op.size_pos _
  | _ => exact Nat.add_pos_left (Opcode.size_pos _) _

/-- The instruction of an item is found where the item is placed. -/
theorem offset_of_instruction? {labels : String → Option Nat} {offset : Nat} {item : ListingItem}
    {i : Instruction} (h : item.instruction? labels offset = some i) : i.offset = offset := by
  cases item <;> cases h <;> rfl

theorem isSome_instruction? (labels : String → Option Nat) (offset : Nat) (item : ListingItem) :
    (item.instruction? labels offset).isSome = !item.isLabel := by
  cases item <;> rfl

end ListingItem

/-- The number of bytes of a listing. -/
def listingSize (items : List ListingItem) : Nat := (items.map ListingItem.size).sum

@[simp] theorem listingSize_nil : listingSize [] = 0 := rfl

@[simp] theorem listingSize_cons (item : ListingItem) (items : List ListingItem) :
    listingSize (item :: items) = item.size + listingSize items := by
  simp [listingSize]

@[simp] theorem listingSize_append (first second : List ListingItem) :
    listingSize (first ++ second) = listingSize first + listingSize second := by
  simp [listingSize]

/-- The instructions of a listing that is placed at an offset. -/
def instructionsFrom (labels : String → Option Nat) : (offset : Nat) → List ListingItem →
    List Instruction
  | _, [] => []
  | offset, item :: rest =>
    (item.instruction? labels offset).toList ++ instructionsFrom labels (offset + item.size) rest

section Instructions

variable {labels : String → Option Nat} {offset : Nat} {items : List ListingItem} {i : Instruction}

theorem instructionsFrom_append (labels : String → Option Nat) (offset : Nat)
    (first second : List ListingItem) :
    instructionsFrom labels offset (first ++ second) =
      instructionsFrom labels offset first ++
        instructionsFrom labels (offset + listingSize first) second := by
  induction first generalizing offset with
  | nil => rfl
  | cons item rest ih =>
    simp only [List.cons_append, instructionsFrom, ih, List.append_assoc, listingSize_cons,
      Nat.add_assoc]

theorem le_offset_of_mem_instructionsFrom (h : i ∈ instructionsFrom labels offset items) :
    offset ≤ i.offset := by
  induction items generalizing offset with
  | nil => cases h
  | cons item rest ih =>
    rw [instructionsFrom, List.mem_append, Option.mem_toList] at h
    rcases h with first | later
    · exact Nat.le_of_eq (ListingItem.offset_of_instruction? first).symm
    · exact Nat.le_of_add_right_le (ih later)

/-- Instructions are found before the end of their code. -/
theorem offset_lt_of_mem_instructionsFrom (h : i ∈ instructionsFrom labels offset items) :
    i.offset < offset + listingSize items := by
  induction items generalizing offset with
  | nil => cases h
  | cons item rest ih =>
    rw [instructionsFrom, List.mem_append, Option.mem_toList] at h
    rw [listingSize_cons]
    rcases h with first | later
    · have here := ListingItem.offset_of_instruction? first
      have placed := ListingItem.isSome_instruction? labels offset item
      rw [first] at placed
      have : 0 < item.size := ListingItem.size_pos (by simpa using placed.symm)
      omega
    · have := ih later
      omega

/-- Instructions are found in increasing order. -/
theorem pairwise_offset_instructionsFrom (labels : String → Option Nat) (offset : Nat)
    (items : List ListingItem) :
    (instructionsFrom labels offset items).Pairwise (·.offset < ·.offset) := by
  induction items generalizing offset with
  | nil => exact List.Pairwise.nil
  | cons item rest ih =>
    rw [instructionsFrom]
    cases read : item.instruction? labels offset with
    | none => simpa using ih (offset + item.size)
    | some i =>
      have placed := ListingItem.isSome_instruction? labels offset item
      rw [read] at placed
      have : 0 < item.size := ListingItem.size_pos (by simpa using placed.symm)
      have here := ListingItem.offset_of_instruction? read
      refine List.pairwise_cons.mpr ⟨fun j later => ?_, ih _⟩
      have := le_offset_of_mem_instructionsFrom later
      omega

/-- The first instruction of a listing is found where the listing is placed. -/
theorem exists_offset_eq (labels : String → Option Nat) (offset : Nat)
    (h : 0 < listingSize items) : ∃ i ∈ instructionsFrom labels offset items, i.offset = offset := by
  induction items with
  | nil => cases h
  | cons item rest ih =>
    rw [instructionsFrom]
    cases read : item.instruction? labels offset with
    | some i => exact ⟨i, by simp, ListingItem.offset_of_instruction? read⟩
    | none =>
      have placed := ListingItem.isSome_instruction? labels offset item
      rw [read] at placed
      cases item with
      | label name => simpa using ih (by simpa using h)
      | _ => cases placed

end Instructions

/-- Whether all branches of a listing go to labels in front of one of its instructions. -/
def BranchesLand (labels : String → Option Nat) (items : List ListingItem) : Prop :=
  ∀ op name, .branch op name ∈ items → ∃ target, labels name = some target ∧
    target < listingSize items

/-- The bytes are the code of a listing that is placed at an offset. -/
inductive Encodes (labels : String → Option Nat) : Nat → List ListingItem → List UInt8 → Prop
  | nil (offset : Nat) : Encodes labels offset [] []
  | label {offset : Nat} {name : String} {rest : List ListingItem} {code : List UInt8} :
      labels name = some offset → offset < 0x100000000 → Encodes labels offset rest code →
      Encodes labels offset (.label name :: rest) code
  | branch {offset target : Nat} {op : Opcode} {name : String} {rest : List ListingItem}
      {bytes code : List UInt8} :
      op.isBranch = true → labels name = some target → bytes.length = op.operandKind.size →
      Takes (Operand.decode offset op) bytes (.target target) →
      Encodes labels (offset + (op.size + op.operandKind.size)) rest code →
      Encodes labels offset (.branch op name :: rest) (op.bytes ++ bytes ++ code)
  | operation {offset : Nat} {item : ListingItem} {op : Opcode} {operand : Option Operand}
      {rest : List ListingItem} {bytes code : List UInt8} :
      item.operation? = some (op, operand) → bytes.length = op.operandKind.size →
      Takes (Operand.decode offset op) bytes (Operand.asRead op operand) →
      (∀ target, Operand.asRead op operand ≠ .target target) →
      Encodes labels (offset + (op.size + op.operandKind.size)) rest code →
      Encodes labels offset (item :: rest) (op.bytes ++ bytes ++ code)

namespace Encodes

variable {labels : String → Option Nat} {offset : Nat} {items : List ListingItem}
  {code : List UInt8}

theorem length_eq (h : Encodes labels offset items code) : code.length = listingSize items := by
  induction h with
  | nil => rfl
  | label _ _ _ ih => simpa using ih
  | branch _ _ length _ _ ih =>
    simp only [List.length_append, Opcode.length_bytes, length, ih, listingSize_cons,
      ListingItem.size_branch]
  | operation known length _ _ _ ih =>
    simp only [List.length_append, Opcode.length_bytes, length, ih, listingSize_cons,
      ListingItem.size_of_operation known]

/-- A label stands for the offset at which it is placed. -/
theorem label_eq {before after : List ListingItem} {name : String}
    (h : Encodes labels offset (before ++ .label name :: after) code) :
    labels name = some (offset + listingSize before) ∧ offset + listingSize before < 0x100000000 := by
  induction before generalizing offset code with
  | nil =>
    cases h with
    | label placed small => exact ⟨placed, small⟩
    | operation known => cases known
  | cons item rest ih =>
    rw [listingSize_cons]
    cases h with
    | label _ _ later => simpa using ih later
    | branch _ _ _ _ later => simpa [Nat.add_assoc] using ih later
    | operation known _ _ _ later =>
      simpa [Nat.add_assoc, ListingItem.size_of_operation known] using ih later

/-- Instructions in front of a label, and the one right behind it, are within the reach of a
decoder. -/
theorem offset_lt {before after : List ListingItem} {name : String} {i : Instruction}
    (h : Encodes labels offset (before ++ .label name :: after) code)
    (short : after = [] ∨ ∃ last, after = [last])
    (member : i ∈ instructionsFrom labels offset (before ++ .label name :: after)) :
    i.offset < 0x100000000 := by
  have small := (label_eq h).2
  rw [instructionsFrom_append, List.mem_append] at member
  rcases member with front | back
  · exact Nat.lt_trans (offset_lt_of_mem_instructionsFrom front) small
  · rcases short with rfl | ⟨last, rfl⟩
    · simp [instructionsFrom, ListingItem.instruction?, ListingItem.operation?] at back
    · rw [instructionsFrom, instructionsFrom] at back
      simp only [ListingItem.instruction?, ListingItem.operation?, Option.map_none,
        Option.toList_none, List.nil_append, ListingItem.size_label, Nat.add_zero,
        instructionsFrom, List.append_nil] at back
      have here := ListingItem.offset_of_instruction? (Option.mem_toList.mp back)
      omega

/-- The targets of the instructions are those of the branches. -/
theorem exists_branch_of_target (h : Encodes labels offset items code) {i : Instruction}
    (member : i ∈ instructionsFrom labels offset items) {target : Nat}
    (goes : i.target? = some target) :
    ∃ op name, .branch op name ∈ items ∧ labels name = some target := by
  induction h with
  | nil => cases member
  | label _ _ _ ih =>
    obtain ⟨op, name, found, named⟩ := ih member
    exact ⟨op, name, List.mem_cons_of_mem _ found, named⟩
  | @branch offset known op name rest _ _ _ named _ _ _ ih =>
    simp only [instructionsFrom, ListingItem.instruction?, named, Option.getD_some,
      Option.toList_some, List.singleton_append, List.mem_cons, ListingItem.size_branch] at member
    rcases member with rfl | later
    · cases goes
      exact ⟨op, name, List.mem_cons_self .., named⟩
    · obtain ⟨op, name, found, named⟩ := ih later
      exact ⟨op, name, List.mem_cons_of_mem _ found, named⟩
  | @operation offset item op operand rest _ _ known _ _ none _ ih =>
    simp only [instructionsFrom, ListingItem.instruction?_of_operation known,
      ListingItem.size_of_operation known, Option.toList_some, List.singleton_append,
      List.mem_cons] at member
    rcases member with rfl | later
    · -- The operand of an operation is no target.
      exact absurd (Instruction.target?_eq_some_iff.mp goes) (none _)
    · obtain ⟨op, name, found, named⟩ := ih later
      exact ⟨op, name, List.mem_cons_of_mem _ found, named⟩

/-- Every branch has a target. -/
theorem exists_target_of_branch (h : Encodes labels offset items code) {op : Opcode}
    {name : String} (member : .branch op name ∈ items) :
    ∃ target, labels name = some target ∧
      ∃ i ∈ instructionsFrom labels offset items, i.target? = some target := by
  induction h with
  | nil => cases member
  | label _ _ _ ih =>
    rcases List.mem_cons.mp member with same | later
    · cases same
    · exact ih later
  | branch _ named _ _ _ ih =>
    rcases List.mem_cons.mp member with same | later
    · cases same
      refine ⟨_, named, _, List.mem_append_left _ (Option.mem_toList.mpr rfl), ?_⟩
      rw [named]
      rfl
    · obtain ⟨target, named, i, found, goes⟩ := ih later
      exact ⟨target, named, i, List.mem_append_right _ found, goes⟩
  | operation known _ _ _ _ ih =>
    rcases List.mem_cons.mp member with rfl | later
    · cases known
    · obtain ⟨target, named, i, found, goes⟩ := ih later
      rw [← ListingItem.size_of_operation known] at found
      exact ⟨target, named, i, List.mem_append_right _ found, goes⟩

/-- One instruction of a listing is decoded, and then the others. -/
private theorem decodeInstructions_cons {fuel : Nat} {c : Cursor} {op : Opcode}
    {operand : Operand} {bytes : List UInt8} {others : List Instruction}
    (start : c.position < 0x100000000) (takes : Takes (Operand.decode c.position op) bytes operand)
    (faces : c.Faces (op.bytes ++ bytes ++ code))
    (rest : Yields (Interpose.decodeInstructions fuel) (c.skip (op.bytes ++ bytes).length) others
      ((c.skip (op.bytes ++ bytes).length).skip code.length)) :
    Yields (Interpose.decodeInstructions (fuel + 1)) c (⟨c.position, op, operand⟩ :: others)
      (c.skip (op.bytes ++ bytes ++ code).length) := by
  have more : c.hasMore = true := by
    have := op.size_pos
    rw [faces.hasMore, Bool.not_eq_true', List.isEmpty_eq_false_iff, ne_eq,
      ← List.length_eq_zero_iff]
    simp only [List.length_append, Opcode.length_bytes]
    omega
  rw [List.length_append, ← Cursor.skip_skip]
  unfold Interpose.decodeInstructions Read.hasMore
  refine yields_bind.mpr ⟨true, c, ?_, ?_⟩
  · exact (yields_get.mpr ⟨rfl, rfl⟩).bind (yields_pure.mpr ⟨more, rfl⟩)
  · exact (takes_instruction start takes faces).bind (rest.bind (yields_pure.mpr ⟨rfl, rfl⟩))

/-- Code of a listing is decoded to the instructions of the listing. -/
theorem decodeInstructions (h : Encodes labels offset items code) {fuel : Nat} {c : Cursor}
    (reach : ∀ i ∈ instructionsFrom labels offset items, i.offset < 0x100000000)
    (enough : code.length ≤ fuel) (start : c.position = offset) (faces : c.Faces code) :
    Yields (Interpose.decodeInstructions fuel) c (instructionsFrom labels offset items)
      (c.skip code.length) := by
  -- Labels have no bytes.  Every other item has at least one, which pays for the fuel of reading it.
  induction h generalizing fuel c with
  | nil offset =>
    cases fuel with
    | zero => exact yields_pure.mpr ⟨rfl, rfl⟩
    | succ fuel =>
      unfold Interpose.decodeInstructions Read.hasMore
      refine yields_bind.mpr ⟨false, c, ?_, yields_pure.mpr ⟨rfl, rfl⟩⟩
      exact (yields_get.mpr ⟨rfl, rfl⟩).bind (yields_pure.mpr ⟨faces.hasMore, rfl⟩)
  | label _ _ _ ih => exact ih reach enough start faces
  | @branch offset target op name rest bytes code _ named length takes later ih =>
    subst start
    have positive := op.size_pos
    simp only [List.length_append, Opcode.length_bytes, length] at enough
    obtain ⟨fuel, rfl⟩ : ∃ n, fuel = n + 1 := ⟨fuel - 1, by omega⟩
    simp only [instructionsFrom, ListingItem.instruction?, ListingItem.size_branch, named,
      Option.getD_some, Option.toList_some, List.singleton_append, List.mem_cons,
      forall_eq_or_imp] at reach ⊢
    refine decodeInstructions_cons reach.1 takes faces (ih reach.2 (by omega) ?_ ?_)
    · simp [Opcode.length_bytes, length]
    · exact faces.skip
  | @operation offset item op operand rest bytes code known length takes _ later ih =>
    subst start
    have positive := op.size_pos
    simp only [List.length_append, Opcode.length_bytes, length] at enough
    obtain ⟨fuel, rfl⟩ : ∃ n, fuel = n + 1 := ⟨fuel - 1, by omega⟩
    simp only [instructionsFrom, ListingItem.instruction?_of_operation known,
      ListingItem.size_of_operation known, Option.toList_some, List.singleton_append,
      List.mem_cons, forall_eq_or_imp] at reach ⊢
    refine decodeInstructions_cons reach.1 takes faces (ih reach.2 (by omega) ?_ ?_)
    · simp [Opcode.length_bytes, length]
    · exact faces.skip

end Encodes

end Interpose
