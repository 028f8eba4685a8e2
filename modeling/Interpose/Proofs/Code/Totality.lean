import Interpose.Proofs.Code.Assembly

/-!
# Listings that can be assembled

A listing can be assembled if its labels differ, its branches go to them, its operations take their
operands, and its code is short enough for all displacements to be in reach.

## Main definitions

* `ListingItem.isOperation` — an item is an instruction that does not branch and takes its operand
* `ListingItem.isWritable` — the same, or a label, or a branch in its long form
* `placedLabels` — the labels that a listing places

## Main results

* `exists_emits` — items that can be written are written
* `exists_assemble` — such a listing is assembled
-/

namespace Interpose

namespace ListingItem

/-- The label that an item places. -/
def placed? : ListingItem → Option String
  | .label name => some name
  | _ => none

/-- Whether an item is an instruction that does not branch and takes its operand. -/
def isOperation (item : ListingItem) : Bool :=
  match item.operation? with
  | some (op, operand) => !op.isBranch && (Emit.operandBytes op operand).toOption.isSome
  | none => false

/-- Whether an item can be written, wherever the labels are placed. -/
def isWritable : ListingItem → Bool
  | .label _ => true
  | .branch op _ => op.operandKind = .target
  | item => item.isOperation

variable {item : ListingItem}

theorem isOperation_iff : item.isOperation = true ↔ ∃ op operand bytes,
    item.operation? = some (op, operand) ∧ op.isBranch = false ∧
      Emit.operandBytes op operand = .ok bytes := by
  unfold isOperation
  cases item.operation? with
  | none => simp
  | some pair =>
    obtain ⟨op, operand⟩ := pair
    simp [Option.isSome_iff_exists, toOption_eq_some_iff, and_assoc]

theorem isWritable_of_isOperation (h : item.isOperation = true) : item.isWritable = true := by
  cases item with
  | label | branch => cases h
  | _ => exact h

theorem placed?_of_isOperation (h : item.isOperation = true) : item.placed? = none := by
  cases item with
  | label => cases h
  | _ => rfl

end ListingItem

/-- The labels that a listing places. -/
def placedLabels (items : List ListingItem) : List String := items.filterMap ListingItem.placed?

theorem mem_placedLabels_iff {items : List ListingItem} {name : String} :
    name ∈ placedLabels items ↔ .label name ∈ items := by
  rw [placedLabels, List.mem_filterMap]
  constructor
  · rintro ⟨item, member, places⟩
    cases item with
    | label other =>
      cases places
      exact member
    | _ => cases places
  · intro member
    exact ⟨_, member, rfl⟩

@[simp] theorem placedLabels_nil : placedLabels [] = [] := rfl

@[simp] theorem placedLabels_cons (item : ListingItem) (rest : List ListingItem) :
    placedLabels (item :: rest) = item.placed?.toList ++ placedLabels rest := by
  rw [placedLabels, List.filterMap_cons]
  cases item.placed? <;> rfl

@[simp] theorem placedLabels_append (first second : List ListingItem) :
    placedLabels (first ++ second) = placedLabels first ++ placedLabels second :=
  List.filterMap_append

/-- Instructions place no labels. -/
theorem placedLabels_of_isOperation {items : List ListingItem}
    (h : items.all ListingItem.isOperation = true) : placedLabels items = [] := by
  rw [List.all_eq_true] at h
  exact List.filterMap_eq_nil_iff.mpr fun item member =>
    ListingItem.placed?_of_isOperation (h item member)

section Emission

variable {items : List ListingItem} {e e' : Encoder}

/-- Items that can be written are written. -/
theorem exists_emits (writable : ∀ item ∈ items, item.isWritable = true)
    (distinct : (placedLabels items).Nodup)
    (fresh : ∀ name ∈ placedLabels items, e.labels.lookup name = none)
    (small : e.code.size + listingSize items < 0x100000000) :
    ∃ e', Yields (items.forM ListingItem.emit) e () e' := by
  induction items generalizing e with
  | nil => exact ⟨e, yields_pure.mpr ⟨rfl, rfl⟩⟩
  | cons item rest ih =>
    obtain ⟨here, others⟩ := List.forall_mem_cons.mp writable
    rw [placedLabels_cons] at distinct fresh
    rw [listingSize_cons] at small
    -- An item that leaves the labels alone is followed by the others.
    have follows {e₁ : Encoder} (written : Yields item.emit e () e₁) (labels : e₁.labels = e.labels) :
        ∃ e', Yields ((item :: rest).forM ListingItem.emit) e () e' := by
      have size : e₁.code.size = e.code.size + item.size := by
        have alone : Yields ([item].forM ListingItem.emit) e () e₁ :=
          emits_cons.mpr ⟨e₁, written, yields_pure.mpr ⟨rfl, rfl⟩⟩
        rw [size_of_emits alone, listingSize_cons, listingSize_nil, Nat.add_zero]
      obtain ⟨e', later⟩ := ih (e := e₁) others (List.nodup_append.mp distinct).2.1
        (fun name member => labels ▸ fresh name (List.mem_append_right _ member)) (by omega)
      exact ⟨e', emits_cons.mpr ⟨e₁, written, later⟩⟩
    rcases item.operation_cases with ⟨name, rfl⟩ | ⟨op, name, rfl⟩ | ⟨op, operand, operation⟩
    · obtain ⟨new, apart⟩ := List.nodup_cons.mp distinct
      have unplaced : e.labels.lookup name = none := fresh name (List.mem_cons_self ..)
      rw [ListingItem.size_label, Nat.zero_add] at small
      have reach : e.code.size < 0x100000000 := by omega
      let e₁ : Encoder := { e with labels := (name, e.code.size) :: e.labels }
      have written : Yields (ListingItem.label name).emit e () e₁ :=
        emits_label.mpr ⟨unplaced, reach, rfl⟩
      have fresh' : ∀ other ∈ placedLabels rest, e₁.labels.lookup other = none := by
        intro other member
        have differs : (other == name) = false := by
          rw [beq_eq_false_iff_ne]
          rintro rfl
          exact new member
        rw [List.lookup_cons, differs]
        exact fresh other (List.mem_cons_of_mem _ member)
      obtain ⟨e', later⟩ := ih (e := e₁) others apart fresh' small
      exact ⟨e', emits_cons.mpr ⟨e₁, written, later⟩⟩
    · have long : op.operandKind = .target := of_decide_eq_true here
      exact follows (emits_branch.mpr ⟨Opcode.isBranch_iff.mpr (.inr long), rfl⟩) rfl
    · have written : item.isOperation = true := by
        cases item with
        | label | branch => cases operation
        | _ => exact here
      obtain ⟨op, operand, bytes, known, plain, takes⟩ := ListingItem.isOperation_iff.mp written
      have emits : Yields item.emit e () { e with code := e.code ++ op.bytes ++ bytes } := by
        rw [ListingItem.emit_of_operation known]
        exact emits_instruction.mpr ⟨plain, bytes, takes, rfl⟩
      exact follows emits rfl

/-- All labels of a listing are placed. -/
theorem isSome_lookup_of_emits (h : Yields (items.forM ListingItem.emit) e () e') {name : String}
    (member : .label name ∈ items) : (e'.labels.lookup name).isSome = true := by
  induction items generalizing e with
  | nil => cases member
  | cons item rest ih =>
    obtain ⟨e₁, first, others⟩ := emits_cons.mp h
    rcases List.mem_cons.mp member with rfl | later
    · obtain ⟨-, -, rfl⟩ := emits_label.mp first
      rw [lookup_of_emits others List.lookup_cons_self]
      rfl
    · exact ih others later

/-- Labels are placed in the code or behind it. -/
theorem label_le_of_emits (h : Yields (items.forM ListingItem.emit) e () e')
    (inside : ∀ entry ∈ e.labels, entry.2 ≤ e.code.size) :
    ∀ entry ∈ e'.labels, entry.2 ≤ e'.code.size := by
  induction items generalizing e with
  | nil =>
    obtain ⟨-, rfl⟩ := yields_pure.mp h
    exact inside
  | cons item rest ih =>
    obtain ⟨e₁, first, others⟩ := emits_cons.mp h
    refine ih others ?_
    have grown : e.code.size ≤ e₁.code.size := by
      have alone : Yields ([item].forM ListingItem.emit) e () e₁ :=
        emits_cons.mpr ⟨e₁, first, yields_pure.mpr ⟨rfl, rfl⟩⟩
      have := size_of_emits alone
      omega
    rcases item.operation_cases with ⟨name, rfl⟩ | ⟨op, name, rfl⟩ | ⟨op, operand, operation⟩
    · obtain ⟨-, -, rfl⟩ := emits_label.mp first
      exact List.forall_mem_cons.mpr ⟨Nat.le_refl _, inside⟩
    · obtain ⟨-, rfl⟩ := emits_branch.mp first
      exact fun entry member => Nat.le_trans (inside entry member) grown
    · rw [ListingItem.emit_of_operation operation] at first
      obtain ⟨-, _, -, rfl⟩ := emits_instruction.mp first
      exact fun entry member => Nat.le_trans (inside entry member) grown

/-- What is left to be filled in is the displacement of a branch of the listing. -/
theorem Laid.of_mem_fixups {labels : String → Option Nat} {offset : Nat} {bytes : List UInt8}
    {fixups : List Fixup} (h : Laid labels offset items bytes fixups) {fixup : Fixup}
    (member : fixup ∈ fixups) : ∃ op, .branch op fixup.label ∈ items ∧
      fixup.width = op.operandKind.size ∧
      fixup.position + fixup.width ≤ offset + listingSize items := by
  induction h with
  | nil => cases member
  | label _ _ _ ih =>
    obtain ⟨op, inside, width, ends⟩ := ih member
    exact ⟨op, List.mem_cons_of_mem _ inside, width, by simpa using ends⟩
  | @branch offset op name rest _ _ _ _ ih =>
    rcases List.mem_cons.mp member with rfl | later
    · refine ⟨op, List.mem_cons_self .., rfl, ?_⟩
      rw [listingSize_cons, ListingItem.size_branch]
      dsimp only
      omega
    · obtain ⟨op', inside, width, ends⟩ := ih later
      refine ⟨op', List.mem_cons_of_mem _ inside, width, ?_⟩
      rw [listingSize_cons, ListingItem.size_branch]
      omega
  | operation known _ _ ih =>
    obtain ⟨op', inside, width, ends⟩ := ih member
    refine ⟨op', List.mem_cons_of_mem _ inside, width, ?_⟩
    rw [listingSize_cons, ListingItem.size_of_operation known]
    omega

/-- A displacement within two gigabytes of code is in the reach of a long branch. -/
theorem exists_displacementBytes {fixup : Fixup} (long : fixup.width = 4) {target size : Nat}
    (small : size < 0x80000000) (before : target ≤ size)
    (ends : fixup.position + fixup.width ≤ size) : ∃ bytes,
      Encoder.displacementBytes fixup ((target : Int) - (fixup.position + fixup.width : Nat)) =
        .ok bytes := by
  have wide : ¬ fixup.width = 1 := by
    rw [long]
    decide
  unfold Encoder.displacementBytes
  rw [if_neg wide, if_pos (by omega)]
  exact ⟨_, rfl⟩

/-- A listing can be assembled if its items can be written, no label is placed twice, all branches go
to labels that are placed, and its code is below two gigabytes. -/
theorem exists_assemble (writable : ∀ item ∈ items, item.isWritable = true)
    (distinct : (placedLabels items).Nodup)
    (placed : ∀ op name, .branch op name ∈ items → .label name ∈ items)
    (small : listingSize items < 0x80000000) : ∃ result, assemble items = .ok result := by
  obtain ⟨E, emits⟩ := exists_emits (e := {}) writable distinct (fun _ _ => rfl)
    (by rw [show ({} : Encoder).code.size = 0 from rfl]; omega)
  have emitted : (items.forM ListingItem.emit).run {} = (.ok (), E) := emits
  unfold assemble
  rw [emitted]
  show ∃ result, E.finish = .ok result
  cases finished : E.finish with
  | ok result => exact ⟨result, rfl⟩
  | error error =>
    -- Only a displacement can be missing, but its label is placed and in reach.
    exfalso
    obtain ⟨fixup, member, code, unfilled⟩ := exists_fill_error_of_finish finished
    obtain ⟨bytes, fixups, laid, -, places⟩ := laid_of_emits emits
    rw [places] at member
    obtain ⟨op, inside, width, ends⟩ := laid.of_mem_fixups member
    have long : op.operandKind = .target := of_decide_eq_true (writable _ inside)
    obtain ⟨target, known⟩ := Option.isSome_iff_exists.mp
      (isSome_lookup_of_emits emits (placed _ _ inside))
    have size : E.code.size = listingSize items := (size_of_emits emits).trans (Nat.zero_add _)
    have before : target ≤ listingSize items :=
      size ▸ label_le_of_emits emits (by simp) _ (mem_of_lookup_eq_some known)
    have four : fixup.width = 4 := by
      rw [width, long]
      rfl
    obtain ⟨written, inReach⟩ := exists_displacementBytes four small before
      (Nat.le_trans ends (Nat.le_of_eq (Nat.zero_add _)))
    have filled : E.fill code fixup = .ok _ :=
      fill_eq_ok_iff.mpr ⟨target, written, known, inReach, rfl⟩
    rw [unfilled] at filled
    cases filled

end Emission

end Interpose
