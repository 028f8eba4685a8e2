import Interpose.Proofs.Weaving.Decodability
import Interpose.Proofs.Weaving.Interception

/-!
# Where woven code is found

The code of each instruction of a method is found at some position of the woven code, and a branch
to the instruction goes there.

## Main definitions

* `Weave.start` — the position of the code of an instruction

## Main results

* `Weave.holds` — woven code that was decoded holds the woven listing
* `Weave.exists_isAt` — the scaffold of a call site is found at its position
* `Weave.indexOf?_label` — the label of an instruction is placed at its position
-/

namespace Interpose

theorem Code.ofBody_eq_ok_iff {body : Body} {c : Code} : Code.ofBody body = .ok (some c) ↔
    decodeCode body.code = .ok c.instructions.toList ∧ c.instructions.toList ≠ [] ∧
      c.locals = body.locals ∧ c.maxStack = body.maxStack.toNat := by
  unfold Code.ofBody
  rw [bind_eq_ok_iff]
  constructor
  · rintro ⟨instructions, decoded, h⟩
    split at h
    case isTrue => cases h
    case isFalse some =>
      cases h
      exact ⟨decoded, by simpa using some, rfl, rfl⟩
  · rintro ⟨decoded, some, locals, maxStack⟩
    refine ⟨_, decoded, ?_⟩
    rw [if_neg (by simpa using some), ← locals, ← maxStack]
    rfl

/-- The code of a method is what its body is decoded to. -/
theorem Program.code_ofModule_eq_ok_iff {m : Module} {token : Token} {d : MethodDef} {name : String}
    {c : Code} (found : m.methodDefAt token = .ok d) : (Program.ofModule m).code token name = .ok c ↔
    ∃ body, d.body = some body ∧ Code.ofBody body = .ok (some c) := by
  obtain ⟨-, positive, entry⟩ := methodDefAt_eq_ok_iff.mp found
  have index : token.index? = some (token.row - 1) := if_neg (Nat.ne_of_gt positive)
  unfold Program.code Program.ofModule
  simp only [index, Option.bind_some, Array.getElem?_map, entry, Option.map_some, Option.getD_some]
  rw [bind_eq_ok_iff]
  constructor
  · rintro ⟨code, decoded, taken⟩
    cases hasBody : d.body with
    | none =>
      rw [hasBody] at decoded
      cases decoded
      cases taken
    | some body =>
      rw [hasBody] at decoded
      cases code with
      | none => cases taken
      | some code =>
        cases taken
        exact ⟨body, rfl, decoded⟩
  · rintro ⟨body, hasBody, decoded⟩
    rw [hasBody]
    exact ⟨some c, decoded, rfl⟩

/-- The room that scaffolds need comes on top of that of the body, unless a header cannot say so. -/
theorem toNat_wovenStack {maxStack : UInt16} (deep : maxStack.toNat ≤ 65523) :
    (wovenStack maxStack).toNat = maxStack.toNat + scaffoldDepth := by
  rw [wovenStack, UInt16.toNat_ofNat', scaffoldDepth]
  omega

/-- Every instruction has some code. -/
theorem WovenPart.instructionCount_pos {m : Module} {imports : Imports} {host : Host}
    {base limit : Nat} {entry : Instruction × Option CallSite} {part : List ListingItem}
    (h : WovenPart m imports host base limit entry part) : 0 < instructionCount part := by
  cases h with
  | @kept i item kept =>
    have code : item.isLabel = false := by
      rcases keptItem_eq_ok_iff.mp kept with ⟨-, target, -, rfl⟩ | ⟨-, rfl⟩ <;> rfl
    simp only [instructionCount_cons, code]
    exact Nat.lt_add_right _ (by simp)
  | site =>
    simp only [SiteLayout.listing, instructionCount_cons, instructionCount_append,
      ListingItem.isLabel]
    simp

/-- A scaffold ends with the instruction that was there before. -/
theorem SiteLayout.instructionCount_listing (imports : Imports) (host : Host) (s : SiteLayout) :
    instructionCount (s.listing imports host) = s.originalIndex imports host + 1 := by
  simp [SiteLayout.listing, SiteLayout.originalIndex, SiteLayout.fallbackIndex,
    ListingItem.isLabel]
  omega

namespace Weave

variable {m : Module} {imports : Imports} {token : Token} {d : MethodDef} {body woven : Body}
  (w : Weave m imports token d body woven)

/-- The code in front of the instructions. -/
def opening : List ListingItem :=
  prologue imports (hostOf token d body) (calledTokens (w.entries.filterMap Prod.snd))

/-- The position of the code of an instruction in woven code. -/
def start (index : Nat) : Nat :=
  instructionCount w.opening + instructionCount (w.parts.take index).flatten

/-- An instruction that was decoded is read back as it is. -/
theorem instruction?_decoded {i : Instruction} (member : i ∈ w.entries.map Prod.fst)
    (offset : Nat) : (ListingItem.decoded i).instruction? w.label? offset =
      some { i with offset } := by
  have same : Operand.asRead i.op (if i.operand = .none then none else some i.operand) =
      i.operand := by
    split
    case isTrue absent => exact absent.symm
    case isFalse => exact asRead_of_decodeCode w.decoded i member
  show some (Instruction.mk offset i.op (Operand.asRead i.op _)) = _
  rw [same]

/-- There is code behind the prologue. -/
theorem instructionCount_parts_pos (some : w.entries ≠ []) : 0 < instructionCount w.parts.flatten := by
  obtain ⟨first, rest, split⟩ := List.exists_cons_of_ne_nil some
  have split : w.entries = [] ++ first :: rest := split
  obtain ⟨front, part, back, parts, -, here, -⟩ := w.exists_part split
  have positive := here.instructionCount_pos
  rw [parts]
  simp only [List.flatten_append, List.flatten_cons, instructionCount_append]
  omega

variable {c : Code}

theorem instructions_eq (loaded : Code.ofBody woven = .ok (some c)) :
    c.instructions.toList = instructionsFrom w.label? 0 w.items := by
  obtain ⟨decoded, -⟩ := Code.ofBody_eq_ok_iff.mp loaded
  have run := decodeInstructions_of_assemble w.assembled w.offset_lt
  obtain ⟨read, -⟩ := decodeCode_eq_ok_iff.mp decoded
  exact Except.ok.inj (read.symm.trans run)

include w in
theorem ordered (loaded : Code.ofBody woven = .ok (some c)) : c.Ordered := by
  rw [Code.Ordered, w.instructions_eq loaded]
  exact pairwise_offset_instructionsFrom ..

/-- Woven code that was decoded holds the woven listing. -/
theorem holds (loaded : Code.ofBody woven = .ok (some c)) : c.Holds w.label? 0 0 w.items := by
  refine ⟨⟨[], ?_⟩, fun before name after split => ?_⟩
  · rw [List.drop_zero, w.instructions_eq loaded, List.append_nil]
  · have encodes := w.encodes
    rw [split] at encodes
    exact encodes.label_eq.1

/-- Code that can be decoded does not end with a call site. -/
theorem last_kept (loaded : Code.ofBody woven = .ok (some c)) {before : List _}
    {entry : Instruction × Option CallSite} (split : w.entries = before ++ [entry]) :
    entry.2 = none := by
  obtain ⟨decoded, -⟩ := Code.ofBody_eq_ok_iff.mp loaded
  refine w.getLast?_of_decodeCode (by simp [split]) decoded entry ?_
  rw [split, List.getLast?_append]
  rfl

/-- What is held at the position of an instruction. -/
theorem holds_part (loaded : Code.ofBody woven = .ok (some c)) {before after : List _}
    {entry : Instruction × Option CallSite} (split : w.entries = before ++ entry :: after) :
    ∃ part back offset,
      WovenPart m imports (hostOf token d body) (body.locals.length + 1) woven.locals.length entry
        part ∧
      List.Forall₂ (WovenPart m imports (hostOf token d body) (body.locals.length + 1)
        woven.locals.length) after back ∧
      c.Holds w.label? (w.start before.length) offset (part ++ back.flatten) ∧
      w.start (before.length + 1) = w.start before.length + instructionCount part := by
  obtain ⟨front, part, back, parts, behind, here, rest⟩ := w.exists_part split
  have length : before.length = front.length := behind.length_eq
  have taken : w.parts.take before.length = front := by
    rw [parts, length, List.take_left]
  have next : w.parts.take (before.length + 1) = front ++ [part] := by
    rw [parts, length, List.take_append, List.take_of_length_le (Nat.le_succ _),
      Nat.add_sub_cancel_left]
    rfl
  have items : w.items = w.opening ++ front.flatten ++ (part ++ back.flatten) := by
    rw [Weave.items, parts, opening]
    simp
  have holds := w.holds loaded
  rw [items] at holds
  have held := holds.right
  rw [instructionCount_append, Nat.zero_add] at held
  refine ⟨part, back, 0 + listingSize (w.opening ++ front.flatten), here, rest, ?_, ?_⟩
  · rw [start, taken]
    exact held
  · rw [start, start, taken, next]
    simp [Nat.add_assoc]

/-- The label of an instruction is placed at its position. -/
theorem indexOf?_label (loaded : Code.ofBody woven = .ok (some c)) {before after : List _}
    {entry : Instruction × Option CallSite} (split : w.entries = before ++ entry :: after) :
    ∃ target, w.label? (instructionLabel entry.1.offset) = some target ∧
      c.indexOf? target = some (w.start before.length) := by
  obtain ⟨part, back, offset, here, -, held, -⟩ := w.holds_part loaded split
  have positive := here.instructionCount_pos
  obtain ⟨code, rfl, -⟩ := here.exists_code
  obtain ⟨known, behind⟩ := held.label
  refine ⟨offset, known, held.indexOf? (w.ordered loaded) ?_⟩
  rw [instructionCount_append]
  omega

/-- The scaffold of a call site is found at its position. -/
theorem exists_isAt (loaded : Code.ofBody woven = .ok (some c)) {before after : List _}
    {i : Instruction} {site : CallSite} (split : w.entries = before ++ (i, some site) :: after) :
    ∃ (layout : SiteLayout) (first offset : Nat) (tail : List ListingItem),
      layout.IsAt imports (hostOf token d body) c (w.start before.length) w.label? offset tail ∧
      layout.Reserved first site ∧ body.locals.length < first ∧
      first + site.slotTypes.length ≤ woven.locals.length ∧
      (m.types.size ≤ Edit.rowLimit → layout.Named m) ∧
      w.start (before.length + 1) =
        w.start before.length + layout.originalIndex imports (hostOf token d body) + 1 := by
  obtain ⟨part, back, offset, here, rest, held, next⟩ := w.holds_part loaded split
  cases here with
  | @site _ _ layout first above below reserved named =>
    refine ⟨layout, first, offset, back.flatten, ⟨w.ordered loaded, ?_, held.label.2⟩, reserved,
      by omega, below, named, ?_⟩
    · cases rest with
      | nil => cases w.last_kept loaded split
      | cons first _ =>
        have := first.instructionCount_pos
        rw [List.flatten_cons, instructionCount_append]
        omega
    · rw [next, instructionCount_cons, SiteLayout.instructionCount_listing]
      rfl

end Weave

end Interpose
