import Interpose.Proofs.Code.Totality
import Interpose.Proofs.Text.Hex
import Interpose.Proofs.Weaving.Relocation
import Mathlib.Data.List.Nodup

/-!
# The labels of woven code

Woven code places labels of three kinds: two in the prologue, one for each instruction of the method,
and two for each call site.  The names of their places are all different, so none is placed twice, and
the label of an offset is only placed if an instruction of the method starts there.

## Main definitions

* `Landmark` — a place of woven code that has a label, and `Landmark.label`, its name
* `landmarksOf` — the landmarks of an instruction of the method

## Main results

* `Landmark.label_injective` — different places have different labels
* `placedLabels_prologue`, `placedLabels_parts` — the labels that woven code places
* `nodup_landmarks` — no place is labelled twice
* `Weave.moved?_eq_none` — only offsets of instructions are moved
-/

namespace Interpose

/-- A place of woven code that has a label. -/
inductive Landmark where
  | noProvider
  | body
  | instruction (offset : Nat)
  | fallback (offset : Nat)
  | done (offset : Nat)
deriving DecidableEq

namespace Landmark

/-- The label of a place. -/
def label : Landmark → String
  | noProvider => noProviderLabel
  | body => bodyLabel
  | instruction offset => instructionLabel offset
  | fallback offset => "site_" ++ hexPadded 4 offset ++ "_fallback"
  | done offset => "site_" ++ hexPadded 4 offset ++ "_done"

/-- Different places have different labels. -/
theorem label_injective : Function.Injective label := by
  intro a b same
  -- The kinds differ in the first characters, or in the last ones.
  have first := congrArg (·.toList.head?) same
  have last := congrArg (·.toList.reverse.head?) same
  cases a with
  | noProvider =>
    cases b with
    | noProvider => rfl
    | _ => simp [label, noProviderLabel, bodyLabel, instructionLabel, ilLabel] at first last
  | body =>
    cases b with
    | body => rfl
    | _ => simp [label, noProviderLabel, bodyLabel, instructionLabel, ilLabel] at first last
  | instruction offset =>
    cases b with
    | instruction other => rw [ilLabel_injective same]
    | _ => simp [label, noProviderLabel, bodyLabel, instructionLabel, ilLabel] at first
  | fallback offset =>
    cases b with
    | fallback other =>
      have digits : hexPadded 4 offset = hexPadded 4 other := by simpa [label] using same
      rw [hexPadded_injective 4 digits]
    | _ => simp [label, noProviderLabel, bodyLabel, instructionLabel, ilLabel] at first last
  | done offset =>
    cases b with
    | done other =>
      have digits : hexPadded 4 offset = hexPadded 4 other := by simpa [label] using same
      rw [hexPadded_injective 4 digits]
    | _ => simp [label, noProviderLabel, bodyLabel, instructionLabel, ilLabel] at first last

end Landmark

section Operations

variable {imports : Imports} {host : Host} {elements : List (List ListingItem)}

private theorem takesNothing {op : Opcode} (kind : op.operandKind = .none) :
    op.isBranch = false ∧ Emit.operandBytes op none = .ok [] := by
  refine ⟨?_, operandBytes_eq_ok_iff.mpr (kind ▸ .none)⟩
  rw [Opcode.isBranch, kind]
  rfl

/-- An operation on a numbered variable has one of three forms. -/
private theorem isOperation_indexForm {item : ListingItem} {implied : List Opcode}
    {short long : Opcode} {index : UInt16}
    (read : item.operation? = some (indexForm implied short long .localVar index))
    (named : ∀ op ∈ implied, op.operandKind = .none) (near : short.operandKind = .index8)
    (far : long.operandKind = .index16) : item.isOperation = true := by
  rw [ListingItem.isOperation_iff, read]
  unfold indexForm
  split
  case h_1 op found =>
    obtain ⟨plain, takes⟩ := takesNothing (named op (List.mem_of_getElem? found))
    exact ⟨op, none, [], rfl, plain, takes⟩
  case h_2 =>
    by_cases small : index < 256
    · have fits : index.toNat < 0x100 := UInt16.lt_iff_toNat_lt.mp small
      rw [if_pos small]
      refine ⟨_, _, [index.toUInt8], rfl, ?_, operandBytes_eq_ok_iff.mpr (near ▸ .localVar8 fits)⟩
      rw [Opcode.isBranch, near]
      rfl
    · rw [if_neg small]
      refine ⟨_, _, littleEndian 2 index.toNat, rfl, ?_,
        operandBytes_eq_ok_iff.mpr (far ▸ .localVar16 index)⟩
      rw [Opcode.isBranch, far]
      rfl

theorem isOperation_ldloc (n : UInt16) : (ListingItem.ldloc n).isOperation = true :=
  isOperation_indexForm rfl (by decide) rfl rfl

theorem isOperation_stloc (n : UInt16) : (ListingItem.stloc n).isOperation = true :=
  isOperation_indexForm rfl (by decide) rfl rfl

theorem isOperation_int32 (value : Int32) : (ListingItem.int32 value).isOperation = true := by
  have named : ∀ op ∈ impliedConstants, op.operandKind = .none := by decide
  rw [ListingItem.isOperation_iff, ListingItem.operation?]
  unfold constantForm
  split
  case h_1 op found =>
    obtain ⟨plain, takes⟩ := takesNothing (named op (List.mem_of_find?_eq_some found))
    exact ⟨op, none, [], rfl, plain, takes⟩
  case h_2 =>
    by_cases small : -128 ≤ value ∧ value ≤ 127
    · rw [if_pos small]
      exact ⟨_, _, _, rfl, rfl, rfl⟩
    · rw [if_neg small]
      exact ⟨_, _, _, rfl, rfl, rfl⟩

theorem isOperation_loadSelf (host : Host) : host.loadSelf.isOperation = true := by
  unfold Host.loadSelf
  split <;> rfl

theorem all_quoteMethod (imports : Imports) (method : Token) :
    (imports.quoteMethod method).all ListingItem.isOperation = true := rfl

/-- An array is made by operations if its elements are loaded by operations. -/
theorem all_makeArray (element : Token)
    (h : ∀ load ∈ elements, load.all ListingItem.isOperation = true) :
    (makeArray element elements).all ListingItem.isOperation = true := by
  have fill (n : Nat) : (fillFrom n elements).all ListingItem.isOperation = true := by
    induction elements generalizing n with
    | nil => rfl
    | cons load rest ih =>
      obtain ⟨here, others⟩ := List.forall_mem_cons.mp h
      simp only [fillFrom, List.all_append, List.all_cons, List.all_nil, isOperation_int32, here,
        ih others, Bool.and_true]
      rfl
  simp only [makeArray, fillArray_eq_fillFrom, List.all_append, List.all_cons, isOperation_int32,
    fill, Bool.true_and]
  rfl

theorem all_loadObject (slot : Slot) : slot.loadObject.all ListingItem.isOperation = true := by
  unfold Slot.loadObject Slot.reload
  rw [List.all_cons, isOperation_ldloc]
  cases slot.box <;> rfl

theorem all_loadArgument (slot : Slot) : slot.loadArgument.all ListingItem.isOperation = true := by
  unfold Slot.loadArgument
  split
  · rfl
  · exact all_loadObject slot

variable (s : SiteLayout)

theorem all_spills : s.spills.all ListingItem.isOperation = true := by
  simp [SiteLayout.spills, Slot.spill, isOperation_stloc]

theorem all_reloads : s.reloads.all ListingItem.isOperation = true := by
  simp [SiteLayout.reloads, Slot.reload, isOperation_ldloc]

theorem all_makeContext (imports : Imports) (host : Host) :
    (s.makeContext imports host).all ListingItem.isOperation = true := by
  have target : s.loadTarget.all ListingItem.isOperation = true := by
    unfold SiteLayout.loadTarget
    split
    · exact all_loadObject _
    · rfl
  have arguments : (makeArray imports.object (s.arguments.map Slot.loadArgument)).all
      ListingItem.isOperation = true := by
    refine all_makeArray imports.object fun load member => ?_
    obtain ⟨slot, -, rfl⟩ := List.mem_map.mp member
    exact all_loadArgument slot
  simp only [SiteLayout.makeContext, List.all_append, List.all_cons, List.all_nil, target, arguments,
    isOperation_loadSelf, all_quoteMethod, Bool.and_true, Bool.true_and]
  rfl

theorem isOperation_takeResult : s.takeResult.isOperation = true := by
  unfold SiteLayout.takeResult
  split <;> rfl

/-- A prologue places its two labels. -/
theorem placedLabels_prologue (imports : Imports) (host : Host) (called : List Token) :
    placedLabels (prologue imports host called) = [noProviderLabel, bodyLabel] := by
  have quotes : placedLabels (makeArray imports.methodBase (called.map imports.quoteMethod)) = [] := by
    apply placedLabels_of_isOperation
    apply all_makeArray
    intro load member
    obtain ⟨token, -, rfl⟩ := List.mem_map.mp member
    exact all_quoteMethod imports token
  have self : host.loadSelf.placed? = none :=
    ListingItem.placed?_of_isOperation (isOperation_loadSelf host)
  simp only [prologue, placedLabels_append, placedLabels_cons, quotes, self]
  rfl

/-- A scaffold places its two labels. -/
theorem placedLabels_listing (imports : Imports) (host : Host) :
    placedLabels (s.listing imports host) = [s.fallbackLabel, s.doneLabel] := by
  have spills := placedLabels_of_isOperation (all_spills s)
  have reloads := placedLabels_of_isOperation (all_reloads s)
  have context := placedLabels_of_isOperation (all_makeContext s imports host)
  have result := ListingItem.placed?_of_isOperation (isOperation_takeResult s)
  have choice : placedLabels (s.choice imports host) = [] := rfl
  have substitution : placedLabels (s.substitution imports host) = [] := by
    simp only [SiteLayout.substitution, placedLabels_append, placedLabels_cons, context, result]
    rfl
  simp only [SiteLayout.listing, placedLabels_append, spills, reloads, choice, substitution]
  rfl

end Operations

section Parts

variable {m : Module} {imports : Imports} {host : Host} {base limit : Nat}
  {entry : Instruction × Option CallSite} {entries : List (Instruction × Option CallSite)}
  {part : List ListingItem} {parts : List (List ListingItem)}

/-- The places with a label in the code of an instruction of the method. -/
def landmarksOf (entry : Instruction × Option CallSite) : List Landmark :=
  match entry.2 with
  | none => [.instruction entry.1.offset]
  | some _ => [.instruction entry.1.offset, .fallback entry.1.offset, .done entry.1.offset]

theorem exists_offset_of_mem_landmarksOf {place : Landmark} (h : place ∈ landmarksOf entry) :
    place = .instruction entry.1.offset ∨ place = .fallback entry.1.offset ∨
      place = .done entry.1.offset := by
  unfold landmarksOf at h
  split at h
  · exact .inl (List.mem_singleton.mp h)
  · simpa using h

/-- The part of an instruction places the labels of its landmarks. -/
theorem WovenPart.placedLabels_eq (h : WovenPart m imports host base limit entry part)
    (sites : ∀ site, entry.2 = some site → site.IsAt m entry.1) :
    placedLabels part = (landmarksOf entry).map Landmark.label := by
  cases h with
  | @kept i item kept =>
    have none : item.placed? = none := by
      rcases keptItem_eq_ok_iff.mp kept with ⟨-, target, -, rfl⟩ | ⟨-, rfl⟩ <;> rfl
    rw [placedLabels_cons, placedLabels_cons, none]
    rfl
  | @site i site layout first above below reserved named =>
    have offset : layout.site.instruction.offset = i.offset := by
      rw [reserved.site_eq, (sites site rfl).instruction_eq]
    rw [placedLabels_cons, placedLabels_listing, SiteLayout.fallbackLabel, SiteLayout.doneLabel,
      offset]
    rfl

/-- The parts of several instructions place the labels of their landmarks. -/
theorem placedLabels_parts (h : List.Forall₂ (WovenPart m imports host base limit) entries parts)
    (sites : ∀ i site, (i, some site) ∈ entries → site.IsAt m i) :
    placedLabels parts.flatten = (entries.flatMap landmarksOf).map Landmark.label := by
  induction h with
  | nil => rfl
  | @cons entry part entries parts first others ih =>
    have own : ∀ site, entry.2 = some site → site.IsAt m entry.1 := by
      intro site same
      apply sites
      rw [← same]
      exact List.mem_cons_self ..
    rw [List.flatten_cons, placedLabels_append, first.placedLabels_eq own, List.flatMap_cons,
      List.map_append, ih fun i site member => sites i site (List.mem_cons_of_mem _ member)]

/-- A woven method places the labels of its landmarks. -/
theorem placedLabels_woven (h : List.Forall₂ (WovenPart m imports host base limit) entries parts)
    (sites : ∀ i site, (i, some site) ∈ entries → site.IsAt m i) (called : List Token) :
    placedLabels (prologue imports host called ++ parts.flatten) =
      (Landmark.noProvider :: .body :: entries.flatMap landmarksOf).map Landmark.label := by
  rw [placedLabels_append, placedLabels_prologue, placedLabels_parts h sites]
  rfl

/-- No place of woven code is labelled twice. -/
theorem nodup_landmarks
    (increasing : (entries.map Prod.fst).Pairwise (·.offset < ·.offset)) :
    (Landmark.noProvider :: .body :: entries.flatMap landmarksOf).Nodup := by
  have inside {place : Landmark} (member : place ∈ entries.flatMap landmarksOf) :
      place ≠ .noProvider ∧ place ≠ .body := by
    obtain ⟨entry, -, own⟩ := List.mem_flatMap.mp member
    obtain rfl | rfl | rfl := exists_offset_of_mem_landmarksOf own
    all_goals exact ⟨nofun, nofun⟩
  have own (entry : Instruction × Option CallSite) : (landmarksOf entry).Nodup := by
    unfold landmarksOf
    split <;> simp
  have apart : entries.Pairwise fun entry other => List.Disjoint (landmarksOf entry)
      (landmarksOf other) := by
    refine (List.pairwise_map.mp increasing).imp fun {entry other} less place here there => ?_
    -- A landmark tells the offset of the instruction that it belongs to.
    have := exists_offset_of_mem_landmarksOf here
    have := exists_offset_of_mem_landmarksOf there
    grind
  have parts : (entries.flatMap landmarksOf).Nodup :=
    List.nodup_flatMap.mpr ⟨fun entry _ => own entry, apart⟩
  refine List.nodup_cons.mpr ⟨?_, List.nodup_cons.mpr ⟨fun member => (inside member).2 rfl, parts⟩⟩
  intro member
  obtain same | other := List.mem_cons.mp member
  · cases same
  · exact (inside other).1 rfl

end Parts

namespace Weave

variable {m : Module} {imports : Imports} {token : Token} {d : MethodDef} {body woven : Body}
  (w : Weave m imports token d body woven)

/-- The labels that are placed in woven code. -/
theorem placedLabels_items : placedLabels w.items =
    (Landmark.noProvider :: .body :: w.entries.flatMap landmarksOf).map Landmark.label :=
  placedLabels_woven w.parts_of_entries w.sites _

/-- Only where an instruction of the method starts, the label of an offset is placed. -/
theorem exists_entry_of_label? {offset target : Nat}
    (known : w.label? (instructionLabel offset) = some target) :
    ∃ entry ∈ w.entries, entry.1.offset = offset := by
  have placed := mem_placedLabels_iff.mpr (label_mem_of_assemble w.assembled known)
  rw [← Weave.items, w.placedLabels_items] at placed
  obtain ⟨place, member, same⟩ := List.mem_map.mp placed
  have same : place.label = (Landmark.instruction offset).label := same
  obtain rfl := Landmark.label_injective same
  simp only [List.mem_cons, reduceCtorEq, false_or, List.mem_flatMap] at member
  obtain ⟨entry, inside, own⟩ := member
  obtain here | other | other := exists_offset_of_mem_landmarksOf own
  · exact ⟨entry, inside, (Landmark.instruction.inj here).symm⟩
  · cases other
  · cases other

/-- Offsets at which no instruction of the method starts are not moved. -/
theorem moved?_eq_none {offset : UInt32} (none : ∀ entry ∈ w.entries,
    entry.1.offset ≠ offset.toNat) : w.moved? offset = .none := by
  unfold moved?
  cases known : w.label? (instructionLabel offset.toNat) with
  | none => rfl
  | some target =>
    obtain ⟨entry, inside, here⟩ := w.exists_entry_of_label? known
    exact absurd here (none entry inside)

end Weave

end Interpose
