import Interpose.Proofs.Weaving.CallSites
import Interpose.Proofs.Weaving.Relocation

/-!
# The instructions of woven code

Woven code, decoded one instruction at a time, is the prologue and then, for each instruction of the
method, either the instruction itself or the scaffold of a call site, which ends with it.

## Main definitions

* `localVars` — the local variables that a listing names
* `Weave.codeOffset` — the offset of the code of an instruction in woven code
* `Segment` — the instructions that woven code has for one instruction of the method
* `IsWovenStream` — the instructions of woven code

## Main results

* `Weave.isWovenStream` — woven code has such instructions
* `isWovenStream_of_interceptCalls` — what the code of a method whose calls are intercepted is
  decoded to
-/

namespace Interpose

section Listings

variable {labels : String → Option Nat} {offset : Nat} {items first second : List ListingItem}
  {code : List UInt8}

/-- Code of two listings, one behind the other, is that of the first and that of the second. -/
theorem Encodes.of_append (h : Encodes labels offset (first ++ second) code) :
    ∃ front back, code = front ++ back ∧ Encodes labels offset first front ∧
      Encodes labels (offset + listingSize first) second back := by
  induction first generalizing offset code with
  | nil => exact ⟨[], code, rfl, .nil offset, h⟩
  | cons item rest ih =>
    rw [listingSize_cons, ← Nat.add_assoc]
    cases h with
    | label named small later =>
      obtain ⟨front, back, rfl, own, other⟩ := ih later
      exact ⟨front, back, rfl, .label named small own, by simpa using other⟩
    | branch jumps named length takes later =>
      obtain ⟨front, back, rfl, own, other⟩ := ih later
      exact ⟨_, back, (List.append_assoc ..).symm, .branch jumps named length takes own, other⟩
    | operation known length takes none later =>
      obtain ⟨front, back, rfl, own, other⟩ := ih later
      rw [ListingItem.size_of_operation known]
      exact ⟨_, back, (List.append_assoc ..).symm, .operation known length takes none own, other⟩

theorem Encodes.of_label {name : String} (h : Encodes labels offset (.label name :: items) code) :
    Encodes labels offset items code := by
  cases h with
  | label _ _ rest => exact rest
  | operation known => cases known

theorem instructionsFrom_label (name : String) (items : List ListingItem) :
    instructionsFrom labels offset (.label name :: items) = instructionsFrom labels offset items :=
  rfl

/-- Where the first of several instructions is found. -/
def firstOffset? (instructions : List Instruction) : Option Nat :=
  instructions.head?.map (·.offset)

/-- The instructions of a listing begin where the listing is placed. -/
theorem firstOffset?_instructionsFrom (labels : String → Option Nat) (offset : Nat)
    (some : 0 < listingSize items) :
    firstOffset? (instructionsFrom labels offset items) = .some offset := by
  obtain ⟨i, member, here⟩ := exists_offset_eq labels offset some
  have ordered := pairwise_offset_instructionsFrom labels offset items
  cases instructions : instructionsFrom labels offset items with
  | nil =>
    rw [instructions] at member
    cases member
  | cons j rest =>
    have above : offset ≤ j.offset :=
      le_offset_of_mem_instructionsFrom (instructions ▸ List.mem_cons_self ..)
    rw [instructions] at member ordered
    rcases List.mem_cons.mp member with rfl | later
    · exact congrArg Option.some here
    · have := (List.pairwise_cons.mp ordered).1 i later
      omega

/-- The instructions of several listings that are placed one behind the other. -/
def segmentsFrom (labels : String → Option Nat) : (offset : Nat) → List (List ListingItem) →
    List (List Instruction)
  | _, [] => []
  | offset, part :: rest =>
    instructionsFrom labels offset part :: segmentsFrom labels (offset + listingSize part) rest

theorem flatten_segmentsFrom (labels : String → Option Nat) (offset : Nat)
    (parts : List (List ListingItem)) :
    (segmentsFrom labels offset parts).flatten = instructionsFrom labels offset parts.flatten := by
  induction parts generalizing offset with
  | nil => rfl
  | cons part rest ih =>
    rw [segmentsFrom, List.flatten_cons, List.flatten_cons, ih, instructionsFrom_append]

theorem length_segmentsFrom (labels : String → Option Nat) (offset : Nat)
    (parts : List (List ListingItem)) : (segmentsFrom labels offset parts).length = parts.length := by
  induction parts generalizing offset with
  | nil => rfl
  | cons part rest ih => rw [segmentsFrom, List.length_cons, List.length_cons, ih]

theorem getElem?_segmentsFrom (labels : String → Option Nat) (offset : Nat)
    (parts : List (List ListingItem)) (index : Nat) :
    (segmentsFrom labels offset parts)[index]? = parts[index]?.map
      (instructionsFrom labels (offset + listingSize (parts.take index).flatten)) := by
  induction parts generalizing offset index with
  | nil => rfl
  | cons part rest ih =>
    cases index with
    | zero => rfl
    | succ index =>
      rw [segmentsFrom, List.getElem?_cons_succ, List.getElem?_cons_succ, ih, List.take_succ_cons,
        List.flatten_cons, listingSize_append, Nat.add_assoc]

/-- The local variable that an item names. -/
def ListingItem.localVar? (item : ListingItem) : Option UInt16 :=
  (item.instruction? (fun _ => none) 0).bind Instruction.localVar?

/-- The local variables that a listing names. -/
def localVars (items : List ListingItem) : List UInt16 := items.filterMap ListingItem.localVar?

@[simp] theorem localVars_nil : localVars [] = [] := rfl

@[simp] theorem localVars_cons (item : ListingItem) (rest : List ListingItem) :
    localVars (item :: rest) = item.localVar?.toList ++ localVars rest := by
  rw [localVars, List.filterMap_cons]
  cases item.localVar? <;> rfl

@[simp] theorem localVars_append (first second : List ListingItem) :
    localVars (first ++ second) = localVars first ++ localVars second :=
  List.filterMap_append

/-- An instruction of a listing names the local variable that its item does. -/
theorem ListingItem.localVar?_of_instruction? {item : ListingItem} {i : Instruction}
    (h : item.instruction? labels offset = some i) : i.localVar? = item.localVar? := by
  cases item with
  | label => cases h
  | branch op name =>
    cases h
    simp only [localVar?, instruction?, Option.bind_some, Instruction.localVar?]
    cases op.impliedLocal? <;> rfl
  | _ =>
    cases h
    rfl

theorem mem_localVars_of_mem {i : Instruction} {n : UInt16}
    (member : i ∈ instructionsFrom labels offset items) (names : i.localVar? = some n) :
    n ∈ localVars items := by
  induction items generalizing offset with
  | nil => cases member
  | cons item rest ih =>
    rw [instructionsFrom, List.mem_append, Option.mem_toList] at member
    rw [localVars_cons, List.mem_append, Option.mem_toList]
    rcases member with own | other
    · exact .inl ((ListingItem.localVar?_of_instruction? own).symm.trans names)
    · exact .inr (ih other)

end Listings

section Scaffolds

variable {imports : Imports} {host : Host} {s : SiteLayout} {first : Nat} {site : CallSite}

private theorem localVar?_indexForm {implied : List Opcode} {short long : Opcode} {index : UInt16}
    (named : ∀ k, (h : k < implied.length) → implied[k].impliedLocal? = some (UInt16.ofNat k))
    (unnamed : short.impliedLocal? = none ∧ long.impliedLocal? = none)
    (indexed : short.namesArgument = false ∧ long.namesArgument = false) :
    (Instruction.mk 0 (indexForm implied short long .localVar index).1 (Operand.asRead
      (indexForm implied short long .localVar index).1
      (indexForm implied short long .localVar index).2)).localVar? = some index := by
  unfold indexForm
  split
  case h_1 op found =>
    obtain ⟨inside, rfl⟩ := List.getElem?_eq_some_iff.mp found
    simp [Instruction.localVar?, named _ inside]
  case h_2 =>
    split <;>
      simp [Instruction.localVar?, unnamed, Operand.asRead, Operand.ofIndex, indexed]

@[simp] theorem localVar?_ldloc (n : UInt16) : (ListingItem.ldloc n).localVar? = some n :=
  localVar?_indexForm (by decide) ⟨rfl, rfl⟩ ⟨rfl, rfl⟩

@[simp] theorem localVar?_stloc (n : UInt16) : (ListingItem.stloc n).localVar? = some n :=
  localVar?_indexForm (by decide) ⟨rfl, rfl⟩ ⟨rfl, rfl⟩

/-- Loading a constant names no local variable. -/
@[simp] theorem localVar?_int32 (value : Int32) : (ListingItem.int32 value).localVar? = none := by
  show (Instruction.localVar? ⟨0, (constantForm value).1,
    Operand.asRead (constantForm value).1 (constantForm value).2⟩) = none
  unfold constantForm
  split
  case h_1 op found =>
    have constants : ∀ op ∈ impliedConstants, op.impliedLocal? = none := by decide
    simp [Instruction.localVar?, constants op (List.mem_of_find?_eq_some found), Operand.asRead]
  case h_2 => split <;> rfl

@[simp] theorem localVar?_plain (op : Opcode) :
    (ListingItem.plain op).localVar? = op.impliedLocal? := by
  show Instruction.localVar? ⟨0, op, .none⟩ = op.impliedLocal?
  unfold Instruction.localVar?
  cases op.impliedLocal? <;> rfl

@[simp] theorem localVar?_withToken (op : Opcode) (token : Token) :
    (ListingItem.withToken op token).localVar? = op.impliedLocal? := by
  show Instruction.localVar? ⟨0, op, .token token⟩ = op.impliedLocal?
  unfold Instruction.localVar?
  cases op.impliedLocal? <;> rfl

@[simp] theorem localVar?_branch (op : Opcode) (name : String) :
    (ListingItem.branch op name).localVar? = op.impliedLocal? := by
  show Instruction.localVar? ⟨0, op, .target 0⟩ = op.impliedLocal?
  unfold Instruction.localVar?
  cases op.impliedLocal? <;> rfl

@[simp] theorem localVar?_label (name : String) : (ListingItem.label name).localVar? = none := rfl

@[simp] theorem localVar?_loadSelf : host.loadSelf.localVar? = none := by
  unfold Host.loadSelf
  split <;> rfl

@[simp] theorem localVars_quoteMethod (method : Token) :
    localVars (imports.quoteMethod method) = [] := rfl

/-- Filling an array names the local variables that loading its elements does. -/
@[simp] theorem localVars_makeArray (element : Token) (elements : List (List ListingItem)) :
    localVars (makeArray element elements) = elements.flatMap localVars := by
  have fill (n : Nat) : localVars (fillFrom n elements) = elements.flatMap localVars := by
    induction elements generalizing n with
    | nil => rfl
    | cons load rest ih =>
      simp [fillFrom, ih, Opcode.impliedLocal?]
  simp [makeArray, fillArray_eq_fillFrom, fill, Opcode.impliedLocal?]

@[simp] theorem localVars_loadObject (slot : Slot) :
    localVars slot.loadObject = [slot.number] := by
  unfold Slot.loadObject
  cases slot.box <;> simp [Slot.reload, Opcode.impliedLocal?]

theorem localVars_loadArgument (slot : Slot) :
    localVars slot.loadArgument = if slot.type.isByRef then [] else [slot.number] := by
  unfold Slot.loadArgument
  split
  · rfl
  · exact localVars_loadObject slot

/-- A prologue names the local variable of the call map only. -/
theorem localVars_prologue (called : List Token) :
    localVars (prologue imports host called) = [host.mapLocal] := by
  have quotes : (called.map imports.quoteMethod).flatMap localVars = [] := by simp
  simp [prologue, quotes, Imports.call, Opcode.impliedLocal?]

/-- A scaffold names the local variable of the call map and those of its call site. -/
theorem mem_localVars_listing {n : UInt16} (h : n ∈ localVars (s.listing imports host))
    (calls : (ListingItem.decoded s.site.instruction).localVar? = none) :
    n = host.mapLocal ∨ n ∈ s.slots.map Slot.number := by
  -- The parts of a scaffold, one after the other, and which local variables they name.
  have spills : localVars s.spills = (s.arguments.reverse ++ s.receiver.toList).map Slot.number := by
    simp [SiteLayout.spills, localVars, List.filterMap_map, Function.comp_def, Slot.spill,
      List.map_reverse]
  have reloads : localVars s.reloads = s.slots.map Slot.number := by
    simp [SiteLayout.reloads, SiteLayout.slots, localVars, List.filterMap_map, Function.comp_def,
      Slot.reload]
  have target : ∀ n ∈ localVars s.loadTarget, n ∈ s.slots.map Slot.number := by
    unfold SiteLayout.loadTarget SiteLayout.slots
    cases s.receiver <;> simp [Opcode.impliedLocal?]
  have loads : ∀ n ∈ (s.arguments.map Slot.loadArgument).flatMap localVars,
      n ∈ s.slots.map Slot.number := by
    intro n member
    obtain ⟨_, found, names⟩ := List.mem_flatMap.mp member
    obtain ⟨slot, inside, rfl⟩ := List.mem_map.mp found
    rw [localVars_loadArgument] at names
    split at names
    · cases names
    · rw [List.mem_singleton] at names
      exact List.mem_map.mpr ⟨slot, List.mem_append_right _ inside, names.symm⟩
  have result : s.takeResult.localVar? = none := by
    unfold SiteLayout.takeResult
    cases s.result <;> simp [Opcode.impliedLocal?]
  have own : ∀ n ∈ (s.arguments.reverse ++ s.receiver.toList).map Slot.number,
      n ∈ s.slots.map Slot.number := by
    intro n member
    rw [List.map_append, List.map_reverse, List.mem_append, List.mem_reverse] at member
    rw [SiteLayout.slots, List.map_append, List.mem_append]
    exact member.symm
  simp only [SiteLayout.listing, SiteLayout.choice, SiteLayout.substitution, SiteLayout.makeContext,
    Imports.call, Imports.callOn, localVars_append, localVars_cons, localVars_nil, localVar?_ldloc,
    localVar?_branch, localVar?_withToken, localVar?_label, localVar?_loadSelf,
    localVars_quoteMethod, localVars_makeArray, Opcode.impliedLocal?, result, calls,
    Option.toList_some, Option.toList_none, List.append_nil, List.nil_append, List.mem_append,
    List.mem_singleton, spills, reloads] at h
  grind

/-- The code of a call site in front of the instruction that was there before. -/
def SiteLayout.scaffold (imports : Imports) (host : Host) (s : SiteLayout) : List ListingItem :=
  s.spills ++ s.choice imports host ++ s.substitution imports host ++ [.label s.fallbackLabel] ++
    s.reloads

theorem SiteLayout.listing_eq_scaffold : s.listing imports host =
    s.scaffold imports host ++ [.decoded s.site.instruction, .label s.doneLabel] := by
  simp [listing, scaffold]

/-- The branches of a scaffold go to one of its instructions or to the place behind it. -/
theorem SiteLayout.target_of_scaffold {labels : String → Option Nat} {offset : Nat}
    {code : List UInt8} (encodes : Encodes labels offset (s.listing imports host) code)
    {i : Instruction} (member : i ∈ instructionsFrom labels offset (s.scaffold imports host))
    {target : Nat} (goes : i.target? = some target) :
    (∃ j ∈ instructionsFrom labels offset (s.listing imports host), j.offset = target) ∨
      target = offset + listingSize (s.listing imports host) := by
  have branches := branchLabels_listing imports host s
  rw [listing_eq_scaffold] at encodes branches
  obtain ⟨front, -, -, own, -⟩ := encodes.of_append
  obtain ⟨op, name, inside, named⟩ := own.exists_branch_of_target member goes
  have known : name = s.fallbackLabel ∨ name = s.doneLabel := by
    have branched := mem_branchLabels_iff.mpr ⟨op, inside⟩
    rw [branchLabels_append] at branches
    have all : name ∈ [s.fallbackLabel, s.fallbackLabel, s.doneLabel] :=
      branches ▸ List.mem_append_left _ branched
    simpa using all
  rcases known with rfl | rfl
  · -- The fallback label is in front of the code that puts the values back.
    have split : s.scaffold imports host ++ [.decoded s.site.instruction, .label s.doneLabel] =
        (s.spills ++ s.choice imports host ++ s.substitution imports host) ++
          .label s.fallbackLabel ::
            (s.reloads ++ [.decoded s.site.instruction, .label s.doneLabel]) := by
      simp [scaffold]
    rw [split] at encodes
    rw [encodes.label_eq.1, Option.some.injEq] at named
    have positive : 0 < listingSize (.label s.fallbackLabel ::
        (s.reloads ++ [.decoded s.site.instruction, .label s.doneLabel])) := by
      have : 0 < (ListingItem.decoded s.site.instruction).size := ListingItem.size_pos rfl
      simp only [listingSize_cons, listingSize_append]
      omega
    obtain ⟨j, found, here⟩ := exists_offset_eq labels target positive
    refine .inl ⟨j, ?_, here⟩
    rw [listing_eq_scaffold, split, instructionsFrom_append, named]
    exact List.mem_append_right _ found
  · -- The other label is the last item, so it is where the scaffold ends.
    have split : s.scaffold imports host ++ [.decoded s.site.instruction, .label s.doneLabel] =
        (s.scaffold imports host ++ [.decoded s.site.instruction]) ++ [.label s.doneLabel] := by
      simp
    rw [split] at encodes
    rw [encodes.label_eq.1, Option.some.injEq] at named
    refine .inr (named.symm.trans ?_)
    rw [listing_eq_scaffold]
    simp

end Scaffolds

section Locals

variable {m : Module} {imports : Imports} {host : Host} {base limit : Nat} {i : Instruction}
  {site : CallSite} {part : List ListingItem}

theorem CallSite.IsAt.operand_eq (h : site.IsAt m i) : i.operand = .token site.token := by
  have known := h.token_eq
  unfold Instruction.token? at known
  split at known
  case h_1 token named => rw [named, Option.some.inj known]
  case h_2 => cases known

/-- A call names no local variable. -/
theorem CallSite.IsAt.localVar?_decoded (h : site.IsAt m i) :
    (ListingItem.decoded i).localVar? = none := by
  have op : i.op.impliedLocal? = none := by
    have calls := h.isCall
    simp only [Instruction.isCall, Instruction.isConstruction, Bool.or_eq_true,
      decide_eq_true_eq] at calls
    rcases calls with (same | same) | same <;> rw [same] <;> rfl
  simp [ListingItem.localVar?, ListingItem.instruction?, ListingItem.operation?, h.operand_eq,
    Operand.asRead, Instruction.localVar?, op]

/-- A scaffold names the local variable of the call map and others from the range of its part. -/
theorem WovenPart.localVar_bounds
    (h : WovenPart m imports host base limit (i, some site) part) (is : site.IsAt m i) {n : UInt16}
    (names : n ∈ localVars part) : n = host.mapLocal ∨ base ≤ n.toNat ∧ n.toNat < limit := by
  cases h with
  | @site _ _ layout first above below reserved named =>
    have calls : (ListingItem.decoded layout.site.instruction).localVar? = none := by
      rw [reserved.site_eq, is.instruction_eq]
      exact is.localVar?_decoded
    refine (mem_localVars_listing names calls).imp_right fun member => ?_
    have number : n.toNat ∈ layout.slots.map (·.number.toNat) := by
      obtain ⟨slot, inside, rfl⟩ := List.mem_map.mp member
      exact List.mem_map.mpr ⟨slot, inside, rfl⟩
    have length := reserved.length_slots
    rw [reserved.numbers, List.mem_range'_1] at number
    omega

end Locals

/-- The code that is emitted for the instruction at one offset is found at the other. -/
def MovesTo (entries : List (Instruction × Option CallSite)) (segments : List (List Instruction))
    (old new : Nat) : Prop :=
  ∃ entry ∈ entries.zip segments, entry.1.1.offset = old ∧ firstOffset? entry.2 = some new

/-- An instruction is kept as another one.  Branches are in their long form and go where the code of
their targets has gone. -/
def Instruction.IsKeptAs (moves : Nat → Nat → Prop) (i j : Instruction) : Prop :=
  if i.op.isBranch then
    j.op = i.op.widened ∧ ∃ old new, i.operand = .target old ∧ moves old new ∧
      j.operand = .target new
  else j.op = i.op ∧ j.operand = i.operand

/-- The instructions that woven code has for one instruction of the method: the instruction itself,
or a scaffold, which ends with it. -/
inductive Segment (moves : Nat → Nat → Prop) (mapLocal limit : Nat) :
    Instruction × Option CallSite → List Instruction → Prop
  | kept {i j : Instruction} : i.IsKeptAs moves j → Segment moves mapLocal limit (i, none) [j]
  | site {i j : Instruction} {site : CallSite} {scaffold : List Instruction} :
      j.op = i.op → j.operand = i.operand →
      -- Branches stay in the scaffold or go right behind it.
      (∀ a ∈ scaffold, ∀ target, a.target? = some target →
        (∃ b ∈ scaffold ++ [j], b.offset = target) ∨ target = j.next) →
      (∀ a ∈ scaffold ++ [j], ∀ n, a.localVar? = some n →
        mapLocal ≤ n.toNat ∧ n.toNat < limit) →
      Segment moves mapLocal limit (i, some site) (scaffold ++ [j])

/-- Instructions of woven code: those of the prologue, and a segment for each instruction of the
method. -/
structure IsWovenStream (entries : List (Instruction × Option CallSite)) (mapLocal limit : Nat)
    (opening : List Instruction) (segments : List (List Instruction)) : Prop where
  segment : List.Forall₂ (Segment (MovesTo entries segments) mapLocal limit) entries segments
  /-- The branches of the prologue stay in it or go right behind it. -/
  opening_target : ∀ a ∈ opening, ∀ target, a.target? = some target →
    (∃ b ∈ opening, b.offset = target) ∨ firstOffset? segments.flatten = some target
  opening_local : ∀ a ∈ opening, ∀ n, a.localVar? = some n → n.toNat = mapLocal
  increasing : (opening ++ segments.flatten).Pairwise (·.offset < ·.offset)
  moves : ∀ {old old' new new'}, MovesTo entries segments old new →
    MovesTo entries segments old' new' → old < old' → new < new'
  /-- Two call sites share no local variable but that of the call map. -/
  apart : (entries.zip segments).Pairwise fun first second =>
    first.1.2.isSome → second.1.2.isSome → ∀ a ∈ first.2, ∀ b ∈ second.2, ∀ n,
      a.localVar? = some n → b.localVar? = some n → n.toNat = mapLocal

namespace Weave

variable {m : Module} {imports : Imports} {token : Token} {d : MethodDef} {body woven : Body}
  (w : Weave m imports token d body woven)

/-- The offset of the code of an instruction in woven code. -/
def codeOffset (index : Nat) : Nat :=
  listingSize w.opening + listingSize (w.parts.take index).flatten

/-- The instructions of woven code for each instruction of the method. -/
def segments : List (List Instruction) := segmentsFrom w.label? (listingSize w.opening) w.parts

theorem instructions_eq_append :
    w.instructions = instructionsFrom w.label? 0 w.opening ++ w.segments.flatten := by
  rw [segments, flatten_segmentsFrom, instructions, Weave.items, instructionsFrom_append, opening,
    Nat.zero_add]

/-- Woven code is decoded to its instructions if its branches are not looked at. -/
theorem decodeInstructions_eq : Read.run (decodeInstructions woven.code.length)
    woven.code.toArray = .ok (instructionsFrom w.label? 0 w.opening ++ w.segments.flatten) := by
  rw [← w.instructions_eq_append]
  exact decodeInstructions_of_assemble w.assembled w.offset_lt

theorem length_parts : w.parts.length = w.entries.length := w.parts_of_entries.length_eq.symm

theorem exists_getElem?_parts {index : Nat} {entry : Instruction × Option CallSite}
    (h : w.entries[index]? = some entry) : ∃ part, w.parts[index]? = some part ∧
      WovenPart m imports (hostOf token d body) (body.locals.length + 1) woven.locals.length entry
        part := by
  obtain ⟨inside, rfl⟩ := List.getElem?_eq_some_iff.mp h
  have inside' : index < w.parts.length := w.length_parts ▸ inside
  exact ⟨w.parts[index], List.getElem?_eq_getElem inside',
    (List.forall₂_iff_get.mp w.parts_of_entries).2 index inside inside'⟩

theorem codeOffset_succ {index : Nat} {part : List ListingItem} (h : w.parts[index]? = some part) :
    w.codeOffset (index + 1) = w.codeOffset index + listingSize part := by
  obtain ⟨inside, rfl⟩ := List.getElem?_eq_some_iff.mp h
  rw [codeOffset, codeOffset, List.take_succ_eq_append_getElem inside, List.flatten_append,
    listingSize_append]
  simp [Nat.add_assoc]

theorem codeOffset_le {first second : Nat} (before : first ≤ second) :
    w.codeOffset first ≤ w.codeOffset second := by
  obtain ⟨between, same⟩ := List.take_prefix_take_left before (l := w.parts)
  rw [codeOffset, codeOffset, ← same, List.flatten_append, listingSize_append]
  omega

/-- The code of each instruction is behind that of the instructions before it. -/
theorem codeOffset_lt {first second : Nat} (before : first < second)
    (inside : first < w.entries.length) : w.codeOffset first < w.codeOffset second := by
  obtain ⟨part, here, woven⟩ := w.exists_getElem?_parts (List.getElem?_eq_getElem inside)
  have positive := woven.listingSize_pos
  have step := w.codeOffset_succ here
  have next : first + 1 ≤ second := before
  have := w.codeOffset_le next
  omega

/-- The instructions of a method are found in their order. -/
theorem offset_lt_offset {first second : Nat} {entry entry' : Instruction × Option CallSite}
    (here : w.entries[first]? = some entry) (there : w.entries[second]? = some entry')
    (before : first < second) : entry.1.offset < entry'.1.offset := by
  obtain ⟨inside, rfl⟩ := List.getElem?_eq_some_iff.mp here
  obtain ⟨inside', rfl⟩ := List.getElem?_eq_some_iff.mp there
  have increasing := List.pairwise_map.mp (pairwise_offset_of_decodeCode w.decoded)
  exact List.pairwise_iff_getElem.mp increasing first second inside inside' before

theorem label?_instructionLabel {index : Nat} {entry : Instruction × Option CallSite}
    (h : w.entries[index]? = some entry) :
    w.label? (instructionLabel entry.1.offset) = some (w.codeOffset index) := (w.label?_eq h).1

theorem getElem?_segments {index : Nat} {part : List ListingItem} (h : w.parts[index]? = some part) :
    w.segments[index]? = some (instructionsFrom w.label? (w.codeOffset index) part) := by
  rw [segments, getElem?_segmentsFrom, h]
  rfl

/-- The code of an instruction is found at its offset. -/
theorem movesTo_iff {old new : Nat} : MovesTo w.entries w.segments old new ↔
    ∃ index entry, w.entries[index]? = some entry ∧ entry.1.offset = old ∧
      w.codeOffset index = new := by
  have first {index : Nat} {entry : Instruction × Option CallSite}
      (h : w.entries[index]? = some entry) : ∃ segment, w.segments[index]? = some segment ∧
        firstOffset? segment = some (w.codeOffset index) := by
    obtain ⟨part, here, woven⟩ := w.exists_getElem?_parts h
    exact ⟨_, w.getElem?_segments here,
      firstOffset?_instructionsFrom _ _ woven.listingSize_pos⟩
  constructor
  · rintro ⟨⟨entry, segment⟩, member, rfl, starts⟩
    obtain ⟨index, here⟩ := List.mem_iff_getElem?.mp member
    obtain ⟨found, own⟩ := List.getElem?_zip_eq_some.mp here
    obtain ⟨segment', own', starts'⟩ := first found
    rw [own, Option.some.injEq] at own'
    subst own'
    exact ⟨index, entry, found, rfl, Option.some.inj (starts'.symm.trans starts)⟩
  · rintro ⟨index, entry, found, rfl, rfl⟩
    obtain ⟨segment, own, starts⟩ := first found
    exact ⟨(entry, segment), List.mem_iff_getElem?.mpr
      ⟨index, List.getElem?_zip_eq_some.mpr ⟨found, own⟩⟩, rfl, starts⟩

/-- The code of an instruction, between that of the instructions before and behind it. -/
theorem encodes_part {index : Nat} {part : List ListingItem} (h : w.parts[index]? = some part) :
    ∃ code, Encodes w.label? (w.codeOffset index) part code := by
  obtain ⟨inside, rfl⟩ := List.getElem?_eq_some_iff.mp h
  have parts : w.parts = w.parts.take index ++ w.parts[index] :: w.parts.drop (index + 1) := by
    rw [List.getElem_cons_drop, List.take_append_drop]
  have flat := congrArg List.flatten parts
  rw [List.flatten_append, List.flatten_cons] at flat
  have encodes := w.encodes
  rw [Weave.items, flat, ← List.append_assoc] at encodes
  obtain ⟨_, _, -, -, behind⟩ := encodes.of_append
  obtain ⟨code, _, -, own, -⟩ := behind.of_append
  rw [listingSize_append, Nat.zero_add] at own
  exact ⟨code, own⟩

/-- An instruction that is kept is decoded again. -/
theorem isKeptAs_of_keptItem {i : Instruction} {item : ListingItem}
    (member : i ∈ w.entries.map Prod.fst) (kept : keptItem i = .ok item) (offset : Nat) :
    ∃ j, item.instruction? w.label? offset = some j ∧
      i.IsKeptAs (MovesTo w.entries w.segments) j := by
  unfold Instruction.IsKeptAs
  rcases keptItem_eq_ok_iff.mp kept with ⟨branches, target, goes, rfl⟩ | ⟨straight, rfl⟩
  · obtain ⟨-, none⟩ := decodeCode_eq_ok_iff.mp w.decoded
    obtain ⟨j, found, there⟩ := strayBranch?_eq_none_iff.mp none i member target goes
    obtain ⟨entry, inside, rfl⟩ := List.mem_map.mp found
    obtain ⟨index, here⟩ := List.mem_iff_getElem?.mp inside
    refine ⟨_, rfl, ?_⟩
    rw [if_pos branches, ← there, w.label?_instructionLabel here]
    exact ⟨rfl, target, w.codeOffset index, Instruction.target?_eq_some_iff.mp goes,
      w.movesTo_iff.mpr ⟨index, entry, here, there, rfl⟩, rfl⟩
  · refine ⟨_, w.instruction?_decoded member offset, ?_⟩
    rw [if_neg (Bool.eq_false_iff.mp straight)]
    exact ⟨rfl, rfl⟩

/-- The instructions of woven code for one instruction of the method. -/
theorem segment_of_getElem? {index : Nat} {entry : Instruction × Option CallSite}
    {part : List ListingItem} (h : w.entries[index]? = some entry)
    (woven' : WovenPart m imports (hostOf token d body) (body.locals.length + 1)
      woven.locals.length entry part) (here : w.parts[index]? = some part) :
    Segment (MovesTo w.entries w.segments) body.locals.length woven.locals.length entry
      (instructionsFrom w.label? (w.codeOffset index) part) := by
  have member := List.mem_of_getElem? h
  cases woven' with
  | @kept i item kept =>
    obtain ⟨j, read, keeps⟩ :=
      w.isKeptAs_of_keptItem (List.mem_map.mpr ⟨_, member, rfl⟩) kept (w.codeOffset index)
    rw [instructionsFrom_label, instructionsFrom, read]
    exact .kept keeps
  | @site i site layout first above below reserved named =>
    have is := w.sites i site member
    have instruction_eq : layout.site.instruction = i := by
      rw [reserved.site_eq, is.instruction_eq]
    have inside : i ∈ w.entries.map Prod.fst := List.mem_map.mpr ⟨_, member, rfl⟩
    obtain ⟨code, encodes⟩ := w.encodes_part here
    have encodes := encodes.of_label
    -- The scaffold of a call site stands in front of the instruction that was there before.
    let offset := w.codeOffset index + listingSize (layout.scaffold imports (hostOf token d body))
    have segment : instructionsFrom w.label? (w.codeOffset index)
        (layout.listing imports (hostOf token d body)) =
        instructionsFrom w.label? (w.codeOffset index)
          (layout.scaffold imports (hostOf token d body)) ++ [{ i with offset }] := by
      rw [SiteLayout.listing_eq_scaffold, instructionsFrom_append, instruction_eq, instructionsFrom,
        w.instruction?_decoded inside]
      rfl
    have size : w.codeOffset index + listingSize (layout.listing imports (hostOf token d body)) =
        Instruction.next { i with offset } := by
      rw [SiteLayout.listing_eq_scaffold, instruction_eq]
      simp [Instruction.next, Instruction.size, offset, ListingItem.size, ListingItem.opcode?,
        ListingItem.operation?, Nat.add_assoc]
    rw [instructionsFrom_label, segment]
    refine .site rfl rfl (fun a found target goes => ?_) fun a found n names => ?_
    · rw [← segment, ← size]
      exact SiteLayout.target_of_scaffold encodes found goes
    · rw [← segment, ← instructionsFrom_label (instructionLabel i.offset)] at found
      have used := (WovenPart.site above below reserved named).localVar_bounds is
        (mem_localVars_of_mem found names)
      have mapLocal : (hostOf token d body).mapLocal.toNat = body.locals.length :=
        UInt16.toNat_ofNat_of_lt w.mapLocal_lt
      have more := congrArg List.length w.locals_eq
      rw [List.length_append, List.length_cons] at more
      rcases used with rfl | inside
      · omega
      · omega

/-- The branches of the prologue stay in it or go right behind it. -/
theorem target_of_opening (some : w.entries ≠ []) {i : Instruction}
    (member : i ∈ instructionsFrom w.label? 0 w.opening) {target : Nat}
    (goes : i.target? = .some target) :
    (∃ j ∈ instructionsFrom w.label? 0 w.opening, j.offset = target) ∨
      firstOffset? w.segments.flatten = .some target := by
  have encodes : Encodes w.label? 0 (w.opening ++ w.parts.flatten) woven.code := w.encodes
  obtain ⟨front, ends⟩ := exists_prologue_eq imports (hostOf token d body)
    (calledTokens (w.entries.filterMap Prod.snd))
  obtain ⟨_, _, -, own, -⟩ := encodes.of_append
  obtain ⟨op, name, inside, named⟩ := own.exists_branch_of_target member goes
  have known : name = noProviderLabel ∨ name = bodyLabel := by
    have branched := mem_branchLabels_iff.mpr ⟨op, inside⟩
    rw [opening, branchLabels_prologue] at branched
    simpa using branched
  rw [opening, ends] at own
  rcases known with rfl | rfl
  · -- Behind the first label is the instruction that drops the missing provider.
    rw [own.label_eq.1, Option.some.injEq, Nat.zero_add] at named
    have positive : 0 < listingSize [.label noProviderLabel, .plain .pop, .label bodyLabel] := by
      decide
    obtain ⟨j, found, here⟩ := exists_offset_eq w.label? target positive
    refine .inl ⟨j, ?_, here⟩
    rw [opening, ends, instructionsFrom_append, Nat.zero_add, named]
    exact List.mem_append_right _ found
  · -- The label at the end of the prologue is where the code of the method begins.
    rw [List.append_cons, List.append_cons] at own
    rw [own.label_eq.1, Option.some.injEq, Nat.zero_add] at named
    have size : listingSize w.opening = target := by
      rw [opening, ends, ← named]
      simp
    right
    rw [segments, flatten_segmentsFrom, firstOffset?_instructionsFrom _ _
      (listingSize_parts_pos w.parts_of_entries some), size]

/-- Woven code keeps the order of instructions. -/
theorem movesTo_lt {old old' new new' : Nat} (first : MovesTo w.entries w.segments old new)
    (second : MovesTo w.entries w.segments old' new') (before : old < old') : new < new' := by
  obtain ⟨a, entry, here, rfl, rfl⟩ := w.movesTo_iff.mp first
  obtain ⟨b, other, there, rfl, rfl⟩ := w.movesTo_iff.mp second
  refine w.codeOffset_lt (Nat.lt_of_not_le fun behind => ?_) (List.getElem?_eq_some_iff.mp here).1
  rcases Nat.lt_or_eq_of_le behind with later | rfl
  · exact Nat.lt_asymm before (w.offset_lt_offset there here later)
  · rw [here, Option.some.injEq] at there
    exact Nat.ne_of_lt before (congrArg (·.1.offset) there)

/-- Two call sites share no local variable but that of the call map. -/
theorem apart (chain : WovenParts m imports (hostOf token d body) (body.locals.length + 1)
    woven.locals.length w.entries w.parts) {a b : Nat} (before : a < b) {i j x y : Instruction}
    {first second : CallSite} {front back : List Instruction}
    (here : w.entries[a]? = some (i, some first)) (there : w.entries[b]? = some (j, some second))
    (own : w.segments[a]? = some front) (other : w.segments[b]? = some back) (inFront : x ∈ front)
    (inBack : y ∈ back) {n : UInt16} (names : x.localVar? = some n) (names' : y.localVar? = some n) :
    n = (hostOf token d body).mapLocal := by
  obtain ⟨part, atA, -⟩ := w.exists_getElem?_parts here
  obtain ⟨part', atB, -⟩ := w.exists_getElem?_parts there
  obtain ⟨middle, low, high⟩ := chain.exists_bounds before here there atA atB
  obtain rfl := Option.some.inj ((w.getElem?_segments atA).symm.trans own)
  obtain rfl := Option.some.inj ((w.getElem?_segments atB).symm.trans other)
  have below := low.localVar_bounds (w.sites i first (List.mem_of_getElem? here))
    (mem_localVars_of_mem inFront names)
  have above := high.localVar_bounds (w.sites j second (List.mem_of_getElem? there))
    (mem_localVars_of_mem inBack names')
  rcases below with same | below
  · exact same
  rcases above with same | above
  · exact same
  omega

/-- What woven code is decoded to if its branches are not looked at. -/
theorem isWovenStream (chain : WovenParts m imports (hostOf token d body) (body.locals.length + 1)
    woven.locals.length w.entries w.parts) (some : w.entries ≠ []) :
    IsWovenStream w.entries body.locals.length woven.locals.length
      (instructionsFrom w.label? 0 w.opening) w.segments := by
  have mapLocal : (hostOf token d body).mapLocal.toNat = body.locals.length :=
    UInt16.toNat_ofNat_of_lt w.mapLocal_lt
  refine {
    segment := ?_
    opening_target := fun a member target goes => w.target_of_opening some member goes
    opening_local := fun a member n names => ?_
    increasing := ?_
    moves := w.movesTo_lt
    apart := ?_ }
  · refine List.forall₂_iff_get.mpr ⟨?_, fun index inside inside' => ?_⟩
    · rw [segments, length_segmentsFrom, length_parts]
    · have here := List.getElem?_eq_getElem inside
      obtain ⟨part, found, woven⟩ := w.exists_getElem?_parts here
      have own := w.getElem?_segments found
      rw [List.getElem?_eq_getElem inside', Option.some.injEq] at own
      rw [List.get_eq_getElem, List.get_eq_getElem, own]
      exact w.segment_of_getElem? here woven found
  · have named := mem_localVars_of_mem member names
    rw [opening, localVars_prologue, List.mem_singleton] at named
    rw [named, mapLocal]
  · rw [← w.instructions_eq_append]
    exact pairwise_offset_instructionsFrom ..
  · -- Two scaffolds have only the local variable of the call map in common.
    rw [List.pairwise_iff_getElem]
    intro a b insideA insideB before isSite isSite' x inFront y inBack n names names'
    have atA := List.getElem?_zip_eq_some.mp (List.getElem?_eq_getElem insideA)
    have atB := List.getElem?_zip_eq_some.mp (List.getElem?_eq_getElem insideB)
    obtain ⟨first, site⟩ := Option.isSome_iff_exists.mp isSite
    obtain ⟨second, site'⟩ := Option.isSome_iff_exists.mp isSite'
    have same := w.apart chain before (atA.1.trans (congrArg Option.some (Prod.ext rfl site)))
      (atB.1.trans (congrArg Option.some (Prod.ext rfl site'))) atA.2 atB.2 inFront inBack names
      names'
    rw [same, mapLocal]

end Weave

section Interception

variable {m m' : Module} {o : WeavePolicy} {known : Option Imports} {token : Token} {d : MethodDef}
  {body : Body} {count : Nat}

/-- What intercepting the calls of a method does to its body. -/
theorem exists_weave_of_interceptCalls (found : m.methodDefAt token = .ok d)
    (hasBody : d.body = some body) (h : Yields (interceptCalls o known token) m count m') :
    (count = 0 ∧ m' = m) ∨ 0 < count ∧ ∃ imports m₁ woven, known = some imports ∧
      m'.methodDefAt token = .ok { d with body := some woven } ∧
      ∃ w : Weave m₁ imports token d body woven, w.entries ≠ [] ∧
        (∀ entry ∈ w.entries, CallSite.at? m o entry.1 = .ok entry.2) ∧
        woven.points = body.points.relocate w.moved? ∧
        WovenParts m₁ imports (hostOf token d body) (body.locals.length + 1) woven.locals.length
          w.entries w.parts := by
  obtain ⟨d₁, found₁, change⟩ := wovenBody_of_interceptCalls h
  rw [found, Except.ok.injEq] at found₁
  subst found₁
  rcases change with ⟨none, same, -⟩ | ⟨body₁, entries, woven, m₁, hasBody₁, decoded, all, counted,
    some, laid, set⟩
  · exact .inl ⟨none, same⟩
  · rw [hasBody, Option.some.injEq] at hasBody₁
    subst hasBody₁
    obtain ⟨grown, imports, imported, w, rfl, points, chain⟩ := weave_of_wovenBody decoded
      (fun i site member => CallSite.isAt_of_at? (all _ member)) laid
    have kept : m₁.methodDefAt token = .ok d := grown.methodDefAt.trans found
    exact .inr ⟨some, imports, m₁, woven, imported, methodDefAt_of_setBody kept set, w,
      w.entries_ne_nil counted some, all, points, chain⟩

/-- The code of a method whose calls are intercepted, decoded one instruction at a time: the prologue,
and then the instructions of the method with scaffolds around the calls, whose local variables are
behind those that the method had. -/
theorem isWovenStream_of_interceptCalls (found : m.methodDefAt token = .ok d)
    (hasBody : d.body = some body) (h : Yields (interceptCalls o known token) m count m')
    (some : 0 < count) : ∃ imports entries woven labels opening segments,
      known = .some imports ∧ decodeCode body.code = .ok (entries.map Prod.fst) ∧
      (∀ entry ∈ entries, CallSite.at? m o entry.1 = .ok entry.2) ∧
      m'.methodDefAt token = .ok { d with body := .some woven } ∧
      Read.run (decodeInstructions woven.code.length) woven.code.toArray =
        .ok (opening ++ segments.flatten) ∧
      opening = instructionsFrom labels 0 (prologue imports (hostOf token d body)
        (calledTokens (entries.filterMap Prod.snd))) ∧
      body.locals ++ [Intrinsic.callMapType] <+: woven.locals ∧
      IsWovenStream entries body.locals.length woven.locals.length opening segments := by
  rcases exists_weave_of_interceptCalls found hasBody h with ⟨none, -⟩ | ⟨-, imports, m₁, woven,
    imported, found', w, nonempty, looked, -, chain⟩
  · exact absurd some (by simp [none])
  · refine ⟨imports, w.entries, woven, w.label?, _, w.segments, imported, w.decoded, looked, found',
      w.decodeInstructions_eq, rfl, ?_, w.isWovenStream chain nonempty⟩
    rw [w.locals_eq]
    exact ⟨w.fresh, by simp⟩

end Interception

/-- A module with a method that calls another one twice, with a short branch between the calls. -/
def twoCallsModule : Module where
  name := "Demo"
  types := #[.ofClass "Demo.A"]
  methods := #[
    { owner := .ofRow .typeDef 1, name := "f", flags := .isStatic,
      body := some {
        locals := [.int32]
        code := [0x28, 0x02, 0x00, 0x00, 0x06, 0x2B, 0x00, 0x28, 0x02, 0x00, 0x00, 0x06, 0x2A]
        points := [⟨0, 1, 1, 1, 8, false⟩, ⟨7, 2, 1, 2, 8, false⟩] } },
    { owner := .ofRow .typeDef 1, name := "g", flags := .isStatic,
      body := some { code := [0x2A] } }]

/-- Both calls are intercepted. -/
theorem exists_intercept_twoCalls : ∃ imports m m', Yields addImports twoCallsModule imports m ∧
    m.methodDefAt (.ofRow .methodDef 1) = .ok twoCallsModule.methods[0] ∧
    Yields (interceptCalls {} (some imports) (.ofRow .methodDef 1)) m 2 m' := by
  have two : (interceptFirst.run.run twoCallsModule).1 = .ok 2 := by decide +kernel
  have yields : Yields interceptFirst twoCallsModule 2 (interceptFirst.run.run twoCallsModule).2 :=
    Prod.ext two rfl
  obtain ⟨imports, m, imported, found, intercepted⟩ := exists_of_interceptFirst yields rfl
  exact ⟨imports, m, _, imported, found, intercepted⟩

theorem isWovenStream_of_interceptCalls_twoCalls :
    ∃ imports m m' body entries woven labels opening segments,
      Yields (interceptCalls {} (some imports) (.ofRow .methodDef 1)) m 2 m' ∧
      twoCallsModule.methods[0].body = some body ∧
      decodeCode body.code = .ok (entries.map Prod.fst) ∧
      m'.methodDefAt (.ofRow .methodDef 1) =
        .ok { twoCallsModule.methods[0] with body := some woven } ∧
      Read.run (decodeInstructions woven.code.length) woven.code.toArray =
        .ok (opening ++ segments.flatten) ∧
      opening = instructionsFrom labels 0 (prologue imports
        (hostOf (.ofRow .methodDef 1) twoCallsModule.methods[0] body)
        (calledTokens (entries.filterMap Prod.snd))) ∧
      IsWovenStream entries body.locals.length woven.locals.length opening segments := by
  obtain ⟨imports, m, m', -, found, intercepted⟩ := exists_intercept_twoCalls
  obtain ⟨_, entries, woven, labels, opening, segments, same, decoded, -, found', read, front, -,
    stream⟩ := isWovenStream_of_interceptCalls found rfl intercepted (by decide)
  obtain rfl := Option.some.inj same
  exact ⟨imports, m, m', _, entries, woven, labels, opening, segments, intercepted, rfl, decoded,
    found', read, front, stream⟩

end Interpose
