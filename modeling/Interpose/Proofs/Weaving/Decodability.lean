import Interpose.Proofs.Weaving.Structure

/-!
# Whether woven code can be decoded

Code is accepted only if all its branches go to instructions.  The branches of woven code go to the
labels of instructions, to places inside the prologue and the scaffolds, and to the places behind
scaffolds.  There is an instruction behind every scaffold but that of the last instruction.

## Main results

* `Weave.branchesLand_iff` — the branches of woven code go to instructions just if the last
  instruction of the method is not intercepted
* `Weave.offset_lt` — all instructions of woven code are within the reach of a decoder
* `decodes_interceptCalls_iff` — when a woven body can be decoded
-/

namespace Interpose

/-- The label that an item branches to. -/
def ListingItem.branchLabel? : ListingItem → Option String
  | .branch _ name => some name
  | _ => none

/-- The labels that the items of a listing branch to. -/
def branchLabels (items : List ListingItem) : List String :=
  items.filterMap ListingItem.branchLabel?

theorem mem_branchLabels_iff {items : List ListingItem} {name : String} :
    name ∈ branchLabels items ↔ ∃ op, .branch op name ∈ items := by
  rw [branchLabels, List.mem_filterMap]
  constructor
  · rintro ⟨item, member, goes⟩
    cases item with
    | branch op other =>
      cases goes
      exact ⟨op, member⟩
    | _ => cases goes
  · rintro ⟨op, member⟩
    exact ⟨_, member, rfl⟩

@[simp] theorem branchLabels_append (first second : List ListingItem) :
    branchLabels (first ++ second) = branchLabels first ++ branchLabels second :=
  List.filterMap_append

@[simp] theorem branchLabels_cons (item : ListingItem) (rest : List ListingItem) :
    branchLabels (item :: rest) = item.branchLabel?.toList ++ branchLabels rest := by
  rw [branchLabels, List.filterMap_cons]
  cases item.branchLabel? <;> rfl

@[simp] theorem branchLabels_nil : branchLabels [] = [] := rfl

section Scaffold

variable (imports : Imports) (host : Host)

@[simp] theorem branchLabels_quoteMethod (method : Token) :
    branchLabels (imports.quoteMethod method) = [] := rfl

@[simp] theorem branchLabel?_loadSelf : host.loadSelf.branchLabel? = none := by
  unfold Host.loadSelf
  split <;> rfl

/-- Filling an array branches only where loading its elements does. -/
theorem branchLabels_makeArray {element : Token} {elements : List (List ListingItem)}
    (h : ∀ load ∈ elements, branchLabels load = []) :
    branchLabels (makeArray element elements) = [] := by
  have fill (n : Nat) : branchLabels (fillFrom n elements) = [] := by
    induction elements generalizing n with
    | nil => rfl
    | cons load rest ih =>
      obtain ⟨here, others⟩ := List.forall_mem_cons.mp h
      simp only [fillFrom, branchLabels_append, branchLabels_cons, ih others, here]
      rfl
  simp only [makeArray, fillArray_eq_fillFrom, branchLabels_append, fill]
  rfl

/-- A prologue ends with the code that is run if there is no provider. -/
theorem exists_prologue_eq (called : List Token) : ∃ front, prologue imports host called =
    front ++ [.label noProviderLabel, .plain .pop, .label bodyLabel] :=
  ⟨[host.loadSelf, .withToken .ldtoken host.owner, imports.call .getTypeFromHandle,
      imports.call .getProvider, .plain .dup, .branch .brfalse noProviderLabel, host.loadSelf] ++
    imports.quoteMethod host.token ++
    makeArray imports.methodBase (called.map imports.quoteMethod) ++
    [imports.call .captureStackTrace, imports.call .getMap, .stloc host.mapLocal,
      .branch .br bodyLabel], by simp [prologue]⟩

/-- The branches of a prologue stay in it. -/
theorem branchLabels_prologue (called : List Token) :
    branchLabels (prologue imports host called) = [noProviderLabel, bodyLabel] := by
  have quotes : branchLabels (makeArray imports.methodBase (called.map imports.quoteMethod)) = [] :=
    branchLabels_makeArray (by simp)
  simp only [prologue, branchLabels_append, branchLabels_cons, branchLabels_quoteMethod, quotes,
    branchLabel?_loadSelf]
  rfl

theorem branchLabels_loadArgument (s : Slot) : branchLabels s.loadArgument = [] := by
  unfold Slot.loadArgument Slot.loadObject
  split
  · rfl
  · cases s.box <;> rfl

private theorem branchLabels_of_forall {items : List ListingItem}
    (h : ∀ item ∈ items, item.branchLabel? = none) : branchLabels items = [] :=
  List.filterMap_eq_nil_iff.mpr h

/-- The branches of a scaffold stay in it or go to the place behind it. -/
theorem branchLabels_listing (s : SiteLayout) :
    branchLabels (s.listing imports host) = [s.fallbackLabel, s.fallbackLabel, s.doneLabel] := by
  -- Only the choice and the end of the substitution branch; all other parts are straight.
  have spills : branchLabels s.spills = [] := by
    refine branchLabels_of_forall fun item member => ?_
    rcases List.mem_append.mp member with other | own
    · obtain ⟨slot, -, rfl⟩ := List.mem_map.mp other
      rfl
    · obtain ⟨slot, -, rfl⟩ := List.mem_map.mp own
      rfl
  have reloads : branchLabels s.reloads = [] := by
    refine branchLabels_of_forall fun item member => ?_
    rcases List.mem_append.mp member with own | other
    · obtain ⟨slot, -, rfl⟩ := List.mem_map.mp own
      rfl
    · obtain ⟨slot, -, rfl⟩ := List.mem_map.mp other
      rfl
  have target : branchLabels s.loadTarget = [] := by
    unfold SiteLayout.loadTarget
    split
    · rename_i slot _
      unfold Slot.loadObject
      cases slot.box <;> rfl
    · rfl
  have arguments : branchLabels (makeArray imports.object (s.arguments.map Slot.loadArgument)) =
      [] := by
    refine branchLabels_makeArray fun load member => ?_
    obtain ⟨slot, -, rfl⟩ := List.mem_map.mp member
    exact branchLabels_loadArgument slot
  have context : branchLabels (s.makeContext imports host) = [] := by
    simp only [SiteLayout.makeContext, branchLabels_append, branchLabels_cons, target, arguments,
      branchLabels_quoteMethod, branchLabel?_loadSelf]
    rfl
  have choice : branchLabels (s.choice imports host) = [s.fallbackLabel, s.fallbackLabel] := by
    simp only [SiteLayout.choice, branchLabels_append, branchLabels_quoteMethod]
    rfl
  have result : s.takeResult.branchLabel? = none := by
    unfold SiteLayout.takeResult
    cases s.result <;> rfl
  have substitution : branchLabels (s.substitution imports host) = [s.doneLabel] := by
    simp only [SiteLayout.substitution, branchLabels_append, branchLabels_cons,
      branchLabels_quoteMethod, context, result]
    rfl
  simp only [SiteLayout.listing, branchLabels_append, spills, reloads, choice, substitution]
  rfl

/-- The branch of a kept instruction goes to the label of the instruction it went to. -/
theorem branchLabel?_of_keptItem {i : Instruction} {item : ListingItem}
    (h : keptItem i = .ok item) {name : String} (goes : item.branchLabel? = some name) :
    ∃ target, i.target? = some target ∧ name = instructionLabel target := by
  rcases keptItem_eq_ok_iff.mp h with ⟨-, target, known, rfl⟩ | ⟨-, rfl⟩
  · exact ⟨target, known, (Option.some.inj goes).symm⟩
  · cases goes

end Scaffold

section Parts

variable {m : Module} {imports : Imports} {host : Host} {base limit : Nat}
  {entry : Instruction × Option CallSite} {part : List ListingItem}

/-- Behind the label of an instruction there is its code. -/
theorem WovenPart.exists_code (h : WovenPart m imports host base limit entry part) :
    ∃ code, part = .label (instructionLabel entry.1.offset) :: code ∧ 0 < listingSize code := by
  cases h with
  | @kept i item kept =>
    refine ⟨[item], rfl, ?_⟩
    rw [listingSize_cons]
    refine Nat.add_pos_left (ListingItem.size_pos ?_) _
    rcases keptItem_eq_ok_iff.mp kept with ⟨-, target, -, rfl⟩ | ⟨-, rfl⟩ <;> rfl
  | @site i site layout first =>
    refine ⟨_, rfl, ?_⟩
    simp only [SiteLayout.listing, listingSize_append, listingSize_cons]
    have : 0 < (ListingItem.decoded layout.site.instruction).size := ListingItem.size_pos rfl
    omega

theorem WovenPart.listingSize_pos (h : WovenPart m imports host base limit entry part) :
    0 < listingSize part := by
  obtain ⟨code, rfl, positive⟩ := h.exists_code
  simpa using positive

end Parts

namespace Weave

variable {m : Module} {imports : Imports} {token : Token} {d : MethodDef} {body woven : Body}
  (w : Weave m imports token d body woven)

/-- A label in front of an instruction can be branched to. -/
theorem lands_of_split {before after : List ListingItem} {name : String}
    (split : w.items = before ++ .label name :: after) :
    ∃ target, w.label? name = some target ∧
      (target < listingSize w.items ↔ 0 < listingSize after) := by
  have encodes := w.encodes
  rw [split] at encodes
  refine ⟨_, encodes.label_eq.1, ?_⟩
  rw [split, listingSize_append, listingSize_cons, ListingItem.size_label]
  omega

/-- The label of every instruction of the method is in front of an instruction. -/
theorem instructionLabel_lands {i : Instruction} {site : Option CallSite}
    (member : (i, site) ∈ w.entries) :
    ∃ target, w.label? (instructionLabel i.offset) = some target ∧
      target < listingSize w.items := by
  obtain ⟨before, after, split⟩ := List.append_of_mem member
  obtain ⟨front, part, back, parts, -, woven, -⟩ := w.exists_part split
  obtain ⟨code, rfl, positive⟩ := woven.exists_code
  have items : w.items = (prologue imports (hostOf token d body)
      (calledTokens (w.entries.filterMap Prod.snd)) ++ front.flatten) ++
      .label (instructionLabel i.offset) :: (code ++ back.flatten) := by
    rw [Weave.items, parts]
    simp
  obtain ⟨target, known, lands⟩ := w.lands_of_split items
  refine ⟨target, known, lands.mpr ?_⟩
  rw [listingSize_append]
  omega

/-- The code of woven instructions has some bytes if there are any instructions. -/
theorem listingSize_parts_pos {entries : List (Instruction × Option CallSite)}
    {parts : List (List ListingItem)} {host : Host} {base limit : Nat}
    (h : List.Forall₂ (WovenPart m imports host base limit) entries parts) (some : entries ≠ []) :
    0 < listingSize parts.flatten := by
  cases h with
  | nil => exact absurd rfl some
  | cons first _ =>
    rw [List.flatten_cons, listingSize_append]
    have := first.listingSize_pos
    omega

/-- The branches of the prologue go to instructions. -/
theorem prologue_lands (some : w.entries ≠ []) {name : String}
    (member : name = noProviderLabel ∨ name = bodyLabel) :
    ∃ target, w.label? name = .some target ∧ target < listingSize w.items := by
  have positive := listingSize_parts_pos w.parts_of_entries some
  obtain ⟨front, ends⟩ := exists_prologue_eq imports (hostOf token d body)
    (calledTokens (w.entries.filterMap Prod.snd))
  rcases member with rfl | rfl
  · have split : w.items = front ++ .label noProviderLabel ::
        ([.plain .pop, .label bodyLabel] ++ w.parts.flatten) := by
      rw [Weave.items, ends]
      simp
    obtain ⟨target, known, lands⟩ := w.lands_of_split split
    refine ⟨target, known, lands.mpr ?_⟩
    rw [listingSize_append]
    omega
  · have split : w.items = (front ++ [.label noProviderLabel, .plain .pop]) ++
        .label bodyLabel :: w.parts.flatten := by
      rw [Weave.items, ends]
      simp
    obtain ⟨target, known, lands⟩ := w.lands_of_split split
    exact ⟨target, known, lands.mpr positive⟩

/-- The branch of an instruction that is kept goes to an instruction. -/
theorem kept_lands {i : Instruction} {site : Option CallSite} {item : ListingItem} {name : String}
    (member : (i, site) ∈ w.entries) (kept : keptItem i = .ok item)
    (goes : item.branchLabel? = some name) :
    ∃ target, w.label? name = some target ∧ target < listingSize w.items := by
  obtain ⟨target, known, rfl⟩ := branchLabel?_of_keptItem kept goes
  obtain ⟨-, none⟩ := decodeCode_eq_ok_iff.mp w.decoded
  obtain ⟨j, found, rfl⟩ := strayBranch?_eq_none_iff.mp none i
    (List.mem_map.mpr ⟨_, member, rfl⟩) target known
  obtain ⟨⟨j, other⟩, inside, rfl⟩ := List.mem_map.mp found
  exact w.instructionLabel_lands inside

/-- There is an instruction behind the fallback label of a scaffold. -/
theorem fallback_lands {front back : List (List ListingItem)} {layout : SiteLayout} {name : String}
    (parts : w.parts = front ++
      (.label name :: layout.listing imports (hostOf token d body)) :: back) :
    ∃ target, w.label? layout.fallbackLabel = some target ∧ target < listingSize w.items := by
  have items : w.items = (prologue imports (hostOf token d body)
        (calledTokens (w.entries.filterMap Prod.snd)) ++ front.flatten ++
        .label name :: (layout.spills ++ layout.choice imports (hostOf token d body) ++
          layout.substitution imports (hostOf token d body))) ++
      .label layout.fallbackLabel :: (layout.reloads ++
        [.decoded layout.site.instruction, .label layout.doneLabel] ++ back.flatten) := by
    rw [Weave.items, parts]
    simp [SiteLayout.listing]
  obtain ⟨target, known, lands⟩ := w.lands_of_split items
  refine ⟨target, known, lands.mpr ?_⟩
  simp only [listingSize_append, listingSize_cons]
  have : 0 < (ListingItem.decoded layout.site.instruction).size := ListingItem.size_pos rfl
  omega

/-- Behind a scaffold there is the code of the instructions behind the call site, if any. -/
theorem done_lands_iff {front back : List (List ListingItem)} {layout : SiteLayout} {name : String}
    (parts : w.parts = front ++
      (.label name :: layout.listing imports (hostOf token d body)) :: back) :
    ∃ target, w.label? layout.doneLabel = some target ∧
      (target < listingSize w.items ↔ 0 < listingSize back.flatten) := by
  have items : w.items = (prologue imports (hostOf token d body)
        (calledTokens (w.entries.filterMap Prod.snd)) ++ front.flatten ++
        .label name :: (layout.spills ++ layout.choice imports (hostOf token d body) ++
          layout.substitution imports (hostOf token d body) ++ [.label layout.fallbackLabel] ++
          layout.reloads ++ [.decoded layout.site.instruction])) ++
      .label layout.doneLabel :: back.flatten := by
    rw [Weave.items, parts]
    simp [SiteLayout.listing]
  exact w.lands_of_split items

/-- A scaffold branches to the place behind it. -/
theorem branch_done_mem {front back : List (List ListingItem)} {layout : SiteLayout}
    {name : String} (parts : w.parts = front ++
      (.label name :: layout.listing imports (hostOf token d body)) :: back) :
    .branch .br layout.doneLabel ∈ w.items := by
  rw [Weave.items, parts]
  simp [SiteLayout.listing, SiteLayout.substitution]

/-- The labels that woven code branches to are those of its prologue and of its parts. -/
theorem mem_branchLabels_items {name : String} (member : name ∈ branchLabels w.items) :
    (name = noProviderLabel ∨ name = bodyLabel) ∨ ∃ part ∈ w.parts, name ∈ branchLabels part := by
  rw [Weave.items, branchLabels_append, branchLabels_prologue, List.mem_append] at member
  rcases member with own | other
  · exact .inl (by simpa using own)
  · obtain ⟨op, inside⟩ := mem_branchLabels_iff.mp other
    obtain ⟨part, found, inside⟩ := List.mem_flatten.mp inside
    exact .inr ⟨part, found, mem_branchLabels_iff.mpr ⟨op, inside⟩⟩

/-- If the last instruction is not intercepted, the branches of every part go to instructions. -/
theorem part_lands (last : ∀ entry ∈ w.entries.getLast?, entry.2 = none)
    {part : List ListingItem} (member : part ∈ w.parts) {name : String}
    (goes : name ∈ branchLabels part) :
    ∃ target, w.label? name = some target ∧ target < listingSize w.items := by
  obtain ⟨front, back, parts⟩ := List.append_of_mem member
  have related := w.parts_of_entries.flip
  rw [parts] at related
  obtain ⟨before, entry, after, split, -, woven, rest⟩ := split_of_forall₂ related
  have rest := rest.flip
  cases woven with
  | kept item =>
    rw [branchLabels_cons, branchLabels_cons] at goes
    refine w.kept_lands (split ▸ List.mem_append_right _ (List.mem_cons_self ..)) item ?_
    simpa [ListingItem.branchLabel?] using goes
  | @site i site layout first =>
    rw [branchLabels_cons, branchLabels_listing] at goes
    have known : name = layout.fallbackLabel ∨ name = layout.doneLabel := by
      simpa [ListingItem.branchLabel?] using goes
    rcases known with rfl | rfl
    · exact w.fallback_lands parts
    · -- Behind the scaffold is the code of another instruction.
      obtain ⟨target, known, lands⟩ := w.done_lands_iff parts
      refine ⟨target, known, lands.mpr (listingSize_parts_pos rest ?_)⟩
      rintro rfl
      have intercepted := last (i, some site) (by rw [split]; simp)
      cases intercepted

/-- The branches of woven code go to instructions just if the last instruction of the method is not
intercepted. -/
theorem branchesLand_iff (some : w.entries ≠ []) :
    BranchesLand w.label? w.items ↔ ∀ entry ∈ w.entries.getLast?, entry.2 = none := by
  constructor
  · rintro land ⟨i, site⟩ member
    cases site with
    | none => rfl
    | some site =>
      obtain ⟨before, split⟩ := List.getLast?_eq_some_iff.mp member
      obtain ⟨front, part, back, parts, -, woven, rest⟩ := w.exists_part split
      cases rest
      cases woven with
      | @site _ _ layout first =>
        obtain ⟨target, known, lands⟩ := w.done_lands_iff parts
        obtain ⟨target', known', before⟩ := land _ _ (w.branch_done_mem parts)
        rw [known, Option.some.injEq] at known'
        subst known'
        exact absurd (lands.mp before) (by simp)
  · intro last op name member
    rcases w.mem_branchLabels_items (mem_branchLabels_iff.mpr ⟨op, member⟩) with
      own | ⟨part, found, goes⟩
    · exact w.prologue_lands some own
    · exact w.part_lands last found goes

/-- At most one instruction of woven code is behind the last label. -/
theorem exists_last_label : ∃ before name after, w.items = before ++ .label name :: after ∧
    (after = [] ∨ ∃ last, after = [last]) := by
  rcases List.eq_nil_or_concat' w.entries with none | ⟨before, ⟨i, site⟩, split⟩
  · -- Without instructions the code ends with the prologue, and so with a label.
    have related := w.parts_of_entries
    rw [none] at related
    obtain ⟨front, ends⟩ := exists_prologue_eq imports (hostOf token d body)
      (calledTokens (w.entries.filterMap Prod.snd))
    refine ⟨front ++ [.label noProviderLabel, .plain .pop], bodyLabel, [], ?_, .inl rfl⟩
    rw [Weave.items, ends, List.forall₂_nil_left_iff.mp related]
    simp
  · obtain ⟨front, part, back, parts, -, woven, rest⟩ := w.exists_part split
    cases rest
    cases woven with
    | @kept _ item =>
      refine ⟨prologue imports (hostOf token d body) (calledTokens (w.entries.filterMap Prod.snd)) ++
        front.flatten, instructionLabel i.offset, [item], ?_, .inr ⟨item, rfl⟩⟩
      rw [Weave.items, parts]
      simp
    | @site _ _ layout first =>
      refine ⟨prologue imports (hostOf token d body) (calledTokens (w.entries.filterMap Prod.snd)) ++
        front.flatten ++ .label (instructionLabel i.offset) :: (layout.spills ++
          layout.choice imports (hostOf token d body) ++
          layout.substitution imports (hostOf token d body) ++ [.label layout.fallbackLabel] ++
          layout.reloads ++ [.decoded layout.site.instruction]), layout.doneLabel, [], ?_, .inl rfl⟩
      rw [Weave.items, parts]
      simp [SiteLayout.listing]

/-- All instructions of woven code are within the reach of a decoder. -/
theorem offset_lt : ∀ i ∈ instructionsFrom w.label? 0 w.items, i.offset < 0x100000000 := by
  obtain ⟨before, name, after, split, short⟩ := w.exists_last_label
  have encodes := w.encodes
  intro i member
  rw [split] at encodes member
  exact encodes.offset_lt short member

/-- The instructions of woven code. -/
def instructions : List Instruction := instructionsFrom w.label? 0 w.items

/-- Woven code is decoded to its instructions if the last instruction of the method is not
intercepted. -/
theorem decodeCode_eq_ok (some : w.entries ≠ [])
    (last : ∀ entry ∈ w.entries.getLast?, entry.2 = none) :
    decodeCode woven.code = .ok w.instructions :=
  decodeCode_of_assemble w.assembled w.offset_lt ((w.branchesLand_iff some).mpr last)

/-- Woven code can be decoded only if the last instruction of the method is not intercepted. -/
theorem getLast?_of_decodeCode (some : w.entries ≠ []) {instructions : List Instruction}
    (decodes : decodeCode woven.code = .ok instructions) :
    ∀ entry ∈ w.entries.getLast?, entry.2 = none :=
  (w.branchesLand_iff some).mp (branchesLand_of_decodeCode w.assembled w.offset_lt decodes)

end Weave

/-- The body that intercepting the calls of a method leaves can be decoded just if the last
instruction of the method is not intercepted. -/
theorem decodes_interceptCalls_iff {o : WeavePolicy} {known : Option Imports} {token : Token}
    {m m' : Module} {d : MethodDef} {body : Body} {count : Nat} (found : m.methodDefAt token = .ok d)
    (hasBody : d.body = some body) (h : Yields (interceptCalls o known token) m count m') :
    ∃ instructions d' body', decodeCode body.code = .ok instructions ∧
      m'.methodDefAt token = .ok d' ∧ d'.body = some body' ∧
      ((∃ decoded, decodeCode body'.code = .ok decoded) ↔
        ∀ i ∈ instructions.getLast?, CallSite.at? m o i = .ok none) := by
  obtain ⟨d₁, found₁, change⟩ := weave_of_interceptCalls h
  rw [found, Except.ok.injEq] at found₁
  subst found₁
  rcases change with ⟨-, rfl, stays⟩ | ⟨body₁, imports, woven, m₁, hasBody₁, -, grown, set, w, all,
    counted, positive⟩
  · obtain ⟨instructions, decoded, none⟩ := stays body hasBody
    refine ⟨instructions, d, body, decoded, found, hasBody, ?_⟩
    exact ⟨fun _ i member => none i (List.mem_of_mem_getLast? member), fun _ => ⟨_, decoded⟩⟩
  · rw [hasBody, Option.some.injEq] at hasBody₁
    subst hasBody₁
    have kept : m₁.methodDefAt token = .ok d := grown.methodDefAt.trans found
    refine ⟨_, _, woven, w.decoded, methodDefAt_of_setBody kept set, rfl, ?_⟩
    have some := w.entries_ne_nil counted positive
    rw [List.getLast?_map]
    constructor
    · rintro ⟨decoded, decodes⟩ i last
      obtain ⟨entry, member, rfl⟩ := Option.map_eq_some_iff.mp last
      rw [all entry (List.mem_of_mem_getLast? member),
        w.getLast?_of_decodeCode some decodes entry member]
    · intro last
      refine ⟨_, w.decodeCode_eq_ok some fun entry member => ?_⟩
      have known := all entry (List.mem_of_mem_getLast? member)
      rw [last entry.1 (Option.map_eq_some_iff.mpr ⟨entry, member, rfl⟩), Except.ok.injEq] at known
      exact known.symm

/-- A module with a method that ends with a call which is never reached. -/
def deadCallModule : Module where
  name := "Demo"
  types := #[.ofClass "Demo.A"]
  methods := #[
    { owner := .ofRow .typeDef 1, name := "f", flags := .isStatic, returnType := .int32,
      body := some { code := [0x1B, 0x2A, 0x28, 0x02, 0x00, 0x00, 0x06] } },
    { owner := .ofRow .typeDef 1, name := "g", flags := .isStatic,
      body := some { code := [0x2A] } }]

/-- Intercepts the calls of the first method of a module. -/
def interceptFirst : Edit Nat := do
  let imports ← addImports
  interceptCalls {} (some imports) (.ofRow .methodDef 1)

/-- The method is still there when its calls are intercepted. -/
theorem exists_of_interceptFirst {m m' : Module} {d : MethodDef} {count : Nat}
    (h : Yields interceptFirst m count m')
    (first : m.methodDefAt (.ofRow .methodDef 1) = .ok d) : ∃ imports m₁,
      Yields addImports m imports m₁ ∧ m₁.methodDefAt (.ofRow .methodDef 1) = .ok d ∧
      Yields (interceptCalls {} (some imports) (.ofRow .methodDef 1)) m₁ count m' := by
  obtain ⟨imports, m₁, imported, intercepted⟩ := yields_bind.mp h
  have grown := (Imports.resolve_of_addImports imported).1
  exact ⟨imports, m₁, imported, grown.methodDefAt.trans first, intercepted⟩

/-- The dead call is intercepted. -/
theorem yields_interceptFirst :
    Yields interceptFirst deadCallModule 1 (interceptFirst.run.run deadCallModule).2 := by
  have one : (interceptFirst.run.run deadCallModule).1 = .ok 1 := by decide +kernel
  exact Prod.ext one rfl

theorem decodes_interceptCalls_iff_deadCall :
    ∃ imports m m' d body, Yields addImports deadCallModule imports m ∧
      Yields (interceptCalls {} (some imports) (.ofRow .methodDef 1)) m 1 m' ∧
      m.methodDefAt (.ofRow .methodDef 1) = .ok d ∧ d.body = some body ∧
      ∃ instructions d' body', decodeCode body.code = .ok instructions ∧
        m'.methodDefAt (.ofRow .methodDef 1) = .ok d' ∧ d'.body = some body' ∧
        ((∃ decoded, decodeCode body'.code = .ok decoded) ↔
          ∀ i ∈ instructions.getLast?, CallSite.at? m {} i = .ok none) := by
  obtain ⟨imports, m, imported, found, intercepted⟩ :=
    exists_of_interceptFirst yields_interceptFirst (d := deadCallModule.methods[0]) rfl
  exact ⟨imports, m, _, _, _, imported, intercepted, found, rfl,
    decodes_interceptCalls_iff found rfl intercepted⟩

/-- It is not so that woven code can always be decoded. -/
theorem not_forall_decodes_interceptCalls :
    ¬ ∀ (o : WeavePolicy) (known : Option Imports) (token : Token) (m m' : Module)
      (d d' : MethodDef) (body body' : Body) (count : Nat), m.methodDefAt token = .ok d →
      d.body = some body → (∃ instructions, decodeCode body.code = .ok instructions) →
      Yields (interceptCalls o known token) m count m' → m'.methodDefAt token = .ok d' →
      d'.body = some body' → ∃ decoded, decodeCode body'.code = .ok decoded := by
  intro always
  obtain ⟨imports, m, imported, found, intercepted⟩ :=
    exists_of_interceptFirst yields_interceptFirst (d := deadCallModule.methods[0]) rfl
  have rejected : (((interceptFirst.run.run deadCallModule).2.methodDefAt
      (.ofRow .methodDef 1)).toOption.bind (·.body)).map (fun b => (decodeCode b.code).toOption) =
      some none := by decide +kernel
  obtain ⟨body', hasBody, none⟩ := Option.map_eq_some_iff.mp rejected
  obtain ⟨d', found', hasBody⟩ := Option.bind_eq_some_iff.mp hasBody
  have accepted : ∃ instructions, decodeCode [0x1B, 0x2A, 0x28, 0x02, 0x00, 0x00, 0x06] =
      .ok instructions := ⟨_, rfl⟩
  cases woven : (interceptFirst.run.run deadCallModule).2.methodDefAt (.ofRow .methodDef 1) with
  | error e =>
    rw [woven] at found'
    cases found'
  | ok d'' =>
    rw [woven] at found'
    cases found'
    obtain ⟨decoded, decodes⟩ := always _ _ _ _ _ _ _ _ _ _ found rfl accepted intercepted woven
      hasBody
    rw [decodes] at none
    cases none

end Interpose
