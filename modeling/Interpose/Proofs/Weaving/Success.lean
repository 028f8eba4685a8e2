import Interpose.Proofs.Code.Reassembly
import Interpose.Proofs.Weaving.Labels
import Interpose.Proofs.Weaving.Room

/-!
# Weaving succeeds

The calls of a method are intercepted without an error whenever the input admits it: the code can be
decoded, the calls resolve, and there is room for the local variables, the rows and the code that are
added.  What the weaver itself writes is never refused: every item can be written, every label is
placed just once, and every branch goes to a label that is placed.

## Main definitions

* `HasRoom` — there is room for the scaffolds of a method

## Main results

* `exists_assemble_listing` — the code of a woven method is assembled if it is short enough
* `exists_interceptCalls` — interception succeeds if the input admits it
-/

namespace Interpose

open Allocate

/-! ### The code is assembled -/

section Assembly

variable {m : Module} {imports : Imports} {host : Host} {base limit : Nat}
  {entry : Instruction × Option CallSite} {part : List ListingItem} {i : Instruction}
  {item : ListingItem} {bytes : List UInt8}

/-- An instruction that is decoded and does not branch can be written again. -/
theorem isOperation_decoded (spelled : i.operand.Spelled i.offset i.op bytes)
    (plain : i.op.isBranch = false) : (ListingItem.decoded i).isOperation = true := by
  rw [ListingItem.isOperation_iff]
  refine ⟨i.op, _, bytes, rfl, plain, ?_⟩
  generalize i.operand = operand at spelled
  cases operand with
  | target goal => exact absurd spelled.1 (by simp [plain])
  | _ => exact spelled.2

/-- An instruction that is decoded is kept as an item that can be written. -/
theorem exists_keptItem (spelled : i.operand.Spelled i.offset i.op bytes) :
    ∃ item, keptItem i = .ok item ∧ item.isWritable = true := by
  cases branches : i.op.isBranch with
  | true =>
    have long : ∀ op : Opcode, op.isBranch = true → op.widened.operandKind = .target := by
      intro op
      cases op <;> decide
    -- What follows a branch is its target.
    obtain ⟨target, goes⟩ : ∃ target, i.target? = some target := by
      unfold Instruction.target?
      generalize i.operand = operand at spelled
      cases operand with
      | target goal => exact ⟨goal, rfl⟩
      | _ => exact absurd branches (by simp [spelled.1])
    exact ⟨_, keptItem_eq_ok_iff.mpr (.inl ⟨branches, target, goes, rfl⟩),
      decide_eq_true (long i.op branches)⟩
  | false =>
    exact ⟨_, keptItem_eq_ok_iff.mpr (.inr ⟨branches, rfl⟩),
      ListingItem.isWritable_of_isOperation (isOperation_decoded spelled branches)⟩

/-- Operations can be written. -/
theorem all_isWritable {items : List ListingItem} (h : items.all ListingItem.isOperation = true) :
    items.all ListingItem.isWritable = true := by
  rw [List.all_eq_true] at h ⊢
  exact fun item member => ListingItem.isWritable_of_isOperation (h item member)

theorem all_isWritable_prologue (imports : Imports) (host : Host) (called : List Token) :
    (prologue imports host called).all ListingItem.isWritable = true := by
  have self := ListingItem.isWritable_of_isOperation (isOperation_loadSelf host)
  have map := ListingItem.isWritable_of_isOperation (isOperation_stloc host.mapLocal)
  have quotes : (makeArray imports.methodBase (called.map imports.quoteMethod)).all
      ListingItem.isWritable = true := by
    apply all_isWritable
    apply all_makeArray
    intro load member
    obtain ⟨token, -, rfl⟩ := List.mem_map.mp member
    exact all_quoteMethod imports token
  simp only [prologue, List.all_append, List.all_cons, List.all_nil, self, map, quotes,
    all_isWritable (all_quoteMethod imports _), Bool.and_true, Bool.true_and]
  rfl

theorem all_isWritable_listing (s : SiteLayout) (imports : Imports) (host : Host)
    (original : (ListingItem.decoded s.site.instruction).isOperation = true) :
    (s.listing imports host).all ListingItem.isWritable = true := by
  have load := ListingItem.isWritable_of_isOperation (isOperation_ldloc host.mapLocal)
  have choice : (s.choice imports host).all ListingItem.isWritable = true := by
    simp only [SiteLayout.choice, List.all_append, List.all_cons, List.all_nil, load,
      all_isWritable (all_quoteMethod imports _), Bool.and_true, Bool.true_and]
    rfl
  have substitution : (s.substitution imports host).all ListingItem.isWritable = true := by
    simp only [SiteLayout.substitution, List.all_append, List.all_cons, List.all_nil, load,
      all_isWritable (all_quoteMethod imports _), all_isWritable (all_makeContext s imports host),
      ListingItem.isWritable_of_isOperation (isOperation_takeResult s), Bool.and_true,
      Bool.true_and]
    rfl
  simp only [SiteLayout.listing, List.all_append, List.all_cons, List.all_nil, choice, substitution,
    all_isWritable (all_spills s), all_isWritable (all_reloads s),
    ListingItem.isWritable_of_isOperation original, Bool.and_true, Bool.true_and]
  rfl

/-- The part of an instruction that is decoded can be written. -/
theorem WovenPart.all_isWritable (h : WovenPart m imports host base limit entry part)
    (sites : ∀ site, entry.2 = some site → site.IsAt m entry.1)
    (spelled : entry.1.operand.Spelled entry.1.offset entry.1.op bytes) :
    part.all ListingItem.isWritable = true := by
  cases h with
  | @kept i item kept =>
    obtain ⟨item', kept', writable⟩ := exists_keptItem spelled
    obtain rfl := Except.ok.inj (kept.symm.trans kept')
    rw [List.all_cons, List.all_cons, writable]
    rfl
  | @site i site layout first above below reserved named =>
    have is := sites site rfl
    have same : layout.site.instruction = i := by rw [reserved.site_eq, is.instruction_eq]
    have original : (ListingItem.decoded layout.site.instruction).isOperation = true :=
      same ▸ isOperation_decoded spelled (Instruction.isBranch_of_isCall is.isCall)
    rw [List.all_cons, all_isWritable_listing layout imports host original]
    rfl

/-- The part of an instruction branches to its own labels and to the instruction that the instruction
goes to. -/
theorem WovenPart.branches (h : WovenPart m imports host base limit entry part) {name : String}
    (goes : name ∈ branchLabels part) : name ∈ placedLabels part ∨
      ∃ target, entry.1.target? = some target ∧ name = instructionLabel target := by
  cases h with
  | @kept i item kept =>
    rw [branchLabels_cons, branchLabels_cons, branchLabels_nil, List.append_nil] at goes
    obtain ⟨target, known, same⟩ := branchLabel?_of_keptItem kept (Option.mem_toList.mp goes)
    exact .inr ⟨target, known, same⟩
  | @site i site layout first =>
    left
    rw [branchLabels_cons, branchLabels_listing] at goes
    rw [placedLabels_cons, placedLabels_listing]
    simp only [ListingItem.branchLabel?, Option.toList_none, List.nil_append, List.mem_cons,
      List.not_mem_nil, or_false] at goes
    grind

variable {code : List UInt8} {entries : List (Instruction × Option CallSite)}
  {parts : List (List ListingItem)}

/-- Each part of woven code is that of an instruction. -/
theorem exists_entry_of_mem_parts
    (related : List.Forall₂ (WovenPart m imports host base limit) entries parts)
    (member : part ∈ parts) :
    ∃ entry ∈ entries, WovenPart m imports host base limit entry part := by
  have turned : List.Forall₂ (flip (WovenPart m imports host base limit)) parts entries :=
    .flip related
  obtain ⟨before, after, split⟩ := List.append_of_mem member
  rw [split] at turned
  obtain ⟨front, entry, back, same, -, woven, -⟩ := split_of_forall₂ turned
  exact ⟨entry, same ▸ List.mem_append_right _ (List.mem_cons_self ..), woven⟩

/-- The instruction that a branch goes to is a landmark of the method. -/
theorem mem_landmarks_of_target? (decoded : decodeCode code = .ok (entries.map Prod.fst))
    (known : entry ∈ entries) {target : Nat} (goes : entry.1.target? = some target) :
    Landmark.instruction target ∈ entries.flatMap landmarksOf := by
  obtain ⟨-, none⟩ := decodeCode_eq_ok_iff.mp decoded
  obtain ⟨j, found, there⟩ :=
    strayBranch?_eq_none_iff.mp none entry.1 (List.mem_map_of_mem known) target goes
  obtain ⟨goal, inside, rfl⟩ := List.mem_map.mp found
  refine List.mem_flatMap.mpr ⟨goal, inside, ?_⟩
  rw [← there, landmarksOf]
  split <;> exact List.mem_cons_self ..

/-- The code of a woven method is assembled if it is below two gigabytes. -/
theorem exists_assemble_listing {called : List Token}
    (decoded : decodeCode code = .ok (entries.map Prod.fst))
    (sites : ∀ i site, (i, some site) ∈ entries → site.IsAt m i)
    (related : List.Forall₂ (WovenPart m imports host base limit) entries parts)
    (short : listingSize (prologue imports host called ++ parts.flatten) < 0x80000000) :
    ∃ result, assemble (prologue imports host called ++ parts.flatten) = .ok result := by
  have placed := placedLabels_woven related sites called
  refine exists_assemble ?_ ?_ ?_ short
  · intro item member
    rcases List.mem_append.mp member with front | behind
    · exact List.all_eq_true.mp (all_isWritable_prologue imports host called) item front
    · obtain ⟨part, inside, member⟩ := List.mem_flatten.mp behind
      obtain ⟨entry, known, woven⟩ := exists_entry_of_mem_parts related inside
      obtain ⟨bytes, spelled⟩ :=
        (spelledFrom_of_decodeCode decoded).spelled_of_mem (List.mem_map_of_mem known)
      have own (site : CallSite) (same : entry.2 = some site) : site.IsAt m entry.1 :=
        sites entry.1 site (same ▸ known)
      exact List.all_eq_true.mp (woven.all_isWritable own spelled) item member
  · -- Each label marks another place of the method, and places have names of their own.
    rw [placed]
    exact (nodup_landmarks (pairwise_offset_of_decodeCode decoded)).map Landmark.label_injective
  · intro op name member
    rw [← mem_placedLabels_iff]
    rcases List.mem_append.mp member with front | behind
    · -- The prologue branches to its own labels only.
      have goes := mem_branchLabels_iff.mpr ⟨op, front⟩
      rw [branchLabels_prologue] at goes
      rw [placedLabels_append, placedLabels_prologue]
      exact List.mem_append_left _ goes
    · obtain ⟨part, inside, member⟩ := List.mem_flatten.mp behind
      obtain ⟨entry, known, woven⟩ := exists_entry_of_mem_parts related inside
      obtain own | ⟨target, goes, rfl⟩ := woven.branches (mem_branchLabels_iff.mpr ⟨op, member⟩)
      · rw [mem_placedLabels_iff] at own ⊢
        exact List.mem_append_right _ (List.mem_flatten.mpr ⟨part, inside, own⟩)
      · rw [placed]
        have goal := mem_landmarks_of_target? decoded known goes
        exact List.mem_map.mpr ⟨_, List.mem_cons_of_mem _ (List.mem_cons_of_mem _ goal), rfl⟩

end Assembly

/-! ### Interception succeeds -/

/-- The code of a woven method; the call map comes right behind the local variables that the method
had. -/
def wovenListing (imports : Imports) (token : Token) (d : MethodDef)
    (entries : List (Instruction × Option CallSite)) : Allocate (List ListingItem) := do
  let mapLocal ← Allocate.newLocal Intrinsic.callMapType
  methodListing imports { token, owner := d.owner, hasThis := d.hasThis, mapLocal } entries

/-- There is room for the scaffolds of a method: local variables can be numbered, tokens can name the
types, and the code is below two gigabytes. -/
structure HasRoom (m : Module) (imports : Imports) (token : Token) (d : MethodDef) (body : Body)
    (entries : List (Instruction × Option CallSite)) : Prop where
  locals : body.locals.length + 1 +
    ((entries.filterMap Prod.snd).flatMap CallSite.slotTypes).length ≤ 0x10000
  types : (m.nameTypes ((entries.filterMap Prod.snd).flatMap CallSite.namedTypes)).typeSpecs.size ≤
    Edit.rowLimit
  code : ∀ items locals m', YieldsWith (wovenListing imports token d entries) body.locals.toArray m
    items locals m' → listingSize items < 0x80000000

section Interception

variable {m : Module} {o : WeavePolicy} {imports : Imports} {token : Token} {d : MethodDef}
  {body : Body} {entries : List (Instruction × Option CallSite)} {i : Instruction}
  {bytes : List UInt8}

/-- Calls and creations of objects name a method. -/
theorem exists_token_of_isCall (spelled : i.operand.Spelled i.offset i.op bytes)
    (calls : (i.isCall || i.isConstruction) = true) : ∃ target, i.token? = some target := by
  have kind := Instruction.operandKind_of_isCall calls
  unfold Instruction.token?
  generalize i.operand = operand at spelled
  cases operand with
  | token target => exact ⟨target, rfl⟩
  | target goal =>
    have branches := spelled.1
    rw [Opcode.isBranch, kind] at branches
    cases branches
  | _ =>
    -- No other operand is written for these operations.
    have written := operandBytes_eq_ok_iff.mp spelled.2
    rw [kind] at written
    split at written <;> cases written

/-- The instructions of a method can be looked at if its calls resolve. -/
theorem exists_callSites {instructions : List Instruction}
    (resolve : ∀ i ∈ instructions, (i.isCall || i.isConstruction) = true →
      ∃ target method, i.token? = some target ∧ m.methodAt target = .ok method) :
    ∃ entries, callSites m o instructions = .ok entries := by
  have each {i : Instruction} (member : i ∈ instructions) :
      ∃ site, CallSite.at? m o i = .ok site := by
    unfold CallSite.at?
    split
    case isTrue => exact ⟨none, rfl⟩
    case isFalse calls =>
      obtain ⟨target, method, named, found⟩ := resolve i member (by
        cases called : i.isCall with
        | true => rfl
        | false => simpa [called] using calls)
      rw [named]
      exact ⟨_, bind_eq_ok_iff.mpr ⟨method, found, rfl⟩⟩
  -- What the induction needs is only that each lookup succeeds.
  clear resolve
  induction instructions with
  | nil => exact ⟨[], rfl⟩
  | cons i rest ih =>
    obtain ⟨site, looked⟩ := each (List.mem_cons_self ..)
    obtain ⟨entries, others⟩ := ih fun member => each (List.mem_cons_of_mem _ member)
    obtain ⟨same, all⟩ := callSites_eq_ok_iff.mp others
    exact ⟨(i, site) :: entries, callSites_eq_ok_iff.mpr
      ⟨by rw [List.map_cons, same], List.forall_mem_cons.mpr ⟨looked, all⟩⟩⟩

/-- The code of a woven method needs a local variable for the call map. -/
theorem needs_wovenListing (kept : ∀ entry ∈ entries, ∃ item, keptItem entry.1 = .ok item) :
    (wovenListing imports token d entries).Needs
      ([Intrinsic.callMapType] ++ (entries.filterMap Prod.snd).flatMap CallSite.slotTypes)
      ([] ++ (entries.filterMap Prod.snd).flatMap CallSite.namedTypes) :=
  (needs_newLocal Intrinsic.callMapType).bind fun _ _ _ _ _ _ => needs_methodListing kept

/-- A method is woven if there is room for its scaffolds. -/
theorem exists_wovenBody (decoded : decodeCode body.code = .ok (entries.map Prod.fst))
    (sites : ∀ i site, (i, some site) ∈ entries → site.IsAt m i)
    (room : HasRoom m imports token d body entries) :
    ∃ woven m', Yields (wovenBody (some imports) token d body entries) m woven m' ∧
      m.Extends m' := by
  have kept : ∀ entry ∈ entries, ∃ item, keptItem entry.1 = .ok item := by
    intro entry member
    obtain ⟨bytes, spelled⟩ :=
      (spelledFrom_of_decodeCode decoded).spelled_of_mem (List.mem_map_of_mem member)
    obtain ⟨item, kept, -⟩ := exists_keptItem spelled
    exact ⟨item, kept⟩
  have numbered : body.locals.toArray.size + ([Intrinsic.callMapType] ++
      (entries.filterMap Prod.snd).flatMap CallSite.slotTypes).length ≤ 0x10000 := by
    have := room.locals
    rw [List.length_append, List.length_singleton, List.size_toArray]
    omega
  obtain ⟨items, locals, -, laid⟩ := needs_wovenListing kept body.locals.toArray m numbered room.types
  -- The layout is the one that the bound on the code is about.
  have short := room.code _ _ _ laid
  obtain ⟨mapLocal, locals₁, m₁, reserved, listed⟩ := yieldsWith_bind.mp laid
  obtain ⟨grown, -, parts, woven, rfl⟩ := wovenParts_of_methodListing listed
  obtain ⟨-, -, -, rfl⟩ := yields_newLocal.mp reserved
  obtain ⟨⟨code, labels⟩, assembled⟩ := exists_assemble_listing decoded
    (fun i site member => (sites i site member).grows grown.grows) woven.forall₂ short
  unfold wovenBody
  exact ⟨_, _, yields_bind.mpr ⟨(_, locals), _, yieldsWith_bind.mpr ⟨mapLocal, _, _, reserved,
    yieldsWith_liftM_bind.mpr ⟨imports, rfl, listed⟩⟩,
    yields_liftM_bind.mpr ⟨_, assembled, yields_pure.mpr ⟨rfl, rfl⟩⟩⟩, grown⟩

/-- The calls of a method are intercepted without an error if its code can be decoded, the operands of
its calls and creations of objects name methods, and there is room for the scaffolds. -/
theorem exists_interceptCalls (found : m.methodDefAt token = .ok d)
    (decodes : ∀ body, d.body = some body → ∃ instructions, decodeCode body.code = .ok instructions)
    (resolve : ∀ body instructions, d.body = some body → decodeCode body.code = .ok instructions →
      ∀ i ∈ instructions, (i.isCall || i.isConstruction) = true → ∀ target,
        i.token? = some target → ∃ method, m.methodAt target = .ok method)
    (room : ∀ body entries, d.body = some body →
      decodeCode body.code = .ok (entries.map Prod.fst) →
      callSites m o (entries.map Prod.fst) = .ok entries → entries.filterMap Prod.snd ≠ [] →
      HasRoom m imports token d body entries) :
    ∃ count m', Yields (interceptCalls o (some imports) token) m count m' := by
  unfold interceptCalls
  simp only [yields_get_bind, yields_liftM_bind]
  cases hasBody : d.body with
  | none => exact ⟨0, m, d, found, by rw [hasBody]; exact yields_pure.mpr ⟨rfl, rfl⟩⟩
  | some body =>
    obtain ⟨instructions, decoded⟩ := decodes body hasBody
    have named : ∀ i ∈ instructions, (i.isCall || i.isConstruction) = true →
        ∃ target method, i.token? = some target ∧ m.methodAt target = .ok method := by
      intro i member calls
      obtain ⟨bytes, spelled⟩ := (spelledFrom_of_decodeCode decoded).spelled_of_mem member
      obtain ⟨target, named⟩ := exists_token_of_isCall spelled calls
      obtain ⟨method, found⟩ := resolve body instructions hasBody decoded i member calls target named
      exact ⟨target, method, named, found⟩
    obtain ⟨entries, looked⟩ := exists_callSites (o := o) named
    obtain ⟨rfl, all⟩ := callSites_eq_ok_iff.mp looked
    by_cases none : (entries.filterMap Prod.snd).length = 0
    · refine ⟨0, m, d, found, ?_⟩
      rw [hasBody]
      refine yields_liftM_bind.mpr ⟨_, decoded, yields_liftM_bind.mpr ⟨entries, looked, ?_⟩⟩
      rw [if_pos none]
      exact yields_pure.mpr ⟨rfl, rfl⟩
    · -- The module grows while the code is laid out, and the row of the method stays.
      have some : entries.filterMap Prod.snd ≠ [] := fun same => none (by rw [same]; rfl)
      obtain ⟨woven, m₁, laid, grown⟩ := exists_wovenBody decoded
        (fun i site member => CallSite.isAt_of_at? (all _ member))
        (room body entries hasBody decoded looked some)
      have there : m₁.methodDefAt token = .ok d := grown.methodDefAt.trans found
      obtain ⟨m', set⟩ : ∃ m', Yields (Edit.setBody token (.some woven)) m₁ () m' :=
        ⟨_, yields_setBody.mpr ⟨d, there, rfl⟩⟩
      refine ⟨(entries.filterMap Prod.snd).length, m', d, found, ?_⟩
      rw [hasBody]
      refine yields_liftM_bind.mpr ⟨_, decoded, yields_liftM_bind.mpr ⟨entries, looked, ?_⟩⟩
      rw [if_neg none]
      exact laid.bind (set.bind (yields_pure.mpr ⟨rfl, rfl⟩))

end Interception

/-- A module with a method that passes a number to another one and keeps what it returns. -/
def valueCallModule : Module where
  name := "Demo"
  types := #[.ofClass "Demo.A"]
  methods := #[
    { owner := .ofRow .typeDef 1, name := "f", flags := .isStatic,
      body := some {
        locals := [.int32]
        code := [0x1B, 0x28, 0x02, 0x00, 0x00, 0x06, 0x0A, 0x2B, 0x00, 0x2A] } },
    { owner := .ofRow .typeDef 1, name := "g", flags := .isStatic, parameters := [.int32],
      returnType := .int32, body := some { code := [0x02, 0x2A] } }]

/-- The module and the tokens that scaffolds refer to, after these were added. -/
private def importedValueCall : Imports × Module :=
  let (imports, m) := addImports.run.run valueCallModule
  (imports.toOption.getD ⟨fun _ => default, default, default⟩, m)

/-- A result that is there is found again. -/
private theorem eq_ok_getD {α : Type} {x : Except Error α} (h : x.toOption.isSome = true) (a : α) :
    x = .ok (x.toOption.getD a) := by
  cases x with
  | ok b => rfl
  | error e => cases h

theorem exists_interceptCalls_valueCall : ∃ imports m count m',
    Yields addImports valueCallModule imports m ∧
    Yields (interceptCalls {} (some imports) (.ofRow .methodDef 1)) m count m' := by
  let imports := importedValueCall.1
  let m := importedValueCall.2
  let d := valueCallModule.methods[0]
  let body : Body :=
    { locals := [.int32], code := [0x1B, 0x28, 0x02, 0x00, 0x00, 0x06, 0x0A, 0x2B, 0x00, 0x2A] }
  let instructions := (decodeCode body.code).toOption.getD []
  let entries := (callSites m {} instructions).toOption.getD []
  let sites := entries.filterMap Prod.snd
  let listing := ((wovenListing imports (.ofRow .methodDef 1) d entries).run
    body.locals.toArray).run.run m
  obtain ⟨added, decodes, resolve, looks, locals, types, short⟩ :
      (addImports.run.run valueCallModule).1.toOption.isSome = true ∧
      (decodeCode body.code).toOption.isSome = true ∧
      (∀ i ∈ instructions, ∀ target ∈ i.token?, (m.methodAt target).toOption.isSome = true) ∧
      (callSites m {} instructions).toOption.isSome = true ∧
      body.locals.length + 1 + (sites.flatMap CallSite.slotTypes).length ≤ 0x10000 ∧
      (m.nameTypes (sites.flatMap CallSite.namedTypes)).typeSpecs.size ≤ Edit.rowLimit ∧
      ∀ size ∈ listing.1.toOption.map (listingSize ·.1), size < 0x80000000 := by
    decide +kernel
  have decoded := eq_ok_getD decodes []
  have imported : Yields addImports valueCallModule imports m :=
    Prod.ext (eq_ok_getD added _) rfl
  have found : m.methodDefAt (.ofRow .methodDef 1) = .ok d :=
    (Imports.resolve_of_addImports imported).1.methodDefAt
  -- The body of the method is the one for which all this was computed.
  have only {body' : Body} (hasBody : d.body = some body') : body' = body :=
    (Option.some.inj hasBody).symm
  have decodes' (body' : Body) (hasBody : d.body = some body') :
      ∃ instructions, decodeCode body'.code = .ok instructions :=
    ⟨instructions, only hasBody ▸ decoded⟩
  have resolve' (body' : Body) (instructions' : List Instruction) (hasBody : d.body = some body')
      (decoded' : decodeCode body'.code = .ok instructions') (i : Instruction)
      (member : i ∈ instructions') (_ : (i.isCall || i.isConstruction) = true) (target : Token)
      (named : i.token? = some target) : ∃ method, m.methodAt target = .ok method := by
    obtain rfl := only hasBody
    obtain rfl := Except.ok.inj (decoded.symm.trans decoded')
    exact ⟨_, eq_ok_getD (resolve i member target named) default⟩
  have room (body' : Body) (entries' : List (Instruction × Option CallSite))
      (hasBody : d.body = some body') (decoded' : decodeCode body'.code = .ok (entries'.map Prod.fst))
      (looked : callSites m {} (entries'.map Prod.fst) = .ok entries')
      (_ : entries'.filterMap Prod.snd ≠ []) :
      HasRoom m imports (.ofRow .methodDef 1) d body' entries' := by
    obtain rfl := only hasBody
    rw [← Except.ok.inj (decoded.symm.trans decoded')] at looked
    obtain rfl := Except.ok.inj ((eq_ok_getD looks []).symm.trans looked)
    refine ⟨locals, types, fun items locals m' laid => short _ ?_⟩
    have run : listing = (.ok (items, locals), m') := laid
    rw [run]
    rfl
  obtain ⟨count, m', intercepted⟩ := exists_interceptCalls found decodes' resolve' room
  exact ⟨imports, m, count, m', imported, intercepted⟩

end Interpose
