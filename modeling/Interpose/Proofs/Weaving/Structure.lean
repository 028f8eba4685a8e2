import Interpose.Proofs.Code.Assembly
import Interpose.Proofs.Weaving.Layout
import Mathlib.Data.List.Forall2

/-!
# The structure of woven code

Woven code is a prologue and, for each instruction of the method, a part that starts with the label
of the instruction.  The part of an instruction that is kept has one more item; that of a call site
is the scaffold of the call site, with local variables that no other part uses.

## Main definitions

* `fillFrom` — the code that fills an array, by recursion on the elements
* `WovenPart` — the part of woven code that belongs to an instruction
* `WovenParts` — the parts of the instructions of a method
* `Weave` — a body is woven from another one

## Main results

* `weave_of_interceptCalls` — what intercepting the calls of a method does to its module
-/

namespace Interpose

/-- Fills an array that is on the stack from an index on. -/
def fillFrom : (index : Nat) → List (List ListingItem) → List ListingItem
  | _, [] => []
  | index, load :: rest =>
    [.plain .dup, .int32 (Int32.ofNat index)] ++ load ++ [.plain .stelemRef] ++
      fillFrom (index + 1) rest

theorem fillArray_eq_fillFrom (elements : List (List ListingItem)) :
    fillArray elements = fillFrom 0 elements := by
  have fill (index : Nat) : (elements.zipIdx index).flatMap (fun entry =>
      [.plain .dup, .int32 (Int32.ofNat entry.2)] ++ entry.1 ++ [.plain .stelemRef]) =
      fillFrom index elements := by
    induction elements generalizing index with
    | nil => rfl
    | cons load rest ih => rw [List.zipIdx_cons, List.flatMap_cons, ih, fillFrom]
  exact fill 0

/-- A branch is kept in its long form and goes to the label of its target.  All else is kept as it is. -/
theorem keptItem_eq_ok_iff {i : Instruction} {item : ListingItem} : keptItem i = .ok item ↔
    (i.op.isBranch = true ∧ ∃ target, i.target? = some target ∧
      item = .branch i.op.widened (instructionLabel target)) ∨
    i.op.isBranch = false ∧ item = .decoded i := by
  unfold keptItem
  cases branches : i.op.isBranch with
  | false =>
    rw [if_neg Bool.false_ne_true]
    constructor
    · exact fun h => .inr ⟨rfl, (Except.ok.inj h).symm⟩
    · rintro (⟨branch, -⟩ | ⟨-, rfl⟩)
      · cases branch
      · rfl
  | true =>
    rw [if_pos rfl]
    constructor
    · intro h
      split at h
      case h_1 target known => exact .inl ⟨rfl, target, known, (Except.ok.inj h).symm⟩
      case h_2 => cases h
    · rintro (⟨-, target, known, rfl⟩ | ⟨straight, -⟩)
      · rw [known]
        rfl
      · cases straight

/-- The part of woven code that belongs to an instruction.  The scaffolds of call sites use local
variables with numbers from `base` to `limit`. -/
inductive WovenPart (m : Module) (imports : Imports) (host : Host) (base limit : Nat) :
    Instruction × Option CallSite → List ListingItem → Prop
  | kept {i : Instruction} {item : ListingItem} : keptItem i = .ok item →
      WovenPart m imports host base limit (i, none) [.label (instructionLabel i.offset), item]
  | site {i : Instruction} {site : CallSite} {layout : SiteLayout} {first : Nat} :
      base ≤ first → first + site.slotTypes.length ≤ limit → layout.Reserved first site →
      (m.types.size ≤ Edit.rowLimit → layout.Named m) →
      WovenPart m imports host base limit (i, some site)
        (.label (instructionLabel i.offset) :: layout.listing imports host)

/-- Related lists are split at related places. -/
theorem split_of_forall₂ {α β : Type} {R : α → β → Prop} {before after : List α} {a : α}
    {bs : List β} (h : List.Forall₂ R (before ++ a :: after) bs) :
    ∃ front b back, bs = front ++ b :: back ∧ List.Forall₂ R before front ∧ R a b ∧
      List.Forall₂ R after back := by
  induction before generalizing bs with
  | nil =>
    cases h with
    | cons related rest => exact ⟨[], _, _, rfl, .nil, related, rest⟩
  | cons first others ih =>
    cases h with
    | cons related rest =>
      obtain ⟨front, b, back, rfl, before, here, after⟩ := ih rest
      exact ⟨_ :: front, b, back, rfl, .cons related before, here, after⟩

section Listing

variable {m m' : Module} {imports : Imports} {host : Host} {locals locals' : Array Ty}

theorem SiteLayout.Named.mono {s : SiteLayout} (h : s.Named m) (grown : m.Grows m') :
    s.Named m' := by
  refine ⟨fun slot member => (h.boxes slot member).mono grown, ?_⟩
  have result := h.result
  split at result
  case isTrue none => rwa [if_pos none]
  case isFalse some =>
    obtain ⟨token, named, stands⟩ := result
    rw [if_neg some, grown.namedType]
    exact ⟨token, named, grown.typeAt stands⟩

theorem WovenPart.mono {base limit base' limit' : Nat} {entry : Instruction × Option CallSite}
    {part : List ListingItem} (h : WovenPart m imports host base limit entry part)
    (lower : base' ≤ base) (upper : limit ≤ limit') (grown : m.Grows m') :
    WovenPart m' imports host base' limit' entry part := by
  cases h with
  | kept item => exact .kept item
  | site above below reserved named =>
    exact .site (by omega) (by omega) reserved fun small =>
      (named (by rwa [← grown.types])).mono grown

/-- The parts of several instructions.  The numbers of the local variables that a part uses are behind
those of the parts before it. -/
inductive WovenParts (m : Module) (imports : Imports) (host : Host) : (base limit : Nat) →
    List (Instruction × Option CallSite) → List (List ListingItem) → Prop
  | nil {base : Nat} : WovenParts m imports host base base [] []
  | cons {base middle limit : Nat} {entry : Instruction × Option CallSite}
      {part : List ListingItem} {entries : List (Instruction × Option CallSite)}
      {parts : List (List ListingItem)} :
      base ≤ middle → WovenPart m imports host base middle entry part →
      WovenParts m imports host middle limit entries parts →
      WovenParts m imports host base limit (entry :: entries) (part :: parts)

namespace WovenParts

variable {base limit : Nat} {entries : List (Instruction × Option CallSite)}
  {parts : List (List ListingItem)}

theorem le (h : WovenParts m imports host base limit entries parts) : base ≤ limit := by
  induction h with
  | nil => exact Nat.le_refl _
  | cons below _ _ ih => exact Nat.le_trans below ih

theorem forall₂ (h : WovenParts m imports host base limit entries parts) :
    List.Forall₂ (WovenPart m imports host base limit) entries parts := by
  induction h with
  | nil => exact .nil
  | cons below first rest ih =>
    refine .cons (first.mono (Nat.le_refl _) rest.le (.refl m)) ?_
    exact ih.imp fun _ _ h => h.mono below (Nat.le_refl _) (.refl m)

/-- The local variables of a part are behind those of the parts before it. -/
theorem exists_bounds (h : WovenParts m imports host base limit entries parts) {a b : Nat}
    (before : a < b) {first second : Instruction × Option CallSite}
    {firstPart secondPart : List ListingItem} (here : entries[a]? = some first)
    (there : entries[b]? = some second) (own : parts[a]? = some firstPart)
    (other : parts[b]? = some secondPart) : ∃ middle,
      WovenPart m imports host base middle first firstPart ∧
      WovenPart m imports host middle limit second secondPart := by
  induction h generalizing a b with
  | nil => cases here
  | @cons base middle limit entry part entries parts below head rest ih =>
    cases b with
    | zero => cases before
    | succ b =>
      rw [List.getElem?_cons_succ] at there other
      cases a with
      | zero =>
        cases here
        cases own
        -- The variables of the later parts begin where those of this one end.
        have behind := List.forall₂_iff_get.mp rest.forall₂
        obtain ⟨inside, rfl⟩ := List.getElem?_eq_some_iff.mp there
        obtain ⟨inside', rfl⟩ := List.getElem?_eq_some_iff.mp other
        exact ⟨middle, head, behind.2 b inside inside'⟩
      | succ a =>
        rw [List.getElem?_cons_succ] at here own
        obtain ⟨bound, low, high⟩ := ih (Nat.lt_of_succ_lt_succ before) here there own other
        exact ⟨bound, low.mono below (Nat.le_refl _) (.refl m), high⟩

end WovenParts

/-- The part of an instruction is what is made of the instruction. -/
theorem wovenPart_of_instructionListing {i : Instruction} {site : Option CallSite}
    {part : List ListingItem}
    (h : YieldsWith (instructionListing imports host i site) locals m part locals' m') :
    m.Extends m' ∧ locals.toList <+: locals'.toList ∧
      WovenPart m' imports host locals.size locals'.size (i, site) part := by
  unfold instructionListing at h
  cases site with
  | none =>
    obtain ⟨item, kept, h⟩ := yieldsWith_liftM_bind.mp h
    obtain ⟨rfl, rfl, rfl⟩ := yieldsWith_pure.mp h
    exact ⟨.refl m, List.prefix_refl _, .kept kept⟩
  | some site =>
    obtain ⟨layout, locals₁, m₁, reserved, h⟩ := yieldsWith_bind.mp h
    obtain ⟨rfl, rfl, rfl⟩ := yieldsWith_pure.mp h
    obtain ⟨grown, extended, numbered, named⟩ := SiteLayout.of_reserve reserved
    have size := congrArg List.length extended
    rw [List.length_append, Array.length_toList, Array.length_toList] at size
    refine ⟨grown, extended ▸ List.prefix_append .., ?_⟩
    exact .site (Nat.le_refl _) (by omega) numbered fun small => named (by rwa [← grown.types])

private theorem wovenParts_of_mapM {entries : List (Instruction × Option CallSite)}
    {parts : List (List ListingItem)}
    (h : YieldsWith (entries.mapM fun (i, site) => instructionListing imports host i site) locals m
      parts locals' m') :
    m.Extends m' ∧ locals.toList <+: locals'.toList ∧
      WovenParts m' imports host locals.size locals'.size entries parts := by
  induction entries generalizing locals m parts with
  | nil =>
    obtain ⟨rfl, rfl, rfl⟩ := yieldsWith_mapM_nil.mp h
    exact ⟨.refl m, List.prefix_refl _, .nil⟩
  | cons entry rest ih =>
    obtain ⟨part, locals₁, m₁, others, first, later, rfl⟩ := yieldsWith_mapM_cons.mp h
    obtain ⟨grown₁, extended₁, woven⟩ := wovenPart_of_instructionListing first
    obtain ⟨grown₂, extended₂, wovenRest⟩ := ih later
    have size₁ := extended₁.length_le
    simp only [Array.length_toList] at size₁
    refine ⟨grown₁.trans grown₂, extended₁.trans extended₂, .cons size₁ ?_ wovenRest⟩
    exact woven.mono (Nat.le_refl _) (Nat.le_refl _) grown₂.grows

/-- The code of a woven method: a prologue and the parts of the instructions. -/
theorem wovenParts_of_methodListing {entries : List (Instruction × Option CallSite)}
    {items : List ListingItem}
    (h : YieldsWith (methodListing imports host entries) locals m items locals' m') :
    m.Extends m' ∧ locals.toList <+: locals'.toList ∧ ∃ parts,
      WovenParts m' imports host locals.size locals'.size entries parts ∧
      items = prologue imports host (calledTokens (entries.filterMap Prod.snd)) ++
        parts.flatten := by
  unfold methodListing at h
  obtain ⟨parts, locals₁, m₁, mapped, h⟩ := yieldsWith_bind.mp h
  obtain ⟨rfl, rfl, rfl⟩ := yieldsWith_pure.mp h
  obtain ⟨grown, extended, woven⟩ := wovenParts_of_mapM mapped
  exact ⟨grown, extended, parts, woven, rfl⟩

end Listing

/-- The method that a definition is when it is woven. -/
def hostOf (token : Token) (d : MethodDef) (body : Body) : Host where
  token
  owner := d.owner
  hasThis := d.hasThis
  mapLocal := UInt16.ofNat body.locals.length

/-- An instruction is a call site. -/
structure CallSite.IsAt (m : Module) (i : Instruction) (site : CallSite) : Prop where
  instruction_eq : site.instruction = i
  isCall : (i.isCall || i.isConstruction) = true
  token_eq : i.token? = some site.token
  target_eq : ∃ method, m.methodAt site.token = .ok method ∧ site.target = method.closeDeclaring

/-- A body is woven from the body of a definition.  The call map is held behind the local variables
of the body, and the values of calls are held behind the call map. -/
structure Weave (m : Module) (imports : Imports) (token : Token) (d : MethodDef) (body woven : Body)
    where
  entries : List (Instruction × Option CallSite)
  parts : List (List ListingItem)
  labels : List (String × Nat)
  /-- The types of the local variables of the scaffolds. -/
  fresh : List Ty
  decoded : decodeCode body.code = .ok (entries.map Prod.fst)
  sites : ∀ i site, (i, some site) ∈ entries → site.IsAt m i
  parts_of_entries : List.Forall₂ (WovenPart m imports (hostOf token d body)
    (body.locals.length + 1) woven.locals.length) entries parts
  assembled : assemble (prologue imports (hostOf token d body)
    (calledTokens (entries.filterMap Prod.snd)) ++ parts.flatten) = .ok (woven.code, labels)
  mapLocal_lt : body.locals.length < 0x10000
  locals_eq : woven.locals = body.locals ++ Intrinsic.callMapType :: fresh
  maxStack_eq : woven.maxStack = wovenStack body.maxStack

namespace Weave

variable {m : Module} {imports : Imports} {token : Token} {d : MethodDef} {body woven : Body}

/-- The items of woven code. -/
def items (w : Weave m imports token d body woven) : List ListingItem :=
  prologue imports (hostOf token d body) (calledTokens (w.entries.filterMap Prod.snd)) ++
    w.parts.flatten

/-- The offset of a label in woven code. -/
def label? (w : Weave m imports token d body woven) (name : String) : Option Nat :=
  w.labels.lookup name

/-- Where the code of the instruction at an offset has gone. -/
def moved? (w : Weave m imports token d body woven) (offset : UInt32) : Option UInt32 :=
  (w.label? (instructionLabel offset.toNat)).map UInt32.ofNat

theorem encodes (w : Weave m imports token d body woven) :
    Encodes w.label? 0 w.items woven.code :=
  encodes_of_assemble w.assembled

/-- The part of an instruction, between the parts of the instructions before and behind it. -/
theorem exists_part (w : Weave m imports token d body woven)
    {before after : List (Instruction × Option CallSite)} {entry : Instruction × Option CallSite}
    (h : w.entries = before ++ entry :: after) :
    ∃ front part back, w.parts = front ++ part :: back ∧
      List.Forall₂ (WovenPart m imports (hostOf token d body) (body.locals.length + 1)
        woven.locals.length) before front ∧
      WovenPart m imports (hostOf token d body) (body.locals.length + 1) woven.locals.length entry
        part ∧
      List.Forall₂ (WovenPart m imports (hostOf token d body) (body.locals.length + 1)
        woven.locals.length) after back := by
  have related := w.parts_of_entries
  rw [h] at related
  exact split_of_forall₂ related

end Weave

section Methods

variable {m m' : Module} {token : Token} {d : MethodDef} {body woven : Body}
  {entries : List (Instruction × Option CallSite)}

theorem CallSite.IsAt.grows {i : Instruction} {site : CallSite} (h : site.IsAt m i)
    (grows : m.Grows m') : site.IsAt m' i := by
  obtain ⟨method, found, target⟩ := h.target_eq
  exact ⟨h.instruction_eq, h.isCall, h.token_eq, method, grows.methodAt found, target⟩

/-- A woven body stays one in a module that has grown. -/
def Weave.grow {imports : Imports} (w : Weave m imports token d body woven) (grows : m.Grows m') :
    Weave m' imports token d body woven where
  entries := w.entries
  parts := w.parts
  labels := w.labels
  fresh := w.fresh
  decoded := w.decoded
  sites i site member := (w.sites i site member).grows grows
  parts_of_entries := w.parts_of_entries.imp fun _ _ h =>
    h.mono (Nat.le_refl _) (Nat.le_refl _) grows
  assembled := w.assembled
  mapLocal_lt := w.mapLocal_lt
  locals_eq := w.locals_eq
  maxStack_eq := w.maxStack_eq

/-- What an instruction is when it is looked at stays so in a module that has grown. -/
theorem CallSite.at?_grows {o : WeavePolicy} {i : Instruction} {site : Option CallSite}
    (h : CallSite.at? m o i = .ok site) (grows : m.Grows m') : CallSite.at? m' o i = .ok site := by
  unfold CallSite.at? at h ⊢
  split at h
  case isTrue other => rwa [if_pos other]
  case isFalse calls =>
    rw [if_neg calls]
    split at h
    case h_1 => cases h
    case h_2 token known =>
      obtain ⟨method, found, h⟩ := bind_eq_ok_iff.mp h
      exact bind_eq_ok_iff.mpr ⟨method, grows.methodAt found, h⟩

/-- The call site that an instruction is. -/
theorem CallSite.isAt_of_at? {o : WeavePolicy} {i : Instruction} {site : CallSite}
    (h : CallSite.at? m o i = .ok (some site)) : site.IsAt m i := by
  unfold CallSite.at? at h
  split at h
  case isTrue => cases h
  case isFalse calls =>
    split at h
    case h_1 => cases h
    case h_2 token known =>
      obtain ⟨method, found, h⟩ := bind_eq_ok_iff.mp h
      have taken := Except.ok.inj h
      split at taken
      case isTrue => cases taken
      case isFalse =>
        cases taken
        refine ⟨rfl, ?_, known, method, found, rfl⟩
        cases called : i.isCall with
        | true => rfl
        | false => simpa [called] using calls

/-- The instructions of a method are looked at one by one. -/
theorem callSites_eq_ok_iff {o : WeavePolicy} {instructions : List Instruction} :
    callSites m o instructions = .ok entries ↔
      entries.map Prod.fst = instructions ∧
        ∀ entry ∈ entries, CallSite.at? m o entry.1 = .ok entry.2 := by
  unfold callSites
  induction instructions generalizing entries with
  | nil =>
    rw [List.mapM_nil]
    constructor
    · intro h
      cases h
      exact ⟨rfl, fun entry member => nomatch member⟩
    · rintro ⟨same, -⟩
      rw [List.map_eq_nil_iff.mp same]
      rfl
  | cons i rest ih =>
    rw [List.mapM_cons, bind_eq_ok_iff]
    constructor
    · rintro ⟨entry, first, h⟩
      obtain ⟨site, found, same⟩ := bind_eq_ok_iff.mp first
      cases same
      obtain ⟨others, later, same⟩ := bind_eq_ok_iff.mp h
      cases same
      obtain ⟨same, all⟩ := ih.mp later
      exact ⟨by rw [List.map_cons, same], List.forall_mem_cons.mpr ⟨found, all⟩⟩
    · rintro ⟨same, all⟩
      cases entries with
      | nil => cases same
      | cons entry others =>
        obtain ⟨rfl, rest_eq⟩ := List.cons.inj same
        obtain ⟨found, later⟩ := List.forall_mem_cons.mp all
        refine ⟨entry, bind_eq_ok_iff.mpr ⟨entry.2, found, rfl⟩, ?_⟩
        exact bind_eq_ok_iff.mpr ⟨others, ih.mpr ⟨rest_eq, later⟩, rfl⟩

private theorem requireImports_eq_ok_iff {known : Option Imports} {imports : Imports} :
    requireImports known = .ok imports ↔ known = some imports := by
  cases known with
  | none => exact ⟨fun h => (nomatch h), fun h => (nomatch h)⟩
  | some other =>
    constructor
    · intro h
      rw [Except.ok.inj h]
    · intro h
      rw [Option.some.inj h]
      rfl

/-- What weaving the body of a method does. -/
theorem weave_of_wovenBody {known : Option Imports}
    (decoded : decodeCode body.code = .ok (entries.map Prod.fst))
    (sites : ∀ i site, (i, some site) ∈ entries → site.IsAt m i)
    (h : Yields (wovenBody known token d body entries) m woven m') :
    m.Extends m' ∧ ∃ imports, known = some imports ∧
      ∃ w : Weave m' imports token d body woven, w.entries = entries ∧
        woven.points = body.points.relocate w.moved? ∧
        WovenParts m' imports (hostOf token d body) (body.locals.length + 1) woven.locals.length
          w.entries w.parts := by
  unfold wovenBody at h
  obtain ⟨⟨items, locals⟩, m₁, laid, h⟩ := yields_bind.mp h
  obtain ⟨⟨code, labels⟩, assembled, h⟩ := yields_liftM_bind.mp h
  obtain ⟨rfl, rfl⟩ := yields_pure.mp h
  have laid : YieldsWith _ body.locals.toArray m items locals m₁ := laid
  obtain ⟨mapLocal, locals₁, m₂, reserved, laid⟩ := yieldsWith_bind.mp laid
  obtain ⟨imports, imported, laid⟩ := yieldsWith_liftM_bind.mp laid
  obtain ⟨small, rfl, rfl, rfl⟩ := yields_newLocal.mp reserved
  obtain ⟨grown, ⟨fresh, extended⟩, parts, woven, rfl⟩ := wovenParts_of_methodListing laid
  -- The local variable of the call map comes right behind those of the body.
  simp only [Array.size_push, List.size_toArray, Array.toList_push] at woven extended small
  refine ⟨grown, imports, requireImports_eq_ok_iff.mp imported, ?_⟩
  refine ⟨{
    entries
    parts
    labels
    fresh
    decoded
    sites := fun i site member => (sites i site member).grows grown.grows
    parts_of_entries := woven.forall₂
    assembled
    mapLocal_lt := small
    locals_eq := ?_
    maxStack_eq := rfl }, rfl, rfl, woven⟩
  rw [← extended]
  simp

/-- Intercepting the calls of a method does nothing if there are none, and otherwise gives it a woven
body. -/
theorem wovenBody_of_interceptCalls {o : WeavePolicy} {known : Option Imports} {count : Nat}
    (h : Yields (interceptCalls o known token) m count m') :
    ∃ d, m.methodDefAt token = .ok d ∧
      ((count = 0 ∧ m' = m ∧ ∀ body, d.body = some body → ∃ instructions,
          decodeCode body.code = .ok instructions ∧
          ∀ i ∈ instructions, CallSite.at? m o i = .ok none) ∨
        ∃ body entries woven m₁, d.body = some body ∧
          decodeCode body.code = .ok (entries.map Prod.fst) ∧
          (∀ entry ∈ entries, CallSite.at? m o entry.1 = .ok entry.2) ∧
          count = (entries.filterMap Prod.snd).length ∧ 0 < count ∧
          Yields (wovenBody known token d body entries) m woven m₁ ∧
          Yields (Edit.setBody token (some woven)) m₁ () m') := by
  unfold interceptCalls at h
  rw [yields_get_bind] at h
  obtain ⟨d, found, h⟩ := yields_liftM_bind.mp h
  refine ⟨d, found, ?_⟩
  split at h
  case h_1 none =>
    obtain ⟨rfl, rfl⟩ := yields_pure.mp h
    refine .inl ⟨rfl, rfl, fun body some => ?_⟩
    rw [none] at some
    cases some
  case h_2 body hasBody =>
    obtain ⟨instructions, decoded, h⟩ := yields_liftM_bind.mp h
    obtain ⟨entries, looked, h⟩ := yields_liftM_bind.mp h
    dsimp only at h
    split at h
    -- No call site was found, so none of the instructions is one.
    case isTrue none =>
      obtain ⟨rfl, rfl⟩ := yields_pure.mp h
      obtain ⟨rfl, all⟩ := callSites_eq_ok_iff.mp looked
      refine .inl ⟨rfl, rfl, fun body' same => ⟨entries.map Prod.fst, ?_, fun i member => ?_⟩⟩
      · rw [hasBody, Option.some.injEq] at same
        exact same ▸ decoded
      · obtain ⟨⟨i, site⟩, inside, rfl⟩ := List.mem_map.mp member
        cases site with
        | none => exact all _ inside
        | some site =>
          have counted : site ∈ entries.filterMap Prod.snd :=
            List.mem_filterMap.mpr ⟨_, inside, rfl⟩
          rw [List.length_eq_zero_iff.mp none] at counted
          cases counted
    case isFalse some =>
      obtain ⟨woven, m₁, wove, h⟩ := yields_bind.mp h
      obtain ⟨u, m₂, set, h⟩ := yields_bind.mp h
      obtain ⟨rfl, rfl⟩ := yields_pure.mp h
      obtain ⟨rfl, all⟩ := callSites_eq_ok_iff.mp looked
      exact .inr ⟨body, entries, woven, m₁, hasBody, decoded, all, rfl, Nat.pos_of_ne_zero some, wove,
        set⟩

/-- What intercepting the calls of a method does: nothing if there are none, and otherwise the
method gets a woven body. -/
theorem weave_of_interceptCalls {o : WeavePolicy} {known : Option Imports} {count : Nat}
    (h : Yields (interceptCalls o known token) m count m') :
    ∃ d, m.methodDefAt token = .ok d ∧
      ((count = 0 ∧ m' = m ∧ ∀ body, d.body = some body → ∃ instructions,
          decodeCode body.code = .ok instructions ∧
          ∀ i ∈ instructions, CallSite.at? m o i = .ok none) ∨
        ∃ body imports woven m₁, d.body = some body ∧ known = some imports ∧ m.Extends m₁ ∧
          Yields (Edit.setBody token (some woven)) m₁ () m' ∧
          ∃ w : Weave m₁ imports token d body woven,
            (∀ entry ∈ w.entries, CallSite.at? m o entry.1 = .ok entry.2) ∧
            count = (w.entries.filterMap Prod.snd).length ∧ 0 < count) := by
  obtain ⟨d, found, change⟩ := wovenBody_of_interceptCalls h
  refine ⟨d, found, change.imp_right ?_⟩
  rintro ⟨body, entries, woven, m₁, hasBody, decoded, all, counted, some, wove, set⟩
  obtain ⟨grown, imports, imported, w, rfl, -⟩ := weave_of_wovenBody decoded
    (fun i site member => CallSite.isAt_of_at? (all _ member)) wove
  exact ⟨body, imports, woven, m₁, hasBody, imported, grown, set, w, all, counted, some⟩

/-- There are instructions where there are call sites. -/
theorem Weave.entries_ne_nil {imports : Imports} {count : Nat} (w : Weave m imports token d body woven)
    (counted : count = (w.entries.filterMap Prod.snd).length) (some : 0 < count) :
    w.entries ≠ [] := by
  intro none
  rw [counted, none] at some
  exact Nat.lt_irrefl 0 some

end Methods

end Interpose
