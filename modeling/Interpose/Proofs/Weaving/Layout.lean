import Interpose.Proofs.Module.Growth
import Interpose.Weaving.Method

/-!
# Imports and local variables of scaffolds

What the tokens stand for that scaffolds refer to, and which local variables hold the values of a
call: those behind the ones that are there, one for the receiver, if there is one, and then one for
each argument.

## Main definitions

* `Imports.Resolve` — the imported tokens stand for what they were imported for
* `SiteLayout.slots` — the local variables of a call site
* `Slot.Boxes`, `SiteLayout.Named` — the tokens of types stand for the types
* `SiteLayout.Reserved` — the local variables are those that were reserved

## Main results

* `Imports.resolve_of_addImports` — imports resolve
* `SiteLayout.of_reserve` — what reserving does
-/

namespace Interpose

/-- The imported tokens stand for what they were imported for. -/
structure Imports.Resolve (m : Module) (imports : Imports) : Prop where
  intrinsic : ∀ i, m.memberRefAt (imports.intrinsic i) = .ok i.memberRef
  object : m.typeAt imports.object = .ok .object
  methodBase : m.types.size ≤ Edit.rowLimit →
    m.typeAt imports.methodBase = .ok (m.namedType Intrinsic.methodBaseType)

theorem Imports.Resolve.grows {m m' : Module} {imports : Imports} (h : imports.Resolve m)
    (grows : m.Grows m') : imports.Resolve m' where
  intrinsic i := grows.memberRefAt (h.intrinsic i)
  object := grows.typeAt h.object
  methodBase small := by
    rw [grows.namedType]
    exact grows.typeAt (h.methodBase (grows.types ▸ small))

section Import

variable {m m' : Module}

theorem mem_all (i : Intrinsic) : i ∈ Intrinsic.all := by
  cases i <;> decide

/-- Each of several intrinsics that are imported has its token. -/
private theorem references_of_mapM {list : List Intrinsic} {references : List (Intrinsic × Token)}
    (h : Yields (list.mapM fun i => return (i, ← Edit.insertMemberRef i.memberRef)) m references
      m') :
    m.Extends m' ∧ ∀ i ∈ list, ∃ token, references.lookup i = some token ∧
      m'.memberRefAt token = .ok i.memberRef := by
  induction list generalizing m references with
  | nil =>
    obtain ⟨rfl, rfl⟩ := yields_mapM_nil.mp h
    exact ⟨.refl m, fun i member => nomatch member⟩
  | cons first rest ih =>
    obtain ⟨entry, m₁, others, head, tail, rfl⟩ := yields_mapM_cons.mp h
    obtain ⟨token, _, inserted, done⟩ := yields_bind.mp head
    obtain ⟨rfl, rfl⟩ := yields_pure.mp done
    obtain ⟨grown₁, known⟩ := yields_insertMemberRef inserted
    obtain ⟨grown₂, found⟩ := ih tail
    refine ⟨grown₁.trans grown₂, fun i member => ?_⟩
    by_cases same : i = first
    · subst same
      exact ⟨token, List.lookup_cons_self, grown₂.grows.memberRefAt known⟩
    · have later : i ∈ rest := (List.mem_cons.mp member).resolve_left same
      rw [List.lookup_cons, beq_eq_false_iff_ne.mpr same]
      exact found i later

/-- Imports resolve, and importing only adds references. -/
theorem Imports.resolve_of_addImports {imports : Imports} (h : Yields addImports m imports m') :
    m.Extends m' ∧ imports.Resolve m' := by
  unfold addImports importIntrinsics at h
  obtain ⟨references, m₁, imported, h⟩ := yields_bind.mp h
  obtain ⟨methodBase, m₂, base, h⟩ := yields_bind.mp h
  obtain ⟨object, m₃, root, h⟩ := yields_bind.mp h
  obtain ⟨rfl, same⟩ := yields_pure.mp h
  subst same
  obtain ⟨grown₁, found⟩ := references_of_mapM imported
  have grown₂ := extends_of_tokenOfType base
  have inserted : Yields (Edit.insertTypeSpec .object) m₂ object m₃ := root
  obtain ⟨grown₃, stands⟩ := yields_insertTypeSpec inserted
  refine ⟨(grown₁.trans grown₂).trans grown₃, fun i => ?_, stands, fun nameable => ?_⟩
  · obtain ⟨token, known, row⟩ := found i (mem_all i)
    simp only [known, Option.getD_some]
    exact (grown₂.trans grown₃).grows.memberRefAt row
  · have few : m₁.types.size ≤ Edit.rowLimit := by
      rwa [← (grown₂.trans grown₃).grows.types]
    rw [(grown₂.trans grown₃).grows.namedType]
    exact grown₃.grows.typeAt (typeAt_of_tokenOfType few base)

end Import

/-- The types of the values that a call site takes from the stack, the receiver first. -/
def CallSite.slotTypes (s : CallSite) : List Ty :=
  (if s.hasReceiver then [s.target.declaringType] else []) ++ s.target.parameters

/-- Values of the type of a local variable are wrapped as the type that the module knows by its
name, if they are wrapped at all. -/
def Slot.Boxes (m : Module) (s : Slot) : Prop :=
  if s.type.needsWrapping then
    ∃ token, s.box = some token ∧ m.typeAt token = .ok (m.namedType s.type)
  else s.box = none

namespace SiteLayout

/-- The local variables of a call site in the order of their numbers. -/
def slots (s : SiteLayout) : List Slot := s.receiver.toList ++ s.arguments

/-- The local variables of a call site are those from a number on, and there is a token for the type
of the result if there is a result. -/
structure Reserved (first : Nat) (site : CallSite) (s : SiteLayout) : Prop where
  site_eq : s.site = site
  receiver_types : s.receiver.toList.map Slot.type =
    if site.hasReceiver then [site.target.declaringType] else []
  argument_types : s.arguments.map Slot.type = site.target.parameters
  numbers : s.slots.map (·.number.toNat) = List.range' first s.slots.length
  result_isSome : s.result.isSome = decide (site.resultType ≠ .void)

/-- The tokens of types that a call site refers to stand for the types. -/
structure Named (m : Module) (s : SiteLayout) : Prop where
  boxes : ∀ slot ∈ s.slots, slot.Boxes m
  result : if s.site.resultType = .void then s.result = none else
    ∃ token, s.result = some token ∧ m.typeAt token = .ok (m.namedType s.site.resultType)

end SiteLayout

section Allocation

variable {m m' : Module} {locals locals' : Array Ty}

theorem yields_newLocal {type : Ty} {number : UInt16} :
    YieldsWith (Allocate.newLocal type) locals m number locals' m' ↔
      locals.size < 0x10000 ∧ UInt16.ofNat locals.size = number ∧ locals.push type = locals' ∧
        m = m' := by
  unfold Allocate.newLocal
  simp only [yieldsWith_get_bind, yieldsWith_guard, yieldsWith_set_bind, yieldsWith_pure,
    Nat.not_le]

/-- Local variables that are added one after the other are numbered in their order. -/
theorem numbers_of_mapM_newLocal {types : List Ty} {numbers : List UInt16}
    (h : YieldsWith (types.mapM Allocate.newLocal) locals m numbers locals' m') :
    m = m' ∧ locals'.toList = locals.toList ++ types ∧
      numbers.map UInt16.toNat = List.range' locals.size types.length := by
  induction types generalizing locals numbers with
  | nil =>
    obtain ⟨rfl, rfl, rfl⟩ := yieldsWith_mapM_nil.mp h
    exact ⟨rfl, by simp, rfl⟩
  | cons type rest ih =>
    obtain ⟨number, locals₁, m₁, others, first, later, rfl⟩ := yieldsWith_mapM_cons.mp h
    obtain ⟨small, rfl, rfl, rfl⟩ := yields_newLocal.mp first
    obtain ⟨rfl, extended, numbered⟩ := ih later
    refine ⟨rfl, by simpa using extended, ?_⟩
    rw [Array.size_push] at numbered
    rw [List.map_cons, numbered, List.length_cons, List.range'_succ, UInt16.toNat_ofNat',
      Nat.mod_eq_of_lt small]

/-- The token by which values of a type are wrapped. -/
theorem boxes_of_boxToken? {type : Ty} (number : UInt16) {box : Option Token}
    (h : Yields (boxToken? type) m box m') :
    m.Extends m' ∧ (m.types.size ≤ Edit.rowLimit → Slot.Boxes m' ⟨type, number, box⟩) := by
  unfold boxToken? at h
  cases wraps : type.needsWrapping with
  | true =>
    rw [wraps, if_pos rfl] at h
    obtain ⟨token, named, rfl⟩ := yields_map.mp h
    have grown := extends_of_tokenOfType named
    refine ⟨grown, fun small => ?_⟩
    rw [Slot.Boxes, if_pos wraps, grown.grows.namedType]
    exact ⟨token, rfl, typeAt_of_tokenOfType small named⟩
  | false =>
    rw [wraps, if_neg Bool.false_ne_true] at h
    obtain ⟨rfl, rfl⟩ := yields_pure.mp h
    refine ⟨.refl m, fun _ => ?_⟩
    rw [Slot.Boxes, wraps, if_neg Bool.false_ne_true]

theorem Slot.Boxes.mono {s : Slot} (h : s.Boxes m) (grown : m.Grows m') : s.Boxes m' := by
  unfold Slot.Boxes at h ⊢
  split at h
  case isTrue wraps =>
    obtain ⟨token, boxed, stands⟩ := h
    rw [if_pos wraps, grown.namedType]
    exact ⟨token, boxed, grown.typeAt stands⟩
  case isFalse stays =>
    rwa [if_neg stays]

/-- The token by which the type of a result is named. -/
theorem result_of_resultToken? {type : Ty} {result : Option Token}
    (h : Yields (resultToken? type) m result m') :
    m.Extends m' ∧ (m.types.size ≤ Edit.rowLimit →
      if type = .void then result = none else
        ∃ token, result = some token ∧ m'.typeAt token = .ok (m'.namedType type)) := by
  unfold resultToken? at h
  by_cases none : type = .void
  · rw [if_pos none] at h
    obtain ⟨rfl, rfl⟩ := yields_pure.mp h
    exact ⟨.refl m, fun _ => by rw [if_pos none]⟩
  · rw [if_neg none] at h
    obtain ⟨token, named, rfl⟩ := yields_map.mp h
    have grown := extends_of_tokenOfType named
    refine ⟨grown, fun small => ?_⟩
    rw [if_neg none, grown.grows.namedType]
    exact ⟨token, rfl, typeAt_of_tokenOfType small named⟩

theorem isSome_of_resultToken? {type : Ty} {result : Option Token}
    (h : Yields (resultToken? type) m result m') : result.isSome = decide (type ≠ .void) := by
  unfold resultToken? at h
  by_cases none : type = .void
  · rw [if_pos none] at h
    obtain ⟨rfl, -⟩ := yields_pure.mp h
    simp [none]
  · rw [if_neg none] at h
    obtain ⟨token, -, rfl⟩ := yields_map.mp h
    simp [none]

/-- The local variable for a value, given its type and number. -/
def slotFor (type : Ty) (number : UInt16) : Allocate Slot :=
  return { type, number, box := ← boxToken? type }

private theorem slot_of_slotFor {type : Ty} {number : UInt16} {slot : Slot}
    (h : YieldsWith (slotFor type number) locals m slot locals' m') :
    locals = locals' ∧ m.Extends m' ∧ slot.type = type ∧ slot.number = number ∧
      (m.types.size ≤ Edit.rowLimit → slot.Boxes m') := by
  unfold slotFor at h
  obtain ⟨box, m₁, boxed, h⟩ := yieldsWith_lift_bind.mp h
  obtain ⟨rfl, rfl, rfl⟩ := yieldsWith_pure.mp h
  obtain ⟨grown, boxes⟩ := boxes_of_boxToken? number boxed
  exact ⟨rfl, grown, rfl, rfl, boxes⟩

private theorem slots_of_mapM {pairs : List (Ty × UInt16)} {slots : List Slot}
    (h : YieldsWith (pairs.mapM fun (type, number) => slotFor type number) locals m slots locals'
      m') :
    locals = locals' ∧ m.Extends m' ∧ slots.map Slot.type = pairs.map Prod.fst ∧
      slots.map Slot.number = pairs.map Prod.snd ∧
      (m.types.size ≤ Edit.rowLimit → ∀ slot ∈ slots, slot.Boxes m') := by
  induction pairs generalizing m slots with
  | nil =>
    obtain ⟨rfl, rfl, rfl⟩ := yieldsWith_mapM_nil.mp h
    exact ⟨rfl, .refl m, rfl, rfl, fun _ slot member => nomatch member⟩
  | cons pair rest ih =>
    obtain ⟨slot, locals₁, m₁, others, first, later, rfl⟩ := yieldsWith_mapM_cons.mp h
    obtain ⟨rfl, grown₁, type, number, boxes₁⟩ := slot_of_slotFor first
    obtain ⟨rfl, grown₂, types, numbers, boxes₂⟩ := ih later
    refine ⟨rfl, grown₁.trans grown₂, ?_, ?_, fun small => ?_⟩
    · rw [List.map_cons, List.map_cons, type, types]
    · rw [List.map_cons, List.map_cons, number, numbers]
    · rw [List.forall_mem_cons]
      exact ⟨(boxes₁ small).mono grown₂.grows, boxes₂ (grown₁.types ▸ small)⟩

/-- What reserving the local variable of a receiver does. -/
private theorem receiver_of_mapM {type : Ty} {number : Option UInt16} {receiver : Option Slot}
    (h : YieldsWith (number.mapM fun number => slotFor type number) locals m receiver locals' m') :
    locals = locals' ∧ m.Extends m' ∧ receiver.map Slot.type = number.map (fun _ => type) ∧
      receiver.map Slot.number = number ∧
      (m.types.size ≤ Edit.rowLimit → ∀ slot ∈ receiver, slot.Boxes m') := by
  cases number with
  | none =>
    obtain ⟨rfl, rfl, rfl⟩ := yieldsWith_pure.mp h
    exact ⟨rfl, .refl m, rfl, rfl, fun _ slot member => nomatch member⟩
  | some number =>
    obtain ⟨slot, reserved, rfl⟩ := yieldsWith_map.mp h
    obtain ⟨rfl, grown, type, number, boxes⟩ := slot_of_slotFor reserved
    refine ⟨rfl, grown, congrArg some type, congrArg some number, fun small other member => ?_⟩
    cases member
    exact boxes small

/-- What is reserved behind the local variable of the receiver, given the number of the latter. -/
def reserveBehind (site : CallSite) (number : Option UInt16) : Allocate SiteLayout := do
  let numbers ← site.target.parameters.mapM Allocate.newLocal
  let receiver ← number.mapM fun number => slotFor site.target.declaringType number
  let arguments ← (site.target.parameters.zip numbers).mapM fun (type, number) =>
    slotFor type number
  return { site, receiver, arguments, result := ← resultToken? site.resultType }

/-- The local variable of the receiver is reserved first, if there is a receiver. -/
theorem reserve_eq (site : CallSite) :
    SiteLayout.reserve site =
      if site.hasReceiver then do
        let number ← Allocate.newLocal site.target.declaringType
        reserveBehind site (some number)
      else reserveBehind site none := by
  unfold SiteLayout.reserve reserveBehind
  cases site.hasReceiver with
  | true => simp [slotFor]
  | false => simp [slotFor]

private theorem SiteLayout.of_reserveBehind {site : CallSite} {number : Option UInt16}
    {layout : SiteLayout}
    (h : YieldsWith (reserveBehind site number) locals m layout locals' m') :
    m.Extends m' ∧ locals'.toList = locals.toList ++ site.target.parameters ∧
      layout.site = site ∧
      layout.receiver.map Slot.type = number.map (fun _ => site.target.declaringType) ∧
      layout.receiver.map Slot.number = number ∧
      layout.arguments.map Slot.type = site.target.parameters ∧
      layout.arguments.map (·.number.toNat) =
        List.range' locals.size site.target.parameters.length ∧
      layout.result.isSome = decide (site.resultType ≠ .void) ∧
      (m.types.size ≤ Edit.rowLimit → layout.Named m') := by
  unfold reserveBehind at h
  obtain ⟨numbers, locals₂, m₂, others, h⟩ := yieldsWith_bind.mp h
  obtain ⟨receiver, locals₃, m₃, first, h⟩ := yieldsWith_bind.mp h
  obtain ⟨arguments, locals₄, m₄, rest, h⟩ := yieldsWith_bind.mp h
  obtain ⟨result, m₅, last, h⟩ := yieldsWith_lift_bind.mp h
  obtain ⟨rfl, rfl, rfl⟩ := yieldsWith_pure.mp h
  obtain ⟨rfl, extended, numbered⟩ := numbers_of_mapM_newLocal others
  obtain ⟨rfl, grown₃, receiverType, receiverNumber, receiverBoxes⟩ := receiver_of_mapM first
  obtain ⟨rfl, grown₄, types, argumentNumbers, boxes⟩ := slots_of_mapM rest
  obtain ⟨grown₅, resultNamed⟩ := result_of_resultToken? last
  -- The arguments have one local variable each.
  have length : numbers.length = site.target.parameters.length := by
    have := congrArg List.length numbered
    simpa using this
  refine ⟨(grown₃.trans grown₄).trans grown₅, extended, rfl, receiverType, receiverNumber, ?_, ?_,
    isSome_of_resultToken? last, fun small => ⟨?_, ?_⟩⟩
  · rw [types, List.map_fst_zip (Nat.le_of_eq length.symm)]
  · have := congrArg (List.map UInt16.toNat) argumentNumbers
    rw [List.map_snd_zip (Nat.le_of_eq length), numbered, List.map_map] at this
    exact this
  · intro slot member
    rcases List.mem_append.mp member with own | other
    · exact ((receiverBoxes small slot (Option.mem_toList.mp own)).mono grown₄.grows).mono grown₅.grows
    · exact (boxes (grown₃.types ▸ small) slot other).mono grown₅.grows
  · exact resultNamed ((grown₃.trans grown₄).types ▸ small)

/-- What reserving the local variables of a call site does. -/
theorem SiteLayout.of_reserve {site : CallSite} {layout : SiteLayout}
    (h : YieldsWith (SiteLayout.reserve site) locals m layout locals' m') :
    m.Extends m' ∧ locals'.toList = locals.toList ++ site.slotTypes ∧
      layout.Reserved locals.size site ∧
      (m.types.size ≤ Edit.rowLimit → layout.Named m') := by
  rw [reserve_eq] at h
  unfold CallSite.slotTypes
  -- A receiver gets the first of the variables, in front of those of the arguments.
  split at h
  case isTrue own =>
    obtain ⟨number, locals₁, m₁, first, h⟩ := yieldsWith_bind.mp h
    obtain ⟨small, rfl, rfl, rfl⟩ := yields_newLocal.mp first
    obtain ⟨grown, extended, site_eq, type, number, types, numbers, result, named⟩ :=
      of_reserveBehind h
    obtain ⟨slot, present, type⟩ := Option.map_eq_some_iff.mp type
    rw [present, Option.map_some, Option.some.injEq] at number
    refine ⟨grown, by simpa [own] using extended, ⟨site_eq, ?_, types, ?_, result⟩, named⟩
    · simp [present, own, type]
    · have length := congrArg List.length types
      rw [List.length_map] at length
      rw [Array.size_push] at numbers
      rw [SiteLayout.slots, present, Option.toList_some, List.singleton_append, List.map_cons,
        numbers, number, List.length_cons, length, List.range'_succ, UInt16.toNat_ofNat',
        Nat.mod_eq_of_lt small]
  case isFalse none =>
    obtain ⟨grown, extended, site_eq, type, number, types, numbers, result, named⟩ :=
      of_reserveBehind h
    have absent : layout.receiver = .none := by simpa using type
    refine ⟨grown, by simpa [none] using extended, ⟨site_eq, ?_, types, ?_, result⟩, named⟩
    · simp [absent, none]
    · rw [SiteLayout.slots, absent]
      have length := congrArg List.length types
      rw [List.length_map] at length
      simpa [length] using numbers

end Allocation

end Interpose
