import Interpose.Proofs.Weaving.Layout

/-!
# The room that scaffolds need

What the weaver adds to a method and its module besides code: the local variables that the values of
a call are kept in, and tokens for the types that are named.  Each computation of a layout needs a
known amount of both, and succeeds wherever there is room for it.

## Main definitions

* `Module.nameTypes` — a module with a token for each of some types
* `Allocate.Needs` — the local variables and tokens that a computation adds

## Main results

* `needs_reserve` — what the scaffold of a call site needs
* `needs_methodListing` — what the code of a woven method needs
-/

namespace Interpose

/-! ### Tokens of types -/

namespace Module

variable {m : Module} {type : Ty}

/-- The module with a token for a type. -/
def nameType (m : Module) (type : Ty) : Module :=
  if ((Edit.definedName? type).bind m.typeToken?).isSome ∨ type ∈ m.typeSpecs then m
  else { m with typeSpecs := m.typeSpecs.push type }

/-- The module with a token for each of some types. -/
def nameTypes (m : Module) (types : List Ty) : Module := types.foldl nameType m

@[simp] theorem nameTypes_nil (m : Module) : m.nameTypes [] = m := rfl

theorem nameTypes_append (m : Module) (first second : List Ty) :
    m.nameTypes (first ++ second) = (m.nameTypes first).nameTypes second :=
  List.foldl_append

theorem size_le_nameTypes (m : Module) (types : List Ty) :
    m.typeSpecs.size ≤ (m.nameTypes types).typeSpecs.size := by
  induction types generalizing m with
  | nil => exact Nat.le_refl _
  | cons type rest ih =>
    refine Nat.le_trans ?_ (ih (m.nameType type))
    unfold nameType
    split
    · exact Nat.le_refl _
    · rw [Array.size_push]
      exact Nat.le_succ _

/-- A type gets its token if the table does not become too large. -/
theorem exists_tokenOfType (room : (m.nameType type).typeSpecs.size ≤ Edit.rowLimit) :
    ∃ token, Yields (Edit.tokenOfType type) m token (m.nameType type) := by
  unfold Edit.tokenOfType nameType at *
  simp only [yields_get_bind]
  cases known : (Edit.definedName? type).bind m.typeToken? with
  | some token =>
    rw [known] at room
    exact ⟨token, yields_pure.mpr ⟨rfl, by simp⟩⟩
  | none =>
    rw [known] at room
    unfold Edit.insertTypeSpec
    simp only [yields_get_bind]
    cases found : m.typeSpecs.findIdx? (· = type) with
    | some index =>
      obtain ⟨inside, holds, -⟩ := Array.findIdx?_eq_some_iff_getElem.mp found
      have member : type ∈ m.typeSpecs := of_decide_eq_true holds ▸ Array.getElem_mem inside
      rw [if_pos (.inr member)] at room ⊢
      have small : index < Edit.rowLimit := Nat.lt_of_lt_of_le inside room
      exact ⟨_, yields_liftM.mpr ⟨Edit.tokenOf_eq_ok_iff.mpr ⟨small, rfl⟩, rfl⟩⟩
    | none =>
      -- The row is new, and goes to the end of the table.
      have missing : type ∉ m.typeSpecs := fun member =>
        of_decide_eq_false (Array.findIdx?_eq_none_iff.mp found type member) rfl
      have new : ¬ ((none : Option Token).isSome = true ∨ type ∈ m.typeSpecs) := by
        simp [missing]
      rw [if_neg new, Array.size_push] at room
      rw [if_neg new]
      exact ⟨_, yields_liftM_bind.mpr ⟨_, Edit.tokenOf_eq_ok_iff.mpr ⟨room, rfl⟩, rfl⟩⟩

end Module

/-! ### What computations need -/

namespace Allocate

variable {α β : Type}

/-- A computation succeeds wherever there is room for the given local variables, and for tokens of the
given types; it adds just these. -/
def Needs (x : Allocate α) (locals types : List Ty) : Prop :=
  ∀ (before : Array Ty) (m : Module), before.size + locals.length ≤ 0x10000 →
    (m.nameTypes types).typeSpecs.size ≤ Edit.rowLimit →
    ∃ a after, after.toList = before.toList ++ locals ∧
      YieldsWith x before m a after (m.nameTypes types)

theorem needs_pure (a : α) : (pure a : Allocate α).Needs [] [] := fun before m _ _ =>
  ⟨a, before, by simp, yieldsWith_pure.mpr ⟨rfl, rfl, rfl⟩⟩

theorem needs_liftM {x : Except Error α} (h : ∃ a, x = .ok a) :
    (liftM x : Allocate α).Needs [] [] := by
  obtain ⟨a, rfl⟩ := h
  exact fun before m _ _ => ⟨a, before, by simp, yieldsWith_liftM.mpr ⟨rfl, rfl, rfl⟩⟩

/-- A sequence needs what its members need. -/
theorem Needs.bind {x : Allocate α} {k : α → Allocate β} {first second named others : List Ty}
    (h : x.Needs first named)
    (later : ∀ a before m after m', YieldsWith x before m a after m' → (k a).Needs second others) :
    (x >>= k).Needs (first ++ second) (named ++ others) := by
  intro before m room rows
  rw [List.length_append] at room
  rw [Module.nameTypes_append] at rows ⊢
  -- The tokens of the first member are among those of both, so that there is room for them.
  obtain ⟨a, middle, extended, yields⟩ := h before m (by omega)
    (Nat.le_trans (Module.size_le_nameTypes ..) rows)
  have size := congrArg List.length extended
  rw [List.length_append, Array.length_toList, Array.length_toList] at size
  obtain ⟨b, after, extended', yields'⟩ :=
    later a _ _ _ _ yields middle (m.nameTypes named) (by omega) rows
  exact ⟨b, after, by rw [extended', extended, List.append_assoc], yields.bind yields'⟩

theorem Needs.map {x : Allocate α} {locals types : List Ty} (h : x.Needs locals types) (f : α → β) :
    (f <$> x).Needs locals types := by
  intro before m room rows
  obtain ⟨a, after, extended, yields⟩ := h before m room rows
  exact ⟨f a, after, extended, yieldsWith_map.mpr ⟨a, yields, rfl⟩⟩

theorem needs_mapM (list : List β) {f : β → Allocate α} {locals types : β → List Ty}
    (h : ∀ b ∈ list, (f b).Needs (locals b) (types b)) :
    (list.mapM f).Needs (list.flatMap locals) (list.flatMap types) := by
  induction list with
  | nil =>
    rw [List.mapM_nil]
    exact needs_pure _
  | cons b rest ih =>
    obtain ⟨here, others⟩ := List.forall_mem_cons.mp h
    rw [List.mapM_cons, List.flatMap_cons, List.flatMap_cons]
    refine here.bind fun a _ _ _ _ _ => ?_
    have later := (ih others).map fun as => a :: as
    rwa [map_eq_pure_bind] at later

theorem needs_newLocal (type : Ty) : (newLocal type).Needs [type] [] := by
  intro before m room _
  have small : before.size < 0x10000 := room
  exact ⟨_, before.push type, by simp, yields_newLocal.mpr ⟨small, rfl, rfl, rfl⟩⟩

/-- A computation that knows nothing of local variables needs the tokens it adds. -/
theorem needs_lift {x : Edit α} {types : List Ty}
    (h : ∀ m : Module, (m.nameTypes types).typeSpecs.size ≤ Edit.rowLimit →
      ∃ a, Yields x m a (m.nameTypes types)) : (liftM x : Allocate α).Needs [] types := by
  intro before m _ rows
  obtain ⟨a, yields⟩ := h m rows
  exact ⟨a, before, by simp, yieldsWith_lift.mpr ⟨yields, rfl⟩⟩

end Allocate

open Allocate

/-- The types that the scaffold of a call site names, in the order of their tokens. -/
def CallSite.namedTypes (s : CallSite) : List Ty :=
  s.slotTypes.filter Ty.needsWrapping ++ if s.resultType = .void then [] else [s.resultType]

section Scaffolds

variable {m : Module} {imports : Imports} {host : Host}

/-- Wrapping values of a type needs a token for the type. -/
theorem needs_boxToken? (type : Ty) :
    (liftM (boxToken? type) : Allocate (Option Token)).Needs [] ([type].filter Ty.needsWrapping) := by
  apply needs_lift
  intro m rows
  unfold boxToken?
  by_cases wraps : type.needsWrapping = true
  · rw [List.filter_cons_of_pos wraps, List.filter_nil] at rows ⊢
    obtain ⟨token, yields⟩ := Module.exists_tokenOfType rows
    rw [if_pos wraps]
    exact ⟨some token, yields_map.mpr ⟨token, yields, rfl⟩⟩
  · rw [List.filter_cons_of_neg wraps, List.filter_nil, if_neg wraps]
    exact ⟨none, yields_pure.mpr ⟨rfl, rfl⟩⟩

theorem needs_resultToken? (type : Ty) : (liftM (resultToken? type) : Allocate (Option Token)).Needs []
    (if type = .void then [] else [type]) := by
  apply needs_lift
  intro m rows
  unfold resultToken?
  by_cases none : type = .void
  · rw [if_pos none, if_pos none]
    exact ⟨.none, yields_pure.mpr ⟨rfl, rfl⟩⟩
  · rw [if_neg none] at rows ⊢
    obtain ⟨token, yields⟩ := Module.exists_tokenOfType rows
    rw [if_neg none]
    exact ⟨some token, yields_map.mpr ⟨token, yields, rfl⟩⟩

/-- The local variable of a value needs a token if values of its type are wrapped. -/
theorem needs_slotFor (type : Ty) (number : UInt16) :
    (slotFor type number).Needs [] ([type].filter Ty.needsWrapping) := by
  unfold slotFor
  have slot := (needs_boxToken? type).map fun box => ({ type, number, box } : Slot)
  rwa [map_eq_pure_bind] at slot

/-- The local variables of the arguments need tokens for the types whose values are wrapped. -/
private theorem needs_mapM_slotFor {types : List Ty} {numbers : List UInt16}
    (length : numbers.length = types.length) :
    ((types.zip numbers).mapM fun (type, number) => slotFor type number).Needs []
      (types.filter Ty.needsWrapping) := by
  have slots := needs_mapM (types.zip numbers) fun pair _ => needs_slotFor pair.1 pair.2
  have none : (types.zip numbers).flatMap (fun _ => ([] : List Ty)) = [] := by simp
  have each : (types.zip numbers).flatMap (fun pair => [pair.1].filter Ty.needsWrapping) =
      types.filter Ty.needsWrapping := by
    rw [← List.flatMap_map Prod.fst fun type => [type].filter Ty.needsWrapping,
      List.map_fst_zip (Nat.le_of_eq length.symm), ← List.filter_flatMap, List.flatMap_singleton']
  rwa [none, each] at slots

/-- What is reserved behind the local variable of the receiver needs local variables for the
arguments. -/
private theorem needs_reserveBehind (site : CallSite) (number : Option UInt16) :
    (reserveBehind site number).Needs site.target.parameters
      ((number.toList.map fun _ => site.target.declaringType).filter Ty.needsWrapping ++
        (site.target.parameters.filter Ty.needsWrapping ++
          if site.resultType = .void then [] else [site.resultType])) := by
  -- The variables of the arguments need no names of types; the boxes of their values do.
  have news : (site.target.parameters.mapM Allocate.newLocal).Needs site.target.parameters [] := by
    have each := needs_mapM site.target.parameters fun type _ => needs_newLocal type
    have none : site.target.parameters.flatMap (fun _ => ([] : List Ty)) = [] := by simp
    rwa [List.flatMap_singleton', none] at each
  have receiver : (number.mapM fun number => slotFor site.target.declaringType number).Needs []
      ((number.toList.map fun _ => site.target.declaringType).filter Ty.needsWrapping) := by
    cases number with
    | none => exact needs_pure _
    | some number => exact (needs_slotFor site.target.declaringType number).map some
  unfold reserveBehind
  have length {numbers : List UInt16} {before after : Array Ty} {m m' : Module}
      (numbered : YieldsWith (site.target.parameters.mapM Allocate.newLocal) before m numbers after
        m') : numbers.length = site.target.parameters.length := by
    have := congrArg List.length (numbers_of_mapM_newLocal numbered).2.2
    simpa using this
  have whole := news.bind fun numbers _ _ _ _ numbered => receiver.bind fun receiver _ _ _ _ _ =>
    (needs_mapM_slotFor (length numbered)).bind fun arguments _ _ _ _ _ =>
      (needs_resultToken? site.resultType).bind fun result _ _ _ _ _ =>
        needs_pure ({ site, receiver, arguments, result } : SiteLayout)
  simpa using whole

/-- A call site needs a local variable for each of its values, and tokens for the types it names. -/
theorem needs_reserve (site : CallSite) :
    (SiteLayout.reserve site).Needs site.slotTypes site.namedTypes := by
  rw [reserve_eq, CallSite.namedTypes, CallSite.slotTypes]
  cases site.hasReceiver with
  | true =>
    have behind (number : UInt16) : (reserveBehind site (some number)).Needs site.target.parameters
        ([site.target.declaringType].filter Ty.needsWrapping ++
          (site.target.parameters.filter Ty.needsWrapping ++
            if site.resultType = .void then [] else [site.resultType])) :=
      needs_reserveBehind site (some number)
    rw [if_pos rfl, if_pos rfl, List.filter_append, List.append_assoc]
    exact (needs_newLocal site.target.declaringType).bind fun number _ _ _ _ _ => behind number
  | false => simpa using needs_reserveBehind site none

/-- The code of an instruction needs what its call site does, if it has one. -/
private theorem needs_instructionListing (imports : Imports) (host : Host) {i : Instruction}
    (site : Option CallSite) (kept : ∃ item, keptItem i = .ok item) :
    (instructionListing imports host i site).Needs
      (site.toList.flatMap CallSite.slotTypes) (site.toList.flatMap CallSite.namedTypes) := by
  unfold instructionListing
  cases site with
  | some site =>
    have part := (needs_reserve site).map fun layout =>
      ListingItem.label (instructionLabel i.offset) :: layout.listing imports host
    simp only [Option.toList_some, List.flatMap_singleton]
    rwa [map_eq_pure_bind] at part
  | none =>
    have part := (needs_liftM kept).map fun item =>
      [ListingItem.label (instructionLabel i.offset), item]
    rwa [map_eq_pure_bind] at part

/-- The code of a woven method needs what its call sites need. -/
theorem needs_methodListing {entries : List (Instruction × Option CallSite)}
    (kept : ∀ entry ∈ entries, ∃ item, keptItem entry.1 = .ok item) :
    (methodListing imports host entries).Needs
      ((entries.filterMap Prod.snd).flatMap CallSite.slotTypes)
      ((entries.filterMap Prod.snd).flatMap CallSite.namedTypes) := by
  have each (f : CallSite → List Ty) : (entries.filterMap Prod.snd).flatMap f =
      entries.flatMap fun entry => entry.2.toList.flatMap f := by
    induction entries with
    | nil => rfl
    | cons entry rest ih =>
      rw [List.flatMap_cons, ← ih fun entry member => kept entry (List.mem_cons_of_mem _ member)]
      obtain ⟨i, _ | site⟩ := entry <;> simp
  have parts := needs_mapM entries fun entry member =>
    needs_instructionListing imports host entry.2 (kept entry member)
  have whole := parts.map fun parts =>
    prologue imports host (calledTokens (entries.filterMap Prod.snd)) ++ parts.flatten
  rw [each, each]
  rwa [map_eq_pure_bind] at whole

end Scaffolds

end Interpose
