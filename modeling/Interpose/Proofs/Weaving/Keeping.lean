import Interpose.Proofs.Module.Writing
import Interpose.Proofs.Weaving.Pass

/-!
# What is kept while a module is woven

There are only few ways in which weaving changes a module: types are composed, references are added
to intrinsics, methods get other bodies, and methods are marked as finished.  A property of modules
that each of these keeps is kept by a pass.

## Main definitions

* `Edit.Keeps`, `Allocate.Keeps` — computations that keep a property

## Main results

* `keeps_wovenBody` — laying out a body keeps what is kept by adding types of the methods called
* `keeps_weavePass` — what a pass keeps
-/

namespace Interpose

/-- A computation that succeeds keeps a property of modules. -/
def Edit.Keeps {α : Type} (I : Module → Prop) (x : Edit α) : Prop :=
  ∀ ⦃m a m'⦄, Yields x m a m' → I m → I m'

/-- A computation that succeeds keeps a property of modules, and one of local variables. -/
def Allocate.Keeps {α : Type} (L : List Ty → Prop) (I : Module → Prop) (x : Allocate α) : Prop :=
  ∀ ⦃locals m a locals' m'⦄, YieldsWith x locals m a locals' m' →
    L locals.toList ∧ I m → L locals'.toList ∧ I m'

section Keeping

variable {α β : Type} {I : Module → Prop} {L : List Ty → Prop}

theorem Edit.keeps_pure (a : α) : Edit.Keeps I (pure a) := by
  intro m b m' h before
  obtain ⟨-, rfl⟩ := yields_pure.mp h
  exact before

theorem Edit.keeps_liftM (x : Except Error α) : Edit.Keeps I (liftM x) := by
  intro m a m' h before
  obtain ⟨-, rfl⟩ := yields_liftM.mp h
  exact before

theorem Edit.Keeps.bind {x : Edit α} {k : α → Edit β} (h : x.Keeps I) (later : ∀ a, (k a).Keeps I) :
    Edit.Keeps I (x >>= k) := by
  intro m b m' yields before
  obtain ⟨a, m₁, first, second⟩ := yields_bind.mp yields
  exact later a second (h first before)

theorem Edit.keeps_get_bind {k : Module → Edit β} (h : ∀ m, (k m).Keeps I) :
    Edit.Keeps I (get >>= k) :=
  fun m _ _ yields before => h m (yields_get_bind.mp yields) before

theorem Edit.Keeps.map {x : Edit α} (h : x.Keeps I) (f : α → β) : Edit.Keeps I (f <$> x) := by
  rw [map_eq_pure_bind]
  exact h.bind fun a => keeps_pure (f a)

theorem Edit.Keeps.mapM {f : β → Edit α} {list : List β} (h : ∀ b ∈ list, (f b).Keeps I) :
    Edit.Keeps I (list.mapM f) := by
  induction list with
  | nil => exact keeps_pure []
  | cons b rest ih =>
    obtain ⟨first, later⟩ := List.forall_mem_cons.mp h
    rw [List.mapM_cons]
    exact first.bind fun a => (ih later).bind fun others => keeps_pure (a :: others)

theorem Edit.Keeps.forM {f : β → Edit PUnit} {list : List β} (h : ∀ b ∈ list, (f b).Keeps I) :
    Edit.Keeps I (list.forM f) := by
  induction list with
  | nil => exact keeps_pure PUnit.unit
  | cons b rest ih =>
    obtain ⟨first, later⟩ := List.forall_mem_cons.mp h
    exact first.bind fun _ => ih later

theorem Allocate.keeps_pure (a : α) : Allocate.Keeps L I (pure a) := by
  intro locals m b locals' m' h before
  obtain ⟨-, rfl, rfl⟩ := yieldsWith_pure.mp h
  exact before

theorem Allocate.Keeps.bind {x : Allocate α} {k : α → Allocate β} (h : x.Keeps L I)
    (later : ∀ a, (k a).Keeps L I) : Allocate.Keeps L I (x >>= k) := by
  intro locals m b locals' m' yields before
  obtain ⟨a, locals₁, m₁, first, second⟩ := yieldsWith_bind.mp yields
  exact later a second (h first before)

theorem Allocate.Keeps.map {x : Allocate α} (h : x.Keeps L I) (f : α → β) :
    Allocate.Keeps L I (f <$> x) := by
  rw [map_eq_pure_bind]
  exact h.bind fun a => keeps_pure (f a)

theorem Edit.Keeps.lift {x : Edit α} (h : x.Keeps I) : Allocate.Keeps L I (liftM x) := by
  intro locals m a locals' m' yields before
  obtain ⟨run, rfl⟩ := yieldsWith_lift.mp yields
  exact ⟨before.1, h run before.2⟩

theorem Allocate.keeps_liftM (x : Except Error α) : Allocate.Keeps L I (liftM x) := by
  intro locals m a locals' m' yields before
  obtain ⟨-, rfl, rfl⟩ := yieldsWith_liftM.mp yields
  exact before

theorem Allocate.Keeps.mapM {f : β → Allocate α} {list : List β} (h : ∀ b ∈ list, (f b).Keeps L I) :
    Allocate.Keeps L I (list.mapM f) := by
  induction list with
  | nil => exact keeps_pure []
  | cons b rest ih =>
    obtain ⟨first, later⟩ := List.forall_mem_cons.mp h
    rw [List.mapM_cons]
    exact first.bind fun a => (ih later).bind fun others => keeps_pure (a :: others)

theorem Allocate.Keeps.optionMapM {f : β → Allocate α} (value : Option β)
    (h : ∀ b, (f b).Keeps L I) : Allocate.Keeps L I (value.mapM f) := by
  cases value with
  | none => exact keeps_pure none
  | some b => exact (h b).map some

end Keeping

/-- A type is there already, or it is added behind the others. -/
theorem Edit.keeps_insertTypeSpec {I : Module → Prop} {type : Ty}
    (push : ∀ m : Module, m.typeSpecs.size < Edit.rowLimit → I m →
      I { m with typeSpecs := m.typeSpecs.push type }) : (Edit.insertTypeSpec type).Keeps I := by
  intro m token m' yields before
  rcases Edit.insertTypeSpec_cases yields with ⟨index, -, -, -, rfl⟩ | ⟨-, small, -, rfl⟩
  · exact before
  · exact push m small before

/-- A reference is there already, or it is added behind the others. -/
theorem Edit.keeps_insertMemberRef {I : Module → Prop} {r : MemberRef}
    (push : ∀ m : Module, m.memberRefs.size < Edit.rowLimit → I m →
      I { m with memberRefs := m.memberRefs.push r }) : (Edit.insertMemberRef r).Keeps I := by
  intro m token m' yields before
  rcases Edit.insertMemberRef_cases yields with ⟨index, -, -, -, rfl⟩ | ⟨-, small, -, rfl⟩
  · exact before
  · exact push m small before

/-- Asking for the token of a type keeps what adding the type keeps. -/
theorem Edit.keeps_tokenOfType {I : Module → Prop} {type : Ty}
    (adds : (Edit.insertTypeSpec type).Keeps I) : (Edit.tokenOfType type).Keeps I := by
  unfold Edit.tokenOfType
  refine Edit.keeps_get_bind fun m => ?_
  split
  case h_1 token _ => exact Edit.keeps_pure token
  case h_2 => exact adds

section Layouts

-- The types that may come in, what is kept of the local variables, and what of the module.
variable {A : Ty → Prop} {L : List Ty → Prop} {I : Module → Prop} {type : Ty}
  (adds : ∀ type, A type → (Edit.insertTypeSpec type).Keeps I)
include adds

theorem keeps_boxToken? (h : A type) : Edit.Keeps I (boxToken? type) := by
  unfold boxToken?
  split
  case isTrue => exact (Edit.keeps_tokenOfType (adds type h)).map some
  case isFalse => exact Edit.keeps_pure none

theorem keeps_resultToken? (h : A type) : Edit.Keeps I (resultToken? type) := by
  unfold resultToken?
  split
  case isTrue => exact Edit.keeps_pure none
  case isFalse => exact (Edit.keeps_tokenOfType (adds type h)).map some

variable (holds : ∀ type, A type → (Allocate.newLocal type).Keeps L I)
include holds

/-- Reserving the local variables of a call adds types of the method that is called. -/
theorem SiteLayout.keeps_reserve {site : CallSite} (types : ∀ type ∈ site.target.mentioned, A type) :
    Allocate.Keeps L I (SiteLayout.reserve site) := by
  obtain ⟨declaringType, parameters, returnType⟩ := Method.forall_mem_mentioned.mp types
  have resultType : A site.resultType := by
    unfold CallSite.resultType
    split
    case isTrue => exact declaringType
    case isFalse => exact returnType
  have slot {type : Ty} (h : A type) (number : UInt16) : Allocate.Keeps L I (
      return { type, number, box := ← boxToken? type : Slot } : Allocate Slot) :=
    (keeps_boxToken? adds h).lift.bind fun _ => Allocate.keeps_pure _
  unfold SiteLayout.reserve
  dsimp only
  split
  all_goals
    refine Allocate.Keeps.bind ?_ fun receiver =>
      (Allocate.Keeps.mapM fun type member => holds type (parameters type member)).bind fun numbers =>
      (Allocate.Keeps.optionMapM receiver (slot declaringType)).bind fun receiver =>
      (Allocate.Keeps.mapM fun entry member =>
        slot (parameters _ (List.of_mem_zip member).1) _).bind fun arguments =>
      (keeps_resultToken? adds resultType).lift.bind fun _ => Allocate.keeps_pure _
  case isTrue => exact (holds _ declaringType).map some
  case isFalse => exact Allocate.keeps_pure none

variable {imports : Imports} {host : Host} {entries : List (Instruction × Option CallSite)}
  (types : ∀ entry ∈ entries, ∀ site ∈ entry.2, ∀ type ∈ site.target.mentioned, A type)
include types

theorem keeps_methodListing : Allocate.Keeps L I (methodListing imports host entries) := by
  refine (Allocate.Keeps.mapM fun entry member => ?_).bind fun parts => Allocate.keeps_pure _
  obtain ⟨i, site⟩ := entry
  cases site with
  | none => exact (Allocate.keeps_liftM _).bind fun item => Allocate.keeps_pure _
  | some site =>
    exact (SiteLayout.keeps_reserve adds holds (types _ member site rfl)).bind fun layout =>
      Allocate.keeps_pure _

/-- Laying out a woven body keeps what adding types keeps, and of the local variables what holding
values of these types keeps. -/
theorem keeps_wovenBody {known : Option Imports} {token : Token} {d : MethodDef} {body woven : Body}
    {m m' : Module} (mapType : A Intrinsic.callMapType) (locals : L body.locals)
    (h : Yields (wovenBody known token d body entries) m woven m') (before : I m) :
    I m' ∧ L woven.locals := by
  unfold wovenBody at h
  obtain ⟨⟨items, locals'⟩, m₁, laid, h⟩ := yields_bind.mp h
  obtain ⟨⟨code, labels⟩, assembled, h⟩ := yields_liftM_bind.mp h
  obtain ⟨rfl, rfl⟩ := yields_pure.mp h
  -- The map has a local variable of its own in front of those of the calls.
  have keeps : Allocate.Keeps L I (do
      let mapLocal ← Allocate.newLocal Intrinsic.callMapType
      let host : Host := { token, owner := d.owner, hasThis := d.hasThis, mapLocal }
      methodListing (← requireImports known) host entries) :=
    (holds _ mapType).bind fun _ => (Allocate.keeps_liftM _).bind fun _ =>
      keeps_methodListing adds holds types
  exact (keeps laid ⟨locals, before⟩).symm

end Layouts

/-- Importing what scaffolds refer to adds two types and references to intrinsics. -/
theorem keeps_addImports {I : Module → Prop}
    (refers : ∀ i : Intrinsic, (Edit.insertMemberRef i.memberRef).Keeps I)
    (methodBase : (Edit.insertTypeSpec Intrinsic.methodBaseType).Keeps I)
    (object : (Edit.insertTypeSpec .object).Keeps I) : addImports.Keeps I :=
  (Edit.Keeps.mapM fun i _ => (refers i).bind fun _ => Edit.keeps_pure _).bind fun _ =>
    (Edit.keeps_tokenOfType methodBase).bind fun _ =>
      (Edit.keeps_tokenOfType object).bind fun _ => Edit.keeps_pure _

section Pass

variable {I : Module → Prop} {o : WeavePolicy} {known : Option Imports}
  (adds : ∀ type, (Edit.insertTypeSpec type).Keeps I)
  (bodies : ∀ token body, (Edit.setBody token body).Keeps I)
include adds bodies

theorem keeps_interceptCalls (token : Token) : (interceptCalls o known token).Keeps I := by
  have layout {entries : List (Instruction × Option CallSite)} {d : MethodDef} {body : Body} :
      (wovenBody known token d body entries).Keeps I := by
    intro m woven m' yields before
    have holds : ∀ type, True → (Allocate.newLocal type).Keeps (fun _ => True) I := by
      intro type _ locals m number locals' m' reserved before
      obtain ⟨-, -, -, rfl⟩ := yields_newLocal.mp reserved
      exact before
    exact (keeps_wovenBody (fun type _ => adds type) holds (fun _ _ _ _ _ _ => trivial) trivial
      trivial yields before).1
  unfold interceptCalls
  refine Edit.keeps_get_bind fun m => (Edit.keeps_liftM _).bind fun d => ?_
  split
  case h_1 => exact Edit.keeps_pure 0
  case h_2 body _ =>
    refine (Edit.keeps_liftM _).bind fun instructions => (Edit.keeps_liftM _).bind fun entries => ?_
    dsimp only
    split
    case isTrue => exact Edit.keeps_pure 0
    case isFalse =>
      exact layout.bind fun woven => (bodies token _).bind fun _ => Edit.keeps_pure _

theorem keeps_weavePending (finished tokens : List Token) (summary : PassSummary) :
    (weavePending o known finished tokens summary).Keeps I := by
  induction tokens generalizing summary with
  | nil => exact Edit.keeps_pure summary
  | cons token rest ih =>
    unfold weavePending
    split
    case isTrue => exact ih summary.skip
    case isFalse =>
      exact (keeps_interceptCalls adds bodies token).bind fun count => ih (summary.add count)

/-- A pass keeps what is kept by adding types, giving methods other bodies, referring to intrinsics
and marking methods as finished. -/
theorem keeps_weavePass (refers : ∀ i : Intrinsic, (Edit.insertMemberRef i.memberRef).Keeps I)
    (marks : ∀ token, (Edit.markFinished token).Keeps I) : (weavePass o).Keeps I := by
  unfold weavePass
  refine Edit.keeps_get_bind fun m => (Edit.keeps_liftM _).bind fun methods => ?_
  have rest (imports : Option Imports) : Edit.Keeps I (do
      let summary ← weavePending o imports m.finished methods {}
      methods.forM Edit.markFinished
      return summary) :=
    (keeps_weavePending adds bodies m.finished methods {}).bind fun summary =>
      (Edit.Keeps.forM fun token _ => marks token).bind fun _ => Edit.keeps_pure summary
  dsimp only
  split
  case isTrue => exact (Edit.keeps_pure none).bind rest
  case isFalse => exact ((keeps_addImports refers (adds _) (adds _)).map some).bind rest

end Pass

end Interpose
