import Interpose.Proofs.Module.Finished
import Interpose.Proofs.Module.Storing

/-!
# Modules that are read

A module that is read can be written, however wasteful the container was that it comes from, and what
is written is read back.  It is the same module then, except that the stack of a small body gets the
size that small headers stand for, and from there on the container stays the same as well.

## Main definitions

* `SequencePoints.Fit` — sequence points that can be written with their length
* `Module.Sound`, `Module.Loaded` — what is so of every module that is read
* `Module.SameButPoints` — modules that differ only in sequence points
* `Body.settled`, `Module.settled` — stack sizes as headers can tell them

## Main results

* `Module.defined_encode_iff` — which modules can be written
* `Module.loaded_of_decode` — modules that are read can be written and read back
* `Module.reload_of_decode` — saving and loading settles a module, and then changes nothing
-/

namespace Interpose

section Tables

variable {α : Type} {read : Read α} {add : α → Edit Unit} {Q : α → Prop} {m : Module}

theorem gives_decodeRows (h : Gives read Q) (count : Nat) :
    Gives (Module.decodeRows read add count m) fun m' => ∃ rows : List α,
      rows.length = count ∧ (∀ row ∈ rows, Q row) ∧ Yields (rows.forM add) m () m' := by
  induction count generalizing m with
  | zero => exact gives_pure ⟨[], rfl, by simp, yields_pure.mpr ⟨rfl, rfl⟩⟩
  | succ count ih =>
    refine h.bind fun row holds => ?_
    intro c m' c' yields
    obtain ⟨m₁, c₁, edited, yields⟩ := yields_bind.mp yields
    obtain ⟨-, u, added⟩ := yields_editing.mp edited
    obtain ⟨rows, rfl, all, adds⟩ := ih yields
    exact ⟨row :: rows, rfl, List.forall_mem_cons.mpr ⟨holds, all⟩, added.bind adds⟩

/-- A table is what its rows make of a module. -/
theorem gives_decodeTable (h : Gives read Q) : Gives (m.decodeTable read add) fun m' =>
    ∃ rows : List α, rows.length < Write.numberLimit ∧ (∀ row ∈ rows, Q row) ∧
      Yields (rows.forM add) m () m' := by
  refine gives_length.bind fun count few => ?_
  intro c m' c' yields
  obtain ⟨rows, rfl, all, adds⟩ := gives_decodeRows h count yields
  exact ⟨rows, few, all, adds⟩

end Tables

/-- Sequence points that can be written with their length. -/
def SequencePoints.Fit (points : SequencePoints) : Prop :=
  ∃ bytes, points.encode = .ok bytes ∧ bytes.length < Write.numberLimit

namespace Module

variable {m m' : Module}

theorem defined_encodeSymbols_iff {symbols : Token × SequencePoints} :
    (encodeSymbols symbols).Defined ↔ symbols.2.Fit := by
  constructor
  · rintro ⟨bytes, written⟩
    obtain ⟨points, wrote, written⟩ := bind_eq_ok_iff.mp written
    obtain ⟨length, counted, -⟩ := bind_eq_ok_iff.mp written
    exact ⟨points, wrote, Write.defined_length_iff.mp ⟨length, counted⟩⟩
  · rintro ⟨points, wrote, short⟩
    obtain ⟨length, counted⟩ := Write.defined_length_iff.mpr short
    exact ⟨_, bind_eq_ok_iff.mpr ⟨points, wrote, bind_eq_ok_iff.mpr ⟨length, counted, rfl⟩⟩⟩

/-- Sequence points that are read can be written, and tell of each point whether it is hidden. -/
theorem gives_decodeSymbols : Gives decodeSymbols fun symbols =>
    symbols.2.Fit ∧ symbols.2.map .stored = symbols.2 := by
  refine (gives_of_any _).bind fun token _ => gives_length.bind fun length few => ?_
  intro c symbols c' yields
  obtain ⟨data, c₁, taken, yields⟩ := yields_bind.mp yields
  obtain ⟨points, decoded, yields⟩ := yields_liftM_bind.mp yields
  obtain ⟨rfl, -⟩ := yields_pure.mp yields
  obtain ⟨same, bytes, written, short⟩ := SequencePoints.encode_of_decode decoded
  rw [length_of_bytes taken] at short
  exact ⟨⟨bytes, written, Nat.lt_of_le_of_lt short few⟩, same⟩

/-- A module can be written if each of its tables can. -/
theorem defined_encode_iff : m.encode.Defined ↔ (Write.utf8 m.name).Defined ∧
    (Write.list TypeDef.encode m.types.toList).Defined ∧
    (Write.list FieldDef.encode m.fields.toList).Defined ∧
    (Write.list MethodDef.encode m.methods.toList).Defined ∧
    (Write.list MemberRef.encode m.memberRefs.toList).Defined ∧
    (Write.list MethodSpec.encode m.methodSpecs.toList).Defined ∧
    (Write.list Ty.encode m.typeSpecs.toList).Defined ∧
    (Write.list Write.utf16 m.userStrings.toList).Defined ∧
    m.finished.length < Write.numberLimit ∧ (Write.list encodeSymbols m.symbols).Defined := by
  have finished : (Write.list (fun token => pure (Write.token token)) m.finished).Defined ↔
      m.finished.length < Write.numberLimit :=
    Write.defined_list_iff.trans (and_iff_left fun _ _ => Write.defined_pure _)
  have points (f : Bytes → Bytes) : Write.Defined (
      if m.symbols.isEmpty then pure [] >>= fun points => pure (f points)
      else Write.list encodeSymbols m.symbols >>= fun points => pure (f points)) ↔
        (Write.list encodeSymbols m.symbols).Defined := by
    cases m.symbols with
    | nil => exact ⟨fun _ => Write.defined_list_iff.mpr ⟨by decide, by simp⟩,
        fun _ => Write.defined_pure _⟩
    | cons first rest => exact Write.defined_bind_pure_iff
  rw [← finished]
  exact Write.defined_bind_iff fun _ _ => Write.defined_bind_iff fun _ _ =>
    Write.defined_bind_iff fun _ _ => Write.defined_bind_iff fun _ _ =>
    Write.defined_bind_iff fun _ _ => Write.defined_bind_iff fun _ _ =>
    Write.defined_bind_iff fun _ _ => Write.defined_bind_iff fun _ _ =>
    Write.defined_bind_iff fun _ _ => points _

/-- Only methods have sequence points. -/
theorem length_symbols_le (m : Module) : m.symbols.length ≤ m.methods.size := by
  rw [symbols_eq, ← Array.length_toList]
  generalize m.methods.toList = methods
  generalize 0 = index
  induction methods generalizing index with
  | nil => exact Nat.zero_le _
  | cons d rest ih =>
    rw [symbolsFrom]
    cases d.points? with
    | none => exact Nat.le_succ_of_le (ih (index + 1))
    | some points => exact Nat.succ_le_succ (ih (index + 1))

theorem forall_mem_symbols {P : SequencePoints → Prop}
    (all : ∀ d ∈ m.methods.toList, ∀ b ∈ d.body, P b.points) : ∀ symbols ∈ m.symbols, P symbols.2 := by
  rw [symbols_eq]
  generalize m.methods.toList = methods at all
  generalize 0 = index
  induction methods generalizing index with
  | nil => simp [symbolsFrom]
  | cons d rest ih =>
    obtain ⟨here, later⟩ := List.forall_mem_cons.mp all
    rw [symbolsFrom]
    cases found : d.points? with
    | none => exact ih later (index + 1)
    | some points =>
      refine List.forall_mem_cons.mpr ⟨?_, ih later (index + 1)⟩
      obtain ⟨b, hasBody, found⟩ := Option.bind_eq_some_iff.mp found
      split at found
      case isTrue => cases found
      case isFalse =>
        cases found
        exact here b hasBody

end Module
/-- The sequence points of a method do not count for its written form. -/
theorem MethodDef.encode_withoutPoints (d : MethodDef) : d.withoutPoints.encode = d.encode := by
  obtain ⟨owner, name, flags, parameters, returnType, arity, body⟩ := d
  cases body <;> rfl

theorem MethodDef.mentioned_withoutPoints (d : MethodDef) :
    d.withoutPoints.mentioned = d.mentioned := by
  obtain ⟨owner, name, flags, parameters, returnType, arity, body⟩ := d
  cases body <;> rfl

/-- Modules that differ only in the sequence points of bodies. -/
structure Module.SameButPoints (m m' : Module) : Prop where
  others : { m with methods := #[] } = { m' with methods := #[] }
  methods : m.methods.map MethodDef.withoutPoints = m'.methods.map MethodDef.withoutPoints

namespace Module

variable {m m' m'' : Module} {u : Unit}

namespace SameButPoints

theorem refl (m : Module) : m.SameButPoints m := ⟨rfl, rfl⟩

theorem trans (h : m.SameButPoints m') (h' : m'.SameButPoints m'') : m.SameButPoints m'' :=
  ⟨h.others.trans h'.others, h.methods.trans h'.methods⟩

/-- There are other methods, and nothing else is other. -/
theorem eq_with (h : m.SameButPoints m') : m' = { m with methods := m'.methods } :=
  congrArg (fun m : Module => { m with methods := m'.methods }) h.others.symm

/-- What holds of the methods of one module holds of those of the other, if sequence points do not
matter. -/
theorem forall_methods (h : m.SameButPoints m') {P : MethodDef → Prop}
    (apart : ∀ d : MethodDef, P d.withoutPoints ↔ P d) (all : ∀ d ∈ m.methods.toList, P d) :
    ∀ d ∈ m'.methods.toList, P d := by
  have without (m : Module) :
      (∀ d ∈ (m.methods.map MethodDef.withoutPoints).toList, P d) ↔ ∀ d ∈ m.methods.toList, P d := by
    simp only [Array.toList_map, List.forall_mem_map, apart]
  rw [← without, ← h.methods, without]
  exact all

theorem size_eq (h : m.SameButPoints m') : m'.methods.size = m.methods.size := by
  have sizes := congrArg Array.size h.methods
  rw [Array.size_map, Array.size_map] at sizes
  exact sizes.symm

theorem exists_methodDefAt (h : m.SameButPoints m') {token : Token} :
    (∃ d, m'.methodDefAt token = .ok d) ↔ ∃ d, m.methodDefAt token = .ok d := by
  refine (exists_row_map MethodDef.withoutPoints).symm.trans ?_
  rw [← h.methods]
  exact exists_row_map MethodDef.withoutPoints

end SameButPoints

/-- Giving a method its sequence points changes nothing else. -/
theorem sameButPoints_of_addSymbols {symbols : Token × SequencePoints} {P : SequencePoints → Prop}
    (holds : P symbols.2) (before : ∀ d ∈ m.methods.toList, ∀ b ∈ d.body, P b.points)
    (h : Yields (addSymbols symbols) m u m') :
    m.SameButPoints m' ∧ ∀ d ∈ m'.methods.toList, ∀ b ∈ d.body, P b.points := by
  unfold addSymbols at h
  rw [yields_get_bind] at h
  obtain ⟨d, found, h⟩ := yields_liftM_bind.mp h
  cases hasBody : d.body with
  | none =>
    rw [hasBody] at h
    exact (yields_throw.mp h).elim
  | some body =>
    rw [hasBody] at h
    unfold Edit.setMethod at h
    simp only [yields_get_bind] at h
    obtain ⟨-, -, h⟩ := yields_liftM_bind.mp h
    obtain rfl := yields_set.mp h
    obtain ⟨-, -, entry⟩ := methodDefAt_eq_ok_iff.mp found
    refine ⟨⟨rfl, Array.ext_getElem? fun index => ?_⟩, ?_⟩
    · -- Without its points, the row that is written is the one that was read.
      rw [Array.getElem?_map, Array.getElem?_map, Array.getElem?_setIfInBounds]
      split
      case isTrue same =>
        rw [← same, entry]
        obtain ⟨inside, -⟩ := Array.getElem?_eq_some_iff.mp entry
        rw [if_pos inside, Option.map_some, Option.map_some]
        simp [MethodDef.withoutPoints, hasBody]
      case isFalse => rfl
    · intro other member
      rcases Array.mem_or_eq_of_mem_setIfInBounds (Array.mem_toList_iff.mp member) with member | rfl
      · exact before other (Array.mem_toList_iff.mpr member)
      · rintro b hasBody
        cases hasBody
        exact holds

theorem sameButPoints_of_forM {rows : List (Token × SequencePoints)} {P : SequencePoints → Prop}
    (all : ∀ symbols ∈ rows, P symbols.2) (before : ∀ d ∈ m.methods.toList, ∀ b ∈ d.body, P b.points)
    (h : Yields (rows.forM addSymbols) m u m') :
    m.SameButPoints m' ∧ ∀ d ∈ m'.methods.toList, ∀ b ∈ d.body, P b.points := by
  induction rows generalizing m with
  | nil =>
    obtain ⟨-, rfl⟩ := yields_pure.mp h
    exact ⟨.refl m, before⟩
  | cons symbols rest ih =>
    obtain ⟨here, later⟩ := List.forall_mem_cons.mp all
    obtain ⟨v, m₁, added, h⟩ := yields_bind.mp h
    obtain ⟨first, before⟩ := sameButPoints_of_addSymbols here before added
    obtain ⟨second, after⟩ := ih later before h
    exact ⟨first.trans second, after⟩

/-- Behind the tables only sequence points are added. -/
theorem gives_behind {flags : Nat} {specs : List MethodSpec} {P : SequencePoints → Prop}
    (kept : Gives decodeSymbols fun symbols => P symbols.2)
    (before : ∀ d ∈ m.methods.toList, ∀ b ∈ d.body, P b.points) : Gives (do
      let m ← if flags % 2 = symbolsFlag then m.decodeTable decodeSymbols addSymbols else pure m
      if ← Read.hasMore then Read.malformed (.trailingBytes (← Read.remaining))
      specs.forM fun spec => m.checkMethodSpec spec
      return m) fun m' => m.SameButPoints m' ∧
        (∀ d ∈ m'.methods.toList, ∀ b ∈ d.body, P b.points) ∧
          ∀ spec ∈ specs, m'.checkMethodSpec spec = .ok () := by
  -- What comes behind the points changes nothing; it only rejects.
  have checked {m₁ : Module} (same : m.SameButPoints m₁)
      (all : ∀ d ∈ m₁.methods.toList, ∀ b ∈ d.body, P b.points) : Gives (do
        if ← Read.hasMore then Read.malformed (.trailingBytes (← Read.remaining))
        specs.forM fun spec => m₁.checkMethodSpec spec
        return m₁) fun m' => m.SameButPoints m' ∧
          (∀ d ∈ m'.methods.toList, ∀ b ∈ d.body, P b.points) ∧
            ∀ spec ∈ specs, m'.checkMethodSpec spec = .ok () := by
    refine (gives_of_any _).bind fun more _ => .ite (fun _ => ?_) fun _ => ?_
    · exact (gives_of_any _).bind fun _ _ => gives_throw_bind _
    · intro c m' c' yields
      obtain ⟨u, c₁, checked, yields⟩ := yields_bind.mp yields
      obtain ⟨rfl, -⟩ := yields_pure.mp yields
      exact ⟨same, all, (yields_forM_checkMethodSpec.mp checked).1⟩
  refine .ite (fun _ => ?_) fun _ => ?_
  · refine (gives_decodeTable kept).bind fun m₁ ⟨rows, _, all, adds⟩ => ?_
    obtain ⟨same, after⟩ := sameButPoints_of_forM all before adds
    exact checked same after
  · rw [pure_bind]
    exact checked (.refl m) before

end Module
/-- What is so of every module that can be made: tokens can name all of its methods, its version has a
number of sixteen bytes, and the table of finished methods is in order. -/
structure Module.Sound (m : Module) : Prop where
  small : m.methods.size ≤ Edit.rowLimit
  identified : m.versionId.length = 16
  ordered : Edit.Ordered m.finished

/-- What is so of the tables of every module that is read: their rows can be written and read back,
and the owners of rows and finished methods are there. -/
structure Module.Tabled (m : Module) : Prop extends m.Sound where
  named : (Write.utf8 m.name).Defined
  types : m.types.size < Write.numberLimit ∧ ∀ d ∈ m.types.toList,
    d.encode.Defined ∧ (∀ type ∈ d.mentioned, type.Shallow) ∧ d.stored = d
  fields : m.fields.size ≤ Edit.rowLimit ∧ ∀ d ∈ m.fields.toList, d.encode.Defined ∧ d.type.Shallow
  fieldOwners : ∀ d ∈ m.fields.toList, ∃ owner, m.typeDefAt d.owner = .ok owner
  methods : ∀ d ∈ m.methods.toList,
    d.encode.Defined ∧ (∀ type ∈ d.mentioned, type.Shallow) ∧ .ofBits d.flags.bits = d.flags
  methodOwners : ∀ d ∈ m.methods.toList, ∃ owner, m.typeDefAt d.owner = .ok owner
  points : ∀ d ∈ m.methods.toList, ∀ b ∈ d.body, b.points.Fit ∧ b.points.map .stored = b.points
  memberRefs : m.memberRefs.size < Write.numberLimit ∧ ∀ r ∈ m.memberRefs.toList,
    r.encode.Defined ∧ ∀ type ∈ r.mentioned, type.Shallow
  methodSpecs : m.methodSpecs.size < Write.numberLimit ∧ ∀ spec ∈ m.methodSpecs.toList,
    spec.encode.Defined ∧ ∀ type ∈ spec.instantiation, type.Shallow
  typeSpecs : m.typeSpecs.size < Write.numberLimit ∧ ∀ type ∈ m.typeSpecs.toList,
    type.encode.Defined ∧ type.Shallow
  userStrings : m.userStrings.size < Write.numberLimit ∧ ∀ text ∈ m.userStrings.toList,
    (Write.utf16 text).Defined
  finished : ∀ token ∈ m.finished, ∃ d, m.methodDefAt token = .ok d

/-- What is so of every module that is read. -/
structure Module.Loaded (m : Module) : Prop extends m.Tabled where
  specs : ∀ spec ∈ m.methodSpecs.toList, m.checkMethodSpec spec = .ok ()

namespace Module

variable {m m' : Module} {data : List UInt8}

theorem sound_empty (name : String) : ({ name } : Module).Sound := ⟨Nat.zero_le _, rfl, .nil⟩

/-- Sequence points do not count for tables. -/
theorem Tabled.of_sameButPoints (h : m.Tabled) (same : m.SameButPoints m') (points : ∀ d ∈
    m'.methods.toList, ∀ b ∈ d.body, b.points.Fit ∧ b.points.map .stored = b.points) : m'.Tabled := by
  have size := same.size_eq
  have methods := same.forall_methods (fun d => by
    rw [d.encode_withoutPoints, d.mentioned_withoutPoints]
    exact Iff.rfl) h.methods
  have owners := same.forall_methods (P := fun d => ∃ owner, m.typeDefAt d.owner = .ok owner)
    (fun _ => Iff.rfl) h.methodOwners
  have found (token : Token) (member : token ∈ m.finished) : ∃ d, m'.methodDefAt token = .ok d :=
    same.exists_methodDefAt.mpr (h.finished token member)
  have whole := same.eq_with
  generalize m'.methods = table at whole methods owners points size
  subst whole
  exact { h with small := size ▸ h.small, methods, methodOwners := owners, points, finished := found }

/-- Tables that are read can be written. -/
theorem Tabled.written (h : m.Tabled) : m.encode.Defined := by
  have few : Edit.rowLimit < Write.numberLimit := by decide
  have methods := h.small
  have fields := h.fields.1
  have finished := length_le_of_ordered h.ordered h.finished
  have symbols := m.length_symbols_le
  rw [defined_encode_iff]
  simp only [Write.defined_list_iff, Array.length_toList]
  exact ⟨h.named, ⟨h.types.1, fun d member => (h.types.2 d member).1⟩,
    ⟨by omega, fun d member => (h.fields.2 d member).1⟩,
    ⟨by omega, fun d member => (h.methods d member).1⟩,
    ⟨h.memberRefs.1, fun r member => (h.memberRefs.2 r member).1⟩,
    ⟨h.methodSpecs.1, fun spec member => (h.methodSpecs.2 spec member).1⟩,
    ⟨h.typeSpecs.1, fun type member => (h.typeSpecs.2 type member).1⟩,
    h.userStrings, by omega, by omega, fun symbols member => defined_encodeSymbols_iff.mpr
      (forall_mem_symbols (fun d here b hasBody => (h.points d here b hasBody).1) symbols member)⟩

/-- What is read can be read again. -/
theorem Loaded.readable (h : m.Loaded) : m.Readable where
  shallow := forall_mem_mentioned.mpr ⟨fun d member => (h.types.2 d member).2.1,
    fun d member => (h.fields.2 d member).2, fun d member => (h.methods d member).2.1,
    fun r member => (h.memberRefs.2 r member).2, fun spec member => (h.methodSpecs.2 spec member).2,
    fun type member => (h.typeSpecs.2 type member).2⟩
  fieldOwners := h.fieldOwners
  fewFields := h.fields.1
  methodOwners := h.methodOwners
  fewMethods := h.small
  specs := h.specs
  finished := h.finished

theorem gives_decodeContainer : Gives decodeContainer Loaded := by
  have sixteen : Gives (Read.bytes 16) (·.length = 16) := fun _ _ _ => length_of_bytes
  -- The proof goes along the container and keeps what each part gives.
  refine (gives_of_any _).bind fun _ _ => .ite (fun _ => gives_throw_bind _) fun _ =>
    (gives_of_any _).bind fun _ _ => .ite (fun _ => gives_throw_bind _) fun _ =>
    (gives_of_any _).bind fun flags _ => gives_utf8.bind fun name named =>
    sixteen.bind fun versionId identified => ?_
  refine (gives_decodeTable TypeDef.gives_decode).bind fun m₁ ⟨types, fewTypes, allTypes, added⟩ => ?_
  obtain rfl := yields_forM_insertType.mp added
  refine (gives_decodeTable FieldDef.gives_decode).bind fun m₂ ⟨fields, _, allFields, added⟩ => ?_
  obtain ⟨⟨fieldOwners, fewFields⟩, rfl⟩ := (yields_forM_insertField (Nat.zero_le _)).mp added
  refine (gives_decodeTable MethodDef.gives_decode).bind fun m₃ ⟨methods, _, allMethods, added⟩ => ?_
  obtain ⟨⟨methodOwners, fewMethods⟩, rfl⟩ := (yields_forM_insertMethod (Nat.zero_le _)).mp added
  refine MemberRef.gives_decode.list.bind fun memberRefs allMemberRefs =>
    MethodSpec.gives_decode.list.bind fun methodSpecs allMethodSpecs =>
    Ty.gives_decode.list.bind fun typeSpecs allTypeSpecs =>
    gives_utf16.list.bind fun userStrings allUserStrings =>
    (gives_decodeTable (gives_of_any _)).bind fun m₄ ⟨tokens, _, _, added⟩ => ?_
  obtain ⟨known, rfl⟩ := yields_forM_addFinished.mp added
  -- Bodies come without points, which are added behind the tables.
  have before : ∀ d ∈ methods, ∀ b ∈ d.body, b.points.Fit ∧ b.points.map .stored = b.points := by
    intro d member b hasBody
    rw [(allMethods d member).2.2.2 b hasBody]
    exact ⟨⟨[], rfl, by decide⟩, rfl⟩
  simp only [Array.empty_append, Array.size_empty, Nat.zero_add] at *
  have tabled : Tabled {
      name, versionId, types := types.toArray, fields := fields.toArray, methods := methods.toArray
      memberRefs := memberRefs.toArray, methodSpecs := methodSpecs.toArray
      typeSpecs := typeSpecs.toArray, userStrings := userStrings.toArray
      finished := tokens.foldl (fun list token => Edit.insertToken token list) [] } := {
    small := fewMethods
    identified, named, fieldOwners, methodOwners
    ordered := Edit.Ordered.foldl_insertToken .nil tokens
    types := ⟨fewTypes, allTypes⟩
    fields := ⟨fewFields, allFields⟩
    methods := fun d member =>
      ⟨(allMethods d member).1, (allMethods d member).2.1, (allMethods d member).2.2.1⟩
    points := before
    memberRefs := allMemberRefs
    methodSpecs := allMethodSpecs
    typeSpecs := allTypeSpecs
    userStrings := allUserStrings
    finished := fun token member =>
      known token ((Edit.mem_foldl_insertToken.mp member).resolve_right (by simp)) }
  intro c m c' read
  obtain ⟨same, points, specs⟩ := gives_behind
    (P := fun points => points.Fit ∧ points.map .stored = points) gives_decodeSymbols before read
  refine ⟨tabled.of_sameButPoints same points, ?_⟩
  rw [same.eq_with] at specs ⊢
  exact specs

/-- Modules that are read can be written and read back. -/
theorem loaded_of_decode (h : decode data = .ok m) : m.Loaded := by
  obtain ⟨-, c, read⟩ := decode_eq_ok_iff.mp h
  exact gives_decodeContainer read

end Module

/-- The body with the stack size that its header stands for. -/
def Body.settled (b : Body) : Body :=
  if b.fitsTiny && !b.initLocals then { b with maxStack := tinyStack } else b

/-- The definition with its body settled. -/
def MethodDef.settled (d : MethodDef) : MethodDef := { d with body := d.body.map .settled }

/-- The module with all stack sizes as headers can tell them. -/
def Module.settled (m : Module) : Module := { m with methods := m.methods.map .settled }

/-- A stack that a small header does not tell of is not deeper than it stands for. -/
theorem Body.maxStack_settled (b : Body) :
    b.settled.maxStack = b.maxStack ∨ b.settled.maxStack = tinyStack ∧ b.maxStack ≤ tinyStack := by
  unfold settled
  split
  case isTrue tiny =>
    simp only [fitsTiny, Bool.and_eq_true, decide_eq_true_eq] at tiny
    exact .inr ⟨rfl, tiny.1.1.2⟩
  case isFalse => exact .inl rfl

theorem Body.reloaded_eq_settled {b : Body} (same : b.points.map .stored = b.points) :
    b.reloaded = b.settled := by
  unfold reloaded stored settled
  rw [same]
  split <;> rfl

/-- Settling a body does not change its written form. -/
theorem Body.encodeWithLocals_settled (b : Body) :
    b.settled.encodeWithLocals = b.encodeWithLocals := by
  by_cases tiny : (b.fitsTiny && !b.initLocals) = true
  case neg => rw [settled, if_neg tiny]
  case pos =>
    -- The small header is chosen for the settled body too.
    have still : (({ b with maxStack := tinyStack } : Body).fitsTiny && !b.initLocals) = true := by
      simp only [fitsTiny, Bool.and_eq_true, decide_eq_true_eq] at tiny ⊢
      exact ⟨⟨⟨tiny.1.1.1, UInt16.le_refl _⟩, tiny.1.2⟩, tiny.2⟩
    have written : ({ b with maxStack := tinyStack } : Body).encode = b.encode := by
      unfold encode
      rw [if_pos tiny]
      exact if_pos still
    rw [settled, if_pos tiny, encodeWithLocals, written]
    rfl

theorem MethodDef.encode_settled (d : MethodDef) : d.settled.encode = d.encode := by
  have bodies : Write.marked Body.encodeWithLocals (d.body.map .settled) =
      Write.marked Body.encodeWithLocals d.body := by
    cases d.body with
    | none => rfl
    | some b => simp only [Option.map_some, Write.marked, b.encodeWithLocals_settled]
  rw [encode_eq, encode_eq, settled, bodies]

namespace Module

variable {m : Module} {data : List UInt8}

/-- What is kept of a module that was read is the module with settled stacks. -/
theorem Loaded.reloaded_eq_settled (h : m.Loaded) : m.reloaded = m.settled := by
  have types : m.types.map .stored = m.types :=
    (Array.map_congr_left fun d member => (h.types.2 d (Array.mem_toList_iff.mpr member)).2.2).trans
      (Array.map_id' _)
  have methods : m.methods.map MethodDef.reloaded = m.methods.map .settled := by
    refine Array.map_congr_left fun d member => ?_
    have inside := Array.mem_toList_iff.mpr member
    have bodies : d.body.map Body.reloaded = d.body.map .settled :=
      Option.map_congr fun b hasBody => Body.reloaded_eq_settled (h.points d inside b hasBody).2
    rw [MethodDef.reloaded, MethodDef.stored, (h.methods d inside).2.2, bodies, MethodDef.settled]
  have finished : m.finished.foldl (fun list token => Edit.insertToken token list) [] = m.finished :=
    Edit.foldl_insertToken h.ordered
  rw [reloaded, types, methods, finished, settled]

theorem symbols_settled (m : Module) : m.settled.symbols = m.symbols := by
  have points (d : MethodDef) : d.settled.points? = d.points? := by
    have same (b : Body) : b.settled.points = b.points := by
      unfold Body.settled
      split <;> rfl
    rw [MethodDef.points?, MethodDef.points?, MethodDef.settled]
    cases d.body with
    | none => rfl
    | some b => rw [Option.map_some, Option.bind_some, Option.bind_some, same]
  rw [symbols_eq, symbols_eq, settled, Array.toList_map]
  generalize m.methods.toList = methods
  generalize 0 = index
  induction methods generalizing index with
  | nil => rfl
  | cons d rest ih => rw [List.map_cons, symbolsFrom, symbolsFrom, points, ih]

theorem encode_settled (m : Module) : m.settled.encode = m.encode := by
  have rows : Write.list MethodDef.encode m.settled.methods.toList =
      Write.list MethodDef.encode m.methods.toList := by
    rw [settled, Array.toList_map, Write.list_map MethodDef.encode_settled]
  unfold encode
  rw [rows, m.symbols_settled]
  rfl

/-- A module that is read can be written, and is read back with settled stacks; written once more, its
container stays the same. -/
theorem reload_of_decode (h : decode data = .ok m) : ∃ bytes, m.encode = .ok bytes ∧
    decode bytes = .ok m.settled ∧ m.settled.encode = .ok bytes := by
  have loaded := loaded_of_decode h
  obtain ⟨bytes, written⟩ := loaded.written
  refine ⟨bytes, written, ?_, m.encode_settled.trans written⟩
  rw [decode_iff_of_encode loaded.identified written, ← loaded.reloaded_eq_settled]
  exact ⟨loaded.readable, rfl⟩

/-- A container that takes two bytes for the length of a name, sets bits that mean nothing, has a large
header where a small one would do, and tells the sequence points of a method twice. -/
def wastefulContainer : List UInt8 :=
  containerMagic ++ [1, 0, 3, 0] ++ [0x80, 1, 0x4D] ++ List.replicate 16 0 ++
    [1, 1, 0x54, 0xFF, 0, 0, 0, 0, 0, 0] ++ [0] ++
    [1, 1, 0, 0, 2, 1, 0x66, 1, 0x80, 0, 0, 1, 1, 0] ++
    [0x03, 0x30, 2, 0, 1, 0, 0, 0, 0, 0, 0, 0, 0x2A] ++ [0, 0, 0, 0, 0] ++
    [2, 1, 0, 0, 6, 5, 0, 7, 1, 0, 1] ++ [1, 0, 0, 6, 5, 0, 8, 1, 0, 1]

theorem reload_of_decode_wasteful : ∃ m bytes, decode wastefulContainer = .ok m ∧ m.settled ≠ m ∧
    bytes.length < wastefulContainer.length ∧ m.encode = .ok bytes ∧
      decode bytes = .ok m.settled ∧ m.settled.encode = .ok bytes := by
  have loads : ((decode wastefulContainer).toOption.any fun m => decide (m.settled ≠ m) &&
      (m.encode.toOption.any fun bytes => bytes.length < wastefulContainer.length)) = true := by
    decide +kernel
  cases read : decode wastefulContainer with
  | error e =>
    rw [read] at loads
    cases loads
  | ok m =>
    obtain ⟨bytes, written, reads, again⟩ := reload_of_decode read
    rw [read] at loads
    obtain ⟨other, shorter⟩ := Bool.and_eq_true_iff.mp loads
    rw [written] at shorter
    exact ⟨m, bytes, rfl, of_decide_eq_true other, of_decide_eq_true shorter, written, reads, again⟩

end Module

end Interpose
