import Interpose.Proofs.Module.Tables

/-!
# Modules are read back

What is written of a module can be read just if the module keeps to what reading asks for: types are
not nested too deep, owners are types, and what instantiations and the table of finished methods refer
to is there.  The module is then as it was, apart from what has no meaning: the unused bits of flags,
how deep the stack of a small body gets, and which sequence points are hidden, which their lines tell.

## Main definitions

* `Module.mentioned` — the types that a module mentions
* `Module.Readable` — what reading asks for
* `Module.reloaded` — what is kept of a module
* `Module.Container` — the parts of a container
* `Module.ReadFrom` — what a module is like that was read from the container of another one

## Main results

* `Module.Container.endsIf_decodeContainer` — the parts of a container are read back
* `Module.decode_iff_of_encode` — modules are read back just if they are readable
-/

namespace Interpose

/-- The definition with no sequence points in its body. -/
def MethodDef.withoutPoints (d : MethodDef) : MethodDef :=
  { d with body := d.body.map fun body => { body with points := [] } }

theorem MethodDef.withoutPoints_reloaded (d : MethodDef) :
    d.reloaded.withoutPoints = d.stored.withoutPoints := by
  unfold withoutPoints reloaded stored
  cases d.body <;> rfl

/-- The parts of the container of a module. -/
structure Module.Container (m : Module) where
  flags : Nat
  name : Bytes
  types : Bytes
  fields : Bytes
  methods : Bytes
  memberRefs : Bytes
  methodSpecs : Bytes
  typeSpecs : Bytes
  userStrings : Bytes
  finished : Bytes
  points : Bytes
  name_eq : Write.utf8 m.name = .ok name
  types_eq : Write.list TypeDef.encode m.types.toList = .ok types
  fields_eq : Write.list FieldDef.encode m.fields.toList = .ok fields
  methods_eq : Write.list MethodDef.encode m.methods.toList = .ok methods
  memberRefs_eq : Write.list MemberRef.encode m.memberRefs.toList = .ok memberRefs
  methodSpecs_eq : Write.list MethodSpec.encode m.methodSpecs.toList = .ok methodSpecs
  typeSpecs_eq : Write.list Ty.encode m.typeSpecs.toList = .ok typeSpecs
  userStrings_eq : Write.list Write.utf16 m.userStrings.toList = .ok userStrings
  finished_eq : Write.list (fun token => pure (Write.token token)) m.finished = .ok finished
  points_eq : m.symbols = [] ∧ flags = 0 ∧ points = [] ∨
    flags = symbolsFlag ∧ Write.list encodeSymbols m.symbols = .ok points

namespace Module.Container

variable {m m' : Module} {c c' : Cursor}

/-- All parts of a container, one behind the other. -/
def bytes (p : Container m) : Bytes :=
  containerMagic ++ (littleEndian 2 containerVersion ++ (littleEndian 2 p.flags ++ (p.name ++
    (m.versionId ++ (p.types ++ (p.fields ++ (p.methods ++ (p.memberRefs ++ (p.methodSpecs ++
      (p.typeSpecs ++ (p.userStrings ++ (p.finished ++ p.points))))))))))))

/-- What is written is a container. -/
theorem exists_of_encode {bytes : Bytes} (h : m.encode = .ok bytes) :
    ∃ p : Container m, p.bytes = bytes := by
  unfold encode at h
  dsimp only at h
  obtain ⟨name, name_eq, h⟩ := bind_eq_ok_iff.mp h
  obtain ⟨types, types_eq, h⟩ := bind_eq_ok_iff.mp h
  obtain ⟨fields, fields_eq, h⟩ := bind_eq_ok_iff.mp h
  obtain ⟨methods, methods_eq, h⟩ := bind_eq_ok_iff.mp h
  obtain ⟨memberRefs, memberRefs_eq, h⟩ := bind_eq_ok_iff.mp h
  obtain ⟨methodSpecs, methodSpecs_eq, h⟩ := bind_eq_ok_iff.mp h
  obtain ⟨typeSpecs, typeSpecs_eq, h⟩ := bind_eq_ok_iff.mp h
  obtain ⟨userStrings, userStrings_eq, h⟩ := bind_eq_ok_iff.mp h
  obtain ⟨finished, finished_eq, h⟩ := bind_eq_ok_iff.mp h
  by_cases none : m.symbols.isEmpty = true
  case pos =>
    rw [if_pos none, if_pos none] at h
    cases h
    exact ⟨⟨0, name, types, fields, methods, memberRefs, methodSpecs, typeSpecs, userStrings,
      finished, [], name_eq, types_eq, fields_eq, methods_eq, memberRefs_eq, methodSpecs_eq,
      typeSpecs_eq, userStrings_eq, finished_eq, .inl ⟨List.isEmpty_iff.mp none, rfl, rfl⟩⟩,
      by simp only [bytes, List.append_assoc]⟩
  case neg =>
    rw [if_neg none, if_neg none] at h
    obtain ⟨points, points_eq, h⟩ := bind_eq_ok_iff.mp h
    cases h
    exact ⟨⟨symbolsFlag, name, types, fields, methods, memberRefs, methodSpecs, typeSpecs,
      userStrings, finished, points, name_eq, types_eq, fields_eq, methods_eq, memberRefs_eq,
      methodSpecs_eq, typeSpecs_eq, userStrings_eq, finished_eq, .inr ⟨rfl, points_eq⟩⟩,
      by simp only [bytes, List.append_assoc]⟩

end Module.Container

namespace Module

variable {m m' : Module} {bytes : List UInt8}

/-- The types that a module mentions. -/
def mentioned (m : Module) : List Ty :=
  m.types.toList.flatMap TypeDef.mentioned ++ m.fields.toList.map FieldDef.type ++
    m.methods.toList.flatMap MethodDef.mentioned ++ m.memberRefs.toList.flatMap MemberRef.mentioned ++
    m.methodSpecs.toList.flatMap MethodSpec.instantiation ++ m.typeSpecs.toList

/-- What holds of all types that a module mentions holds of those that its rows mention. -/
theorem forall_mem_mentioned {P : Ty → Prop} : (∀ type ∈ m.mentioned, P type) ↔
    (∀ d ∈ m.types.toList, ∀ type ∈ d.mentioned, P type) ∧
    (∀ d ∈ m.fields.toList, P d.type) ∧
    (∀ d ∈ m.methods.toList, ∀ type ∈ d.mentioned, P type) ∧
    (∀ r ∈ m.memberRefs.toList, ∀ type ∈ r.mentioned, P type) ∧
    (∀ spec ∈ m.methodSpecs.toList, ∀ type ∈ spec.instantiation, P type) ∧
    ∀ type ∈ m.typeSpecs.toList, P type := by
  simp only [mentioned, List.forall_mem_append, List.forall_mem_flatMap, List.forall_mem_map,
    and_assoc]

/-- What reading asks for. -/
structure Readable (m : Module) : Prop where
  shallow : ∀ type ∈ m.mentioned, type.Shallow
  fieldOwners : ∀ d ∈ m.fields.toList, ∃ owner, m.typeDefAt d.owner = .ok owner
  fewFields : m.fields.size ≤ Edit.rowLimit
  methodOwners : ∀ d ∈ m.methods.toList, ∃ owner, m.typeDefAt d.owner = .ok owner
  fewMethods : m.methods.size ≤ Edit.rowLimit
  specs : ∀ spec ∈ m.methodSpecs.toList, m.checkMethodSpec spec = .ok ()
  finished : ∀ token ∈ m.finished, ∃ d, m.methodDefAt token = .ok d

/-- What is kept of a module. -/
def reloaded (m : Module) : Module :=
  { m with
    types := m.types.map .stored
    methods := m.methods.map .reloaded
    finished := m.finished.foldl (fun list token => Edit.insertToken token list) [] }

private theorem toArray_map_toList {α β : Type} (f : α → β) (table : Array α) :
    (table.toList.map f).toArray = table.map f := by
  rw [← List.map_toArray, Array.toArray_toList]

theorem exists_row_map {α β : Type} {table : Array α} {id : Table} {token : Token} (f : α → β) :
    (∃ b, row (table.map f) id token = .ok b) ↔ ∃ a, row table id token = .ok a := by
  rw [row_map]
  cases row table id token with
  | ok a => exact ⟨fun _ => ⟨a, rfl⟩, fun _ => ⟨f a, rfl⟩⟩
  | error e => exact ⟨fun ⟨_, h⟩ => (nomatch h), fun ⟨_, h⟩ => (nomatch h)⟩

/-- What instantiations refer to is looked up in tables that keep their rows. -/
theorem checkMethodSpec_reloaded (m : Module) (spec : MethodSpec) :
    m.reloaded.checkMethodSpec spec = m.checkMethodSpec spec := by
  unfold checkMethodSpec
  have methods : discard (m.reloaded.methodDefAt spec.method) =
      discard (m.methodDefAt spec.method) := by
    show discard (row (m.methods.map MethodDef.reloaded) .methodDef spec.method) = _
    rw [row_map]
    cases h : m.methodDefAt spec.method <;> rw [methodDefAt] at h <;> rw [h] <;> rfl
  split
  · exact methods
  · rfl
  · rfl

/-- All instantiations are checked. -/
theorem yields_forM_checkMethodSpec {specs : List MethodSpec} {u : Unit} {c c' : Cursor} :
    Yields (specs.forM fun spec => (liftM (m.checkMethodSpec spec) : Read Unit)) c u c' ↔
      (∀ spec ∈ specs, m.checkMethodSpec spec = .ok ()) ∧ c = c' := by
  induction specs with
  | nil => exact yields_pure.trans (by simp)
  | cons spec rest ih =>
    rw [List.forall_mem_cons, and_assoc, ← ih]
    exact yields_liftM_bind.trans ⟨fun ⟨_, checked, later⟩ => ⟨checked, later⟩,
      fun ⟨checked, later⟩ => ⟨(), checked, later⟩⟩

/-- Behind all parts nothing is left, and instantiations are checked. -/
theorem endsIf_checks (specs : List MethodSpec) (m : Module) :
    EndsIf (∀ spec ∈ specs, m.checkMethodSpec spec = .ok ()) (do
      if ← Read.hasMore then Read.malformed (.trailingBytes (← Read.remaining))
      specs.forM fun spec => m.checkMethodSpec spec
      return m) [] m := by
  intro c faces m' c'
  constructor
  · intro yields
    obtain ⟨more, c₁, here, yields⟩ := yields_bind.mp yields
    obtain ⟨rfl, rfl⟩ := yields_hasMore.mp here
    rw [faces.hasMore] at yields
    obtain ⟨u, c₂, checked, yields⟩ := yields_bind.mp yields
    obtain ⟨holds, rfl⟩ := yields_forM_checkMethodSpec.mp checked
    obtain ⟨rfl, rfl⟩ := yields_pure.mp yields
    exact ⟨holds, rfl, rfl⟩
  · rintro ⟨holds, rfl, rfl⟩
    refine (yields_hasMore.mpr ⟨rfl, rfl⟩).bind ?_
    rw [faces.hasMore]
    exact (yields_forM_checkMethodSpec (u := ()).mpr ⟨holds, rfl⟩).bind (yields_pure.mpr ⟨rfl, rfl⟩)

/-- The sequence points of a method are read back. -/
theorem takes_decodeSymbols {symbols : Token × SequencePoints}
    (written : encodeSymbols symbols = .ok bytes) :
    Takes decodeSymbols bytes (symbols.1, symbols.2.map .stored) := by
  obtain ⟨points, wrotePoints, written⟩ := bind_eq_ok_iff.mp written
  obtain ⟨count, wroteCount, written⟩ := bind_eq_ok_iff.mp written
  cases written
  have rest : Takes (Read.bytes points.length >>= fun bytes => do
      let points ← SequencePoints.decode bytes
      return (symbols.1, points)) (points ++ []) (symbols.1, symbols.2.map .stored) := by
    refine (takes_bytes points).bind ?_
    rw [SequencePoints.decode_of_encode wrotePoints]
    exact takes_pure _
  rw [List.append_nil] at rest
  rw [List.append_assoc]
  exact (takes_token _).bind
    ((takesIf_length_bind wroteCount (Nat.le_refl _) rest.takesIf).takes trivial)

theorem encodeSymbols_ne_nil {symbols : Token × SequencePoints}
    (written : encodeSymbols symbols = .ok bytes) : bytes ≠ [] := by
  rintro rfl
  obtain ⟨points, -, written⟩ := bind_eq_ok_iff.mp written
  obtain ⟨count, -, written⟩ := bind_eq_ok_iff.mp written
  simp [Write.token, littleEndian, pure, Except.pure] at written

/-- The module before its methods have their sequence points. -/
def withoutSymbols (m : Module) : Module := { m.reloaded with methods := m.methods.map .stored }

/-- Methods get the sequence points back that are behind the tables. -/
theorem Container.endsIf_behind (p : Container m) (small : m.methods.size ≤ Edit.rowLimit)
    (specs : List MethodSpec) :
    EndsIf (∀ spec ∈ specs, m.checkMethodSpec spec = .ok ()) (do
      let m ← if p.flags % 2 = symbolsFlag then
          m.withoutSymbols.decodeTable decodeSymbols addSymbols
        else pure m.withoutSymbols
      if ← Read.hasMore then Read.malformed (.trailingBytes (← Read.remaining))
      specs.forM fun spec => m.checkMethodSpec spec
      return m) p.points m.reloaded := by
  have checks := (endsIf_checks specs m.reloaded).congr
    (Q := ∀ spec ∈ specs, m.checkMethodSpec spec = .ok ()) (by simp only [checkMethodSpec_reloaded])
  have restored (m' : Module) : Yields ((m.symbols.map fun symbols =>
      (symbols.1, symbols.2.map SequencePoint.stored)).forM addSymbols) m.withoutSymbols () m' ↔
        True ∧ m' = m.reloaded := by
    have whole : m.withoutSymbols.methods =
        (([] : List MethodDef).map MethodDef.reloaded ++
          m.methods.toList.map MethodDef.stored).toArray := by
      rw [List.map_nil, List.nil_append, toArray_map_toList]
      rfl
    rw [symbols_eq, true_and]
    refine (yields_forM_addSymbols whole (by rw [withoutSymbols, Array.size_map]; exact small)).trans ?_
    rw [List.nil_append, toArray_map_toList]
    rfl
  -- Without any points the part is missing, and its flag is not set.
  rcases p.points_eq with ⟨none, flags, points⟩ | ⟨flags, points⟩
  case inl =>
    rw [none] at restored
    have same : m.withoutSymbols = m.reloaded :=
      ((restored _).mp (yields_pure.mpr ⟨rfl, rfl⟩)).2
    rw [flags, points, if_neg (by decide), pure_bind, same]
    exact checks
  case inr =>
    rw [flags, if_pos (by decide), ← List.append_nil p.points]
    refine .congr ((takesIf_decodeTable (P := fun _ => True)
      (fun _ _ _ wrote => (takes_decodeSymbols wrote).takesIf)
      (fun _ _ _ => encodeSymbols_ne_nil) points restored).bindEnd fun _ => checks) (by simp)

/-- The conditions of readability, in the order in which the parts of a container are read. -/
private theorem readable_iff_parts (m : Module) :
    ((∀ d ∈ m.types.toList, ∀ type ∈ d.mentioned, type.Shallow) ∧ True) ∧
      ((∀ d ∈ m.fields.toList, d.type.Shallow) ∧
        (∀ d ∈ m.fields.toList, ∃ owner, m.typeDefAt d.owner = .ok owner) ∧
          m.fields.size ≤ Edit.rowLimit) ∧
      ((∀ d ∈ m.methods.toList, ∀ type ∈ d.mentioned, type.Shallow) ∧
        (∀ d ∈ m.methods.toList, ∃ owner, m.typeDefAt d.owner = .ok owner) ∧
          m.methods.size ≤ Edit.rowLimit) ∧
      (∀ r ∈ m.memberRefs.toList, ∀ type ∈ r.mentioned, type.Shallow) ∧
      (∀ spec ∈ m.methodSpecs.toList, ∀ type ∈ spec.instantiation, type.Shallow) ∧
      (∀ type ∈ m.typeSpecs.toList, type.Shallow) ∧
      ((∀ token ∈ m.finished, True) ∧ ∀ token ∈ m.finished, ∃ d, m.methodDefAt token = .ok d) ∧
      (∀ spec ∈ m.methodSpecs.toList, m.checkMethodSpec spec = .ok ()) ↔ m.Readable := by
  have mentioned := m.forall_mem_mentioned (P := Ty.Shallow)
  constructor
  · rintro ⟨⟨types, -⟩, ⟨fields, fieldOwners, fewFields⟩, ⟨methods, methodOwners, fewMethods⟩,
      memberRefs, methodSpecs, typeSpecs, ⟨-, finished⟩, specs⟩
    exact ⟨mentioned.mpr ⟨types, fields, methods, memberRefs, methodSpecs, typeSpecs⟩, fieldOwners,
      fewFields, methodOwners, fewMethods, specs, finished⟩
  · intro h
    obtain ⟨types, fields, methods, memberRefs, methodSpecs, typeSpecs⟩ := mentioned.mp h.shallow
    exact ⟨⟨types, trivial⟩, ⟨fields, h.fieldOwners, h.fewFields⟩,
      ⟨methods, h.methodOwners, h.fewMethods⟩, memberRefs, methodSpecs, typeSpecs,
      ⟨fun _ _ => trivial, h.finished⟩, h.specs⟩

section Tables

variable (m m' : Module)

/-- What is there of a module when its types were read. -/
private def withTypes : Module :=
  { name := m.name, versionId := m.versionId, types := m.types.map .stored }

/-- What is there of a module when its fields were read. -/
private def withFields : Module := { m.withTypes with fields := m.fields }

/-- What is there of a module when its methods were read. -/
private def withMethods : Module := { m.withFields with methods := m.methods.map .stored }

private theorem yields_types : Yields ((m.types.toList.map TypeDef.stored).forM
    fun d => discard (Edit.insertType d)) { name := m.name, versionId := m.versionId } () m' ↔
      True ∧ m' = m.withTypes := by
  rw [yields_forM_insertType, true_and, toArray_map_toList]
  simp [withTypes]

private theorem yields_fields : Yields ((m.fields.toList.map id).forM
    fun d => discard (Edit.insertField d)) m.withTypes () m' ↔
      ((∀ d ∈ m.fields.toList, ∃ owner, m.typeDefAt d.owner = .ok owner) ∧
        m.fields.size ≤ Edit.rowLimit) ∧ m' = m.withFields := by
  rw [yields_forM_insertField (Nat.zero_le _)]
  simp [withTypes, withFields, typeDefAt, exists_row_map]

private theorem yields_methods : Yields ((m.methods.toList.map MethodDef.stored).forM
    fun d => discard (Edit.insertMethod d)) m.withFields () m' ↔
      ((∀ d ∈ m.methods.toList, ∃ owner, m.typeDefAt d.owner = .ok owner) ∧
        m.methods.size ≤ Edit.rowLimit) ∧ m' = m.withMethods := by
  rw [yields_forM_insertMethod (Nat.zero_le _), toArray_map_toList]
  simp [withTypes, withFields, withMethods, typeDefAt, exists_row_map, MethodDef.stored]

private theorem yields_finished : Yields ((m.finished.map id).forM addFinished) { m.withMethods with
    memberRefs := m.memberRefs.toList.toArray
    methodSpecs := m.methodSpecs.toList.toArray
    typeSpecs := m.typeSpecs.toList.toArray
    userStrings := m.userStrings.toList.toArray } () m' ↔
      (∀ token ∈ m.finished, ∃ d, m.methodDefAt token = .ok d) ∧ m' = m.withoutSymbols := by
  rw [yields_forM_addFinished]
  simp [withTypes, withFields, withMethods, methodDefAt, exists_row_map, withoutSymbols, reloaded]

end Tables

/-- The tables and the sequence points of a module are read back. -/
theorem Container.endsIf_decodeContainer (p : Container m) (identified : m.versionId.length = 16) :
    EndsIf m.Readable decodeContainer p.bytes m.reloaded := by
  have token (t : Token) {bytes : Bytes} (wrote : pure (Write.token t) = (.ok bytes : Write)) :
      Takes Read.token bytes t ∧ bytes ≠ [] := by
    cases wrote
    exact ⟨takes_token t, by simp [Write.token, littleEndian]⟩
  -- The proof goes along the container, part by part.
  refine .congr ?_ m.readable_iff_parts
  unfold decodeContainer
  refine (takes_bytes containerMagic).bindEnd ?_
  rw [if_neg (by simp)]
  refine (takes_word 2 containerVersion).bindEnd ?_
  rw [if_neg (by decide)]
  refine (takes_word 2 p.flags).bindEnd ((takes_utf8 p.name_eq).bindEnd ?_)
  rw [← identified]
  refine (takes_bytes m.versionId).bindEnd ?_
  refine (takesIf_decodeTable (fun _ _ _ wrote => TypeDef.takesIf_decode wrote)
    (fun _ _ _ => TypeDef.encode_ne_nil) p.types_eq m.yields_types).bindEnd fun _ => ?_
  refine (takesIf_decodeTable (f := id) (fun _ _ _ wrote => FieldDef.takesIf_decode wrote)
    (fun _ _ _ => FieldDef.encode_ne_nil) p.fields_eq m.yields_fields).bindEnd fun _ => ?_
  refine (takesIf_decodeTable (fun _ _ _ wrote => MethodDef.takesIf_decode wrote)
    (fun _ _ _ => MethodDef.encode_ne_nil) p.methods_eq m.yields_methods).bindEnd fun kept => ?_
  refine (takesIf_list (fun _ _ _ => MemberRef.takesIf_decode)
    (fun _ _ _ => MemberRef.encode_ne_nil) p.memberRefs_eq).bindEnd fun _ => ?_
  refine (takesIf_list (fun _ _ _ => MethodSpec.takesIf_decode)
    (fun _ _ _ => MethodSpec.encode_ne_nil) p.methodSpecs_eq).bindEnd fun _ => ?_
  refine (takesIf_list (fun _ _ _ => Ty.takesIf_decode)
    (fun _ _ _ => Ty.encode_ne_nil) p.typeSpecs_eq).bindEnd fun _ => ?_
  refine ((takesIf_list (P := fun _ => True) (fun _ _ _ wrote => (takes_utf16 wrote).takesIf)
    (fun _ _ _ => Write.utf16_ne_nil) p.userStrings_eq).takes fun _ _ => trivial).bindEnd ?_
  refine (takesIf_decodeTable (f := id) (P := fun _ => True)
    (fun t _ _ wrote => (token t wrote).1.takesIf)
    (fun t _ _ wrote => (token t wrote).2) p.finished_eq m.yields_finished).bindEnd fun _ => ?_
  rw [show p.flags % 256 ^ 2 % 2 = p.flags % 2 by omega]
  exact p.endsIf_behind kept.2.2 m.methodSpecs.toList

end Module

/-- What a module is like that was read from the container of another one. -/
structure Module.ReadFrom (m m' : Module) : Prop where
  name : m'.name = m.name
  versionId : m'.versionId = m.versionId
  types : m'.types = m.types.map TypeDef.stored
  fields : m'.fields = m.fields
  methods : m'.methods.map MethodDef.withoutPoints =
    (m.methods.map MethodDef.stored).map MethodDef.withoutPoints
  memberRefs : m'.memberRefs = m.memberRefs
  methodSpecs : m'.methodSpecs = m.methodSpecs
  typeSpecs : m'.typeSpecs = m.typeSpecs
  userStrings : m'.userStrings = m.userStrings
  finished : m'.finished = m.finished.foldl (fun list token => Edit.insertToken token list) []
  small : m'.methods.size ≤ Edit.rowLimit

namespace Module

variable {m m' : Module} {bytes : List UInt8}

theorem decode_eq_ok_iff {data : List UInt8} : decode data = .ok m ↔
    data ≠ [] ∧ ∃ c, Yields decodeContainer (Cursor.ofBytes data) m c := by
  unfold decode
  cases data with
  | nil => exact ⟨fun h => (nomatch h), fun h => absurd rfl h.1⟩
  | cons first rest =>
    exact ⟨fun h => ⟨List.cons_ne_nil _ _, _, Prod.ext h rfl⟩,
      fun ⟨_, _, read⟩ => congrArg Prod.fst read⟩

/-- What is written of a module is read just if the module is readable, and what is read is what is
kept of it. -/
theorem decode_iff_of_encode (identified : m.versionId.length = 16) (written : m.encode = .ok bytes) :
    decode bytes = .ok m' ↔ m.Readable ∧ m' = m.reloaded := by
  obtain ⟨p, rfl⟩ := Container.exists_of_encode written
  have ends := p.endsIf_decodeContainer identified (Cursor.faces_ofBytes p.bytes)
  rw [decode_eq_ok_iff]
  constructor
  · rintro ⟨-, c, read⟩
    obtain ⟨readable, same, -⟩ := (ends m' c).mp read
    exact ⟨readable, same⟩
  · rintro ⟨readable, same⟩
    exact ⟨by simp [Container.bytes, containerMagic], _, (ends m' _).mpr ⟨readable, same, rfl⟩⟩

/-- What is read from the container of a module is the module, apart from what has no meaning. -/
theorem readFrom_of_decode (identified : m.versionId.length = 16) (written : m.encode = .ok bytes)
    (read : decode bytes = .ok m') : m.ReadFrom m' := by
  obtain ⟨readable, rfl⟩ := (decode_iff_of_encode identified written).mp read
  exact {
    name := rfl
    versionId := rfl
    types := rfl
    fields := rfl
    methods := by
      rw [reloaded, Array.map_map, Array.map_map]
      exact Array.map_congr_left fun d _ => d.withoutPoints_reloaded
    memberRefs := rfl
    methodSpecs := rfl
    typeSpecs := rfl
    userStrings := rfl
    finished := rfl
    small := by
      rw [reloaded, Array.size_map]
      exact readable.fewMethods }

end Module

end Interpose
