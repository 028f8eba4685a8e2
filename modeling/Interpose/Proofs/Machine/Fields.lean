import Interpose.Proofs.Machine.Instructions

/-!
# Fields of objects

Instructions name a field by its token, but an object holds its fields by their names.  Two fields of
one name are therefore one field of every object, whatever classes declare them.

## Main definitions

* `Machine.Loads`, `Machine.Stores` — what the instructions for fields do
* `MachineState.replace` — the state with another object in the place of one

## Main results

* `StoredObject.lookup_insertField` — the fields of an object behind a change
* `Machine.loads_of_instance`, `Machine.stores_of_instance` — the instructions applied to an object
* `Machine.fails_storeField_array` — arrays have no fields
* `Machine.loads_after_stores` — which fields a change is seen in
* `Machine.not_forall_loads_unchanged` — it may be seen in another field
-/

namespace Interpose

theorem StoredObject.lookup_insertField (name other : String) (value : Value)
    (fields : List (String × Value)) : (insertField name value fields).lookup other =
      if other = name then some value else fields.lookup other := by
  induction fields with
  | nil =>
    by_cases asked : other = name
    · simp [insertField, asked]
    · simp [insertField, List.lookup_cons, asked, beq_eq_false_iff_ne.mpr asked]
  | cons entry rest ih =>
    obtain ⟨here, old⟩ := entry
    unfold insertField
    by_cases same : here = name
    · subst same
      by_cases asked : other = here
      · simp [asked]
      · simp [List.lookup_cons, asked, beq_eq_false_iff_ne.mpr asked]
    · rw [if_neg same, List.lookup_cons, List.lookup_cons, ih]
      by_cases asked : other = here
      · simp [asked, same]
      · simp [beq_eq_false_iff_ne.mpr asked]

/-- The state with another object in the place of one. -/
def MachineState.replace (s : MachineState) (ref : Nat) (o : StoredObject) : MachineState :=
  { s with store := { s.store with objects := s.store.objects.setIfInBounds ref o } }

theorem MachineState.getElem?_replace_self {s : MachineState} {ref : Nat} {old : StoredObject}
    (found : s.store.objects[ref]? = some old) (o : StoredObject) :
    (s.replace ref o).store.objects[ref]? = some o := by
  obtain ⟨inside, -⟩ := Array.getElem?_eq_some_iff.mp found
  exact Array.getElem?_setIfInBounds_self_of_lt inside

theorem MachineState.getElem?_replace_of_ne {ref other : Nat} (differ : other ≠ ref) (s : MachineState)
    (o : StoredObject) : (s.replace ref o).store.objects[other]? = s.store.objects[other]? :=
  Array.getElem?_setIfInBounds_ne differ.symm

namespace Machine

variable {m : Machine} {field other : Token} {d e : FieldDef} {ref : Nat} {s : MachineState}
  {type element : Ty} {fields : List (String × Value)} {items : Array Value}

/-- In a frame that has room for it, the value of a field is loaded from an object, and nothing else
happens. -/
def Loads (m : Machine) (field : Token) (f : Frame) (ref : Nat) (value : Value) (s : MachineState) :
    Prop :=
  ∀ (execute : Executor) (offset : Nat) (rest : List Value), rest.length < f.maxStack →
    YieldsWith (m.step execute ⟨offset, .ldfld, .token field⟩) { f with stack := .object ref :: rest } s
      .next { f with stack := value :: rest } s

/-- A value is stored into a field of an object, which leaves the state `s'`. -/
def Stores (m : Machine) (field : Token) (f : Frame) (ref : Nat) (value : Value)
    (s s' : MachineState) : Prop :=
  ∀ (execute : Executor) (offset : Nat) (rest : List Value),
    YieldsWith (m.step execute ⟨offset, .stfld, .token field⟩)
      { f with stack := value :: .object ref :: rest } s .next { f with stack := rest } s'

theorem yieldsWith_fieldOperand (known : m.module.fieldDefAt field = .ok d) (offset : Nat) (op : Opcode)
    (f : Frame) (s : MachineState) :
    YieldsWith (m.fieldOperand ⟨offset, op, .token field⟩) f s (field, d) f s := by
  unfold fieldOperand
  refine YieldsWith.bind (a := field) (yieldsWith_pure.mpr ⟨rfl, rfl, rfl⟩) ?_
  rw [if_pos (Module.row_eq_ok_iff.mp known).1, yieldsWith_liftM_bind]
  exact ⟨d, known, yieldsWith_pure.mpr ⟨rfl, rfl, rfl⟩⟩

private theorem yieldsWith_pop_cons (value : Value) (rest : List Value) (f : Frame) (s : MachineState) :
    YieldsWith Step.pop { f with stack := value :: rest } s value { f with stack := rest } s :=
  yieldsWith_pop.mpr ⟨rfl, rfl, rfl⟩

private theorem yieldsWith_referent (ref : Nat) (f : Frame) (s : MachineState) :
    YieldsWith (Step.referent (.object ref)) f s ref f s := yieldsWith_pure.mpr ⟨rfl, rfl, rfl⟩

/-- What an object holds under the name of a field is what is loaded. -/
theorem loads_of_instance (known : m.module.fieldDefAt field = .ok d)
    (found : s.store.objects[ref]? = some (.instance type fields)) (reader : Frame) :
    m.Loads field reader ref ((fields.lookup d.name).getD (Value.default (reader.close d.type))) s := by
  intro execute offset rest room
  have looked : YieldsWith (Step.act (Act.object ref)) { reader with stack := rest } s
      (.instance type fields) { reader with stack := rest } s :=
    yieldsWith_act.mpr ⟨s.store, yields_object.mpr ⟨found, rfl⟩, rfl, rfl⟩
  have loaded : YieldsWith (m.loadField ⟨offset, .ldfld, .token field⟩)
      { reader with stack := .object ref :: rest } s () { reader with
        stack := (fields.lookup d.name).getD (Value.default (reader.close d.type)) :: rest } s :=
    (yieldsWith_fieldOperand known ..).bind <| (yieldsWith_pop_cons ..).bind <|
      (yieldsWith_referent ..).bind <| looked.bind <| yieldsWith_push.mpr ⟨room, rfl, rfl⟩
  exact loaded.bind (yieldsWith_pure.mpr ⟨rfl, rfl, rfl⟩)

/-- A value is stored in the form that the type of the field asks for, under the name of the field. -/
theorem stores_of_instance (known : m.module.fieldDefAt field = .ok d)
    (found : s.store.objects[ref]? = some (.instance type fields)) (f : Frame) (value : Value) :
    m.Stores field f ref value s (s.replace ref
      (.instance type (StoredObject.insertField d.name (value.adaptTo (f.close d.type)) fields))) := by
  intro execute offset rest
  have changed : Yields (Act.modifyObject ref (·.setField d.name (value.adaptTo (f.close d.type))))
      s.store () (s.replace ref (.instance type
        (StoredObject.insertField d.name (value.adaptTo (f.close d.type)) fields))).store :=
    (yields_object.mpr ⟨found, rfl⟩).bind (yields_liftM_bind.mpr ⟨_, rfl, yields_modify.mpr rfl⟩)
  have stored : YieldsWith (m.storeField ⟨offset, .stfld, .token field⟩)
      { f with stack := value :: .object ref :: rest } s () { f with stack := rest } (s.replace ref
        (.instance type
          (StoredObject.insertField d.name (value.adaptTo (f.close d.type)) fields))) :=
    (yieldsWith_fieldOperand known ..).bind <| (yieldsWith_pop_cons ..).bind <|
      (yieldsWith_pop_cons ..).bind <| yieldsWith_get_bind.mpr <| (yieldsWith_referent ..).bind <|
      yieldsWith_act.mpr ⟨_, changed, rfl, rfl⟩
  exact stored.bind (yieldsWith_pure.mpr ⟨rfl, rfl, rfl⟩)

private theorem fails_act {α : Type} {x : Act α} {error : Error} {store : Store}
    (h : Fails x s.store error store) : Fails (Run.act x) s error { s with store } := by
  have run : x.run.run s.store = (.error error, store) := h
  show ((x.run.run s.store).1, { s with store := (x.run.run s.store).2 }) = _
  rw [run]

/-- Arrays have no fields.  What is stored into one is lost, and nothing changes. -/
theorem fails_storeField_array (known : m.module.fieldDefAt field = .ok d)
    (found : s.store.objects[ref]? = some (.array element items)) (execute : Executor) (offset : Nat)
    (f : Frame) (value : Value) (rest : List Value) :
    Fails ((m.step execute ⟨offset, .stfld, .token field⟩).run
      { f with stack := value :: .object ref :: rest }) s (.fault (.typeMismatch "stfld" "array")) s := by
  have looked : Yields (Act.object ref) s.store (.array element items) s.store :=
    yields_object.mpr ⟨found, rfl⟩
  have change : Fails (Act.modifyObject ref (·.setField d.name (value.adaptTo (f.close d.type)))) s.store
      (.fault (.typeMismatch "stfld" "array")) s.store :=
    fails_bind.mpr (.inr ⟨_, _, looked, fails_liftM_bind.mpr (.inl ⟨rfl, rfl⟩)⟩)
  have store : Fails ((m.storeField ⟨offset, .stfld, .token field⟩).run
      { f with stack := value :: .object ref :: rest }) s (.fault (.typeMismatch "stfld" "array")) s := by
    unfold Fails storeField
    rw [(yieldsWith_fieldOperand known ..).run_bind, (yieldsWith_pop_cons ..).run_bind,
      (yieldsWith_pop_cons ..).run_bind]
    exact fails_bind.mpr (.inl (fails_act change))
  exact fails_bind.mpr (.inl store)

theorem Loads.unique {f : Frame} {a b : Value} (room : 0 < f.maxStack) (h : m.Loads field f ref a s)
    (h' : m.Loads field f ref b s) : a = b := by
  let still : Executor := fun _ _ _ s => (.ok .void, s)
  obtain ⟨-, same, -⟩ := (h still 0 [] room).unique (h' still 0 [] room)
  simpa using congrArg Frame.stack same

/-- A value that is stored into a field of an object is what is loaded from that field then.  Other
objects stay, and so do the fields with other names; a field of the same name has changed with it. -/
theorem loads_after_stores (known : m.module.fieldDefAt field = .ok d)
    (found : s.store.objects[ref]? = some (.instance type fields)) (f : Frame) (value : Value) :
    ∃ s', m.Stores field f ref value s s' ∧
      (∀ reader, m.Loads field reader ref (value.adaptTo (f.close d.type)) s') ∧
      (∀ elsewhere ≠ ref, s'.store.objects[elsewhere]? = s.store.objects[elsewhere]?) ∧
      ∀ other e, m.module.fieldDefAt other = .ok e → ∀ reader, ∃ before after,
        m.Loads other reader ref before s ∧ m.Loads other reader ref after s' ∧
        (e.name ≠ d.name → after = before) ∧
        (e.name = d.name → after = value.adaptTo (f.close d.type)) := by
  let changed := StoredObject.insertField d.name (value.adaptTo (f.close d.type)) fields
  have found' := MachineState.getElem?_replace_self found (.instance type changed)
  refine ⟨_, stores_of_instance known found f value, fun reader => ?_,
    fun elsewhere differ => MachineState.getElem?_replace_of_ne differ s _,
    fun other e known' reader => ⟨_, _, loads_of_instance known' found reader,
      loads_of_instance known' found' reader, fun differ => ?_, fun same => ?_⟩⟩
  -- All three are about the entry that a name has among the fields behind the change.
  · have loads := loads_of_instance known found' reader
    rwa [StoredObject.lookup_insertField, if_pos rfl] at loads
  · rw [StoredObject.lookup_insertField, if_neg differ]
  · rw [StoredObject.lookup_insertField, if_pos same]
    rfl

/-- The secret of a class. -/
def secretOf (owner : Nat) : FieldDef where
  owner := Module.tokenAt .typeDef owner
  name := "secret"
  type := .int32

/-- The age of the second class. -/
def age : FieldDef where
  owner := Module.tokenAt .typeDef 1
  name := "age"
  type := .int64

/-- A class with a secret, and a class below it with a secret of its own and an age. -/
def secretsModule : Module where
  name := "Demo"
  types := #[.ofClass "Demo.Base",
    { name := "Demo.Derived", base := some (.classType "Demo.Base") }]
  fields := #[secretOf 0, secretOf 1, age]

/-- The machine that runs them. -/
def secrets : Machine where
  program := .ofModule secretsModule

/-- A frame with room for some values. -/
def roomy : Frame where
  method := default
  arguments := #[]
  locals := #[]
  maxStack := 8

/-- A state with an object of the class below, with an age. -/
def withDerived : MachineState where
  store := { objects := #[.instance (.classType "Demo.Derived") [("age", .int64 30)]] }

theorem loads_after_stores_secrets : ∃ s',
    secrets.Stores (Module.tokenAt .field 0) roomy 0 (.int32 7) withDerived s' ∧
      secrets.Loads (Module.tokenAt .field 1) roomy 0 (.int32 7) s' ∧
      secrets.Loads (Module.tokenAt .field 2) roomy 0 (.int64 30) s' := by
  have known : secrets.module.fieldDefAt (Module.tokenAt .field 0) = .ok (secretOf 0) := rfl
  have object : withDerived.store.objects[0]? =
      some (.instance (.classType "Demo.Derived") [("age", .int64 30)]) := rfl
  have aged : secrets.Loads (Module.tokenAt .field 2) roomy 0 (.int64 30) withDerived :=
    loads_of_instance (d := age) rfl object roomy
  obtain ⟨s', stores, -, -, others⟩ := loads_after_stores known object roomy (.int32 7)
  obtain ⟨-, hidden, -, loads, -, same⟩ := others (Module.tokenAt .field 1) (secretOf 1) rfl roomy
  obtain ⟨before, after, old, new, differ, -⟩ := others (Module.tokenAt .field 2) age rfl roomy
  obtain rfl := same rfl
  obtain rfl := differ (by decide)
  obtain rfl := old.unique (by decide) aged
  exact ⟨s', stores, loads, new⟩

/-- What is stored into one field may be seen in another. -/
theorem not_forall_loads_unchanged : ¬ ∀ (m : Machine) (field other : Token) (f reader : Frame)
    (ref : Nat) (value before after : Value) (s s' : MachineState), field ≠ other →
    0 < reader.maxStack → m.Stores field f ref value s s' → m.Loads other reader ref before s →
    m.Loads other reader ref after s' → after = before := by
  intro right
  have known : secrets.module.fieldDefAt (Module.tokenAt .field 0) = .ok (secretOf 0) := rfl
  have hides : secrets.module.fieldDefAt (Module.tokenAt .field 1) = .ok (secretOf 1) := rfl
  have object : withDerived.store.objects[0]? =
      some (.instance (.classType "Demo.Derived") [("age", .int64 30)]) := rfl
  have same := right secrets (Module.tokenAt .field 0) (Module.tokenAt .field 1) roomy roomy 0 (.int32 7)
    _ _ withDerived _ (by decide) (by decide) (stores_of_instance known object roomy _)
    (loads_of_instance hides object roomy)
    (loads_of_instance hides (MachineState.getElem?_replace_self object _) roomy)
  revert same
  decide

end Machine

end Interpose
