import Interpose.Proofs.Module.Loading
import Mathlib.Logic.Relation

/-!
# Modules that are put together

A module starts out empty and gets its rows one by one.  What owns a field or a method has to be there
before, but instantiations and marks of finished methods may name rows that are added later or never;
only reading asks for them.

## Main definitions

* `Module.Addition` — one row, or one mark, is added to a module
* `Module.Built` — a module is put together from nothing
* `Module.Names` — a token names a method

## Main results

* `Module.Addition.assembled`, `Module.Built.assembled` — owners are there whatever is added
* `Module.decode_of_built` — what is written of a module is read back just if all that it names is
  there
-/

namespace Interpose

namespace Module

/-- Something is added to a module. -/
inductive Addition (m m' : Module) : Prop
  | type {d : TypeDef} {token : Token} (h : Yields (Edit.insertType d) m token m')
  | field {d : FieldDef} {token : Token} (h : Yields (Edit.insertField d) m token m')
  | method {d : MethodDef} {token : Token} (h : Yields (Edit.insertMethod d) m token m')
  | memberRef {r : MemberRef} {token : Token} (h : Yields (Edit.insertMemberRef r) m token m')
  | methodSpec {s : MethodSpec} {token : Token} (h : Yields (Edit.insertMethodSpec s) m token m')
  | typeSpec {type : Ty} {token : Token} (h : Yields (Edit.insertTypeSpec type) m token m')
  | string {text : String} {token : Token} (h : Yields (Edit.insertString text) m token m')
  | finished {token : Token} (h : Yields (Edit.markFinished token) m () m')

/-- A module is put together from nothing. -/
def Built (m : Module) : Prop := ∃ name : String, Relation.ReflTransGen Addition { name } m

/-- A token names a method, by its definition or by a reference. -/
def Names (m : Module) (token : Token) : Prop :=
  (∃ d, m.methodDefAt token = .ok d) ∨ ∃ r, m.memberRefAt token = .ok r

/-- What is so of every module that is put together. -/
structure Assembled (m : Module) : Prop extends m.Sound where
  fewFields : m.fields.size ≤ Edit.rowLimit
  fieldOwners : ∀ d ∈ m.fields.toList, ∃ owner, m.typeDefAt d.owner = .ok owner
  methodOwners : ∀ d ∈ m.methods.toList, ∃ owner, m.typeDefAt d.owner = .ok owner

variable {m m' : Module} {token : Token}

/-- Instantiations are accepted just if they refer to something that names a method. -/
theorem checkMethodSpec_eq_ok_iff {spec : MethodSpec} :
    m.checkMethodSpec spec = .ok () ↔ m.Names spec.method := by
  have checked {α : Type} (found : Except Error α) :
      discard found = .ok () ↔ ∃ a, found = .ok a := by
    cases found with
    | ok a => exact ⟨fun _ => ⟨a, rfl⟩, fun _ => rfl⟩
    | error e => exact ⟨fun h => (nomatch h), fun ⟨_, h⟩ => (nomatch h)⟩
  unfold checkMethodSpec
  constructor
  · intro h
    split at h
    case h_1 => exact .inl ((checked _).mp h)
    case h_2 => exact .inr ((checked _).mp h)
    case h_3 => cases h
  · rintro (⟨d, h⟩ | ⟨r, h⟩)
    · rw [table?_of_row h]
      exact (checked _).mpr ⟨d, h⟩
    · rw [table?_of_row h]
      exact (checked _).mpr ⟨r, h⟩

theorem assembled_empty (name : String) : ({ name } : Module).Assembled where
  toSound := sound_empty name
  fewFields := Nat.zero_le _
  fieldOwners := by simp
  methodOwners := by simp

/-- Whatever is added, owners are there. -/
theorem Addition.assembled (h : Addition m m') (before : m.Assembled) : m'.Assembled := by
  -- Tables only get longer, so the owners that were there stay where they are.
  cases h with
  | @type d token h =>
    obtain rfl := yields_insertType.mp (yields_map.mpr ⟨_, h, rfl⟩)
    have owner {token : Token} (known : ∃ owner, m.typeDefAt token = .ok owner) :
        ∃ owner, row (m.types.push d) .typeDef token = .ok owner := by
      obtain ⟨owner, known⟩ := known
      exact ⟨owner, row_of_prefix (by simp) known⟩
    exact { before with
      fieldOwners := fun d member => owner (before.fieldOwners d member)
      methodOwners := fun d member => owner (before.methodOwners d member) }
  | field h =>
    obtain ⟨owner, free, rfl⟩ := yields_insertField.mp (yields_map.mpr ⟨_, h, rfl⟩)
    exact { before with
      fewFields := by rw [Array.size_push]; exact free
      fieldOwners := by
        rw [Array.toList_push, List.forall_mem_append, List.forall_mem_singleton]
        exact ⟨before.fieldOwners, owner⟩ }
  | method h =>
    obtain ⟨owner, free, rfl⟩ := yields_insertMethod.mp (yields_map.mpr ⟨_, h, rfl⟩)
    exact { before with
      small := by rw [Array.size_push]; exact free
      methodOwners := by
        rw [Array.toList_push, List.forall_mem_append, List.forall_mem_singleton]
        exact ⟨before.methodOwners, owner⟩ }
  | memberRef h =>
    rw [(yields_insertMemberRef h).1.others]
    exact { before with }
  | @methodSpec s token h =>
    obtain ⟨-, h⟩ := yields_guard.mp h
    have h : Yields (Edit.intern .methodSpec m.methodSpecs
      { m with methodSpecs := m.methodSpecs.push s } s) m token m' := h
    rcases Edit.intern_cases h with ⟨index, -, -, -, rfl⟩ | ⟨-, -, -, rfl⟩
    · exact before
    · exact { before with }
  | typeSpec h =>
    rw [(yields_insertTypeSpec h).1.others]
    exact { before with }
  | @string text token h =>
    have h : Yields (Edit.intern .userString m.userStrings
      { m with userStrings := m.userStrings.push text } text) m token m' := h
    rcases Edit.intern_cases h with ⟨index, -, -, -, rfl⟩ | ⟨-, -, -, rfl⟩
    · exact before
    · exact { before with }
  | finished h =>
    obtain rfl := yields_modify.mp h
    exact { before with ordered := before.ordered.insertToken _ }

theorem Built.assembled (h : m.Built) : m.Assembled := by
  obtain ⟨name, steps⟩ := h
  induction steps with
  | refl => exact assembled_empty name
  | tail _ step ih => exact step.assembled ih

/-- What is written of a module that was put together is read back just if all that its instantiations
and marks name is there, and then it is the same module, apart from what has no meaning. -/
theorem decode_of_built {bytes : List UInt8} (built : m.Built)
    (shallow : ∀ type ∈ m.mentioned, type.Shallow) (written : m.encode = .ok bytes) :
    decode bytes = .ok m' ↔ ((∀ spec ∈ m.methodSpecs.toList, m.Names spec.method) ∧
      ∀ token ∈ m.finished, ∃ d, m.methodDefAt token = .ok d) ∧
        m' = { m with types := m.types.map .stored, methods := m.methods.map .reloaded } := by
  have assembled := built.assembled
  have whole : m.reloaded =
      { m with types := m.types.map .stored, methods := m.methods.map .reloaded } := by
    have finished : m.finished.foldl (fun list token => Edit.insertToken token list) [] =
        m.finished := Edit.foldl_insertToken assembled.ordered
    rw [reloaded, finished]
  rw [decode_iff_of_encode assembled.identified written, whole]
  refine and_congr_left fun _ => ⟨fun readable => ⟨fun spec member => ?_, readable.finished⟩, ?_⟩
  · exact checkMethodSpec_eq_ok_iff.mp (readable.specs spec member)
  · rintro ⟨specs, finished⟩
    exact {
      shallow, finished
      fieldOwners := assembled.fieldOwners
      fewFields := assembled.fewFields
      methodOwners := assembled.methodOwners
      fewMethods := assembled.small
      specs := fun spec member => checkMethodSpec_eq_ok_iff.mpr (specs spec member) }

/-- A method is marked before it is there. -/
theorem not_forall_decode_of_built : ¬ ∀ (m : Module) (bytes : List UInt8), m.Built →
    m.encode = .ok bytes → ∃ m', decode bytes = .ok m' := by
  intro all
  let m : Module := { name := "Demo", finished := [tokenAt .methodDef 0] }
  have built : m.Built := ⟨"Demo", .single (.finished (yields_modify.mpr rfl))⟩
  have refused : (m.encode.toOption.any fun bytes => (decode bytes).toOption.isNone) = true := by
    decide +kernel
  cases written : m.encode with
  | error e =>
    rw [written] at refused
    cases refused
  | ok bytes =>
    obtain ⟨m', read⟩ := all m bytes built written
    rw [written, Except.toOption, Option.any_some, read] at refused
    cases refused

/-- A module with a method that is marked and instantiated. -/
def markedModule : Module where
  name := "Demo"
  types := #[{ name := "Demo.A", base := none, flags := ⟨0xFF⟩ }]
  methods := #[{ owner := tokenAt .typeDef 0, name := "f", genericArity := 1,
                 body := some { code := [0x2A] } }]
  methodSpecs := #[{ method := tokenAt .methodDef 0, instantiation := [.builtin .int32] }]
  finished := [tokenAt .methodDef 0]

/-- What the mark and the instantiation name is added last. -/
theorem decode_of_built_marked : ∃ bytes, markedModule.Built ∧ markedModule.encode = .ok bytes ∧
    decode bytes = .ok { markedModule with
      types := markedModule.types.map .stored
      methods := markedModule.methods.map .reloaded } := by
  let marked : Module := { name := "Demo", finished := [tokenAt .methodDef 0] }
  let instantiated : Module := { marked with methodSpecs := markedModule.methodSpecs }
  let typed : Module := { instantiated with types := markedModule.types }
  have mark : Yields (Edit.markFinished (tokenAt .methodDef 0)) { name := "Demo" } () marked := rfl
  have spec : Yields (Edit.insertMethodSpec
      { method := tokenAt .methodDef 0, instantiation := [.builtin .int32] }) marked
        (tokenAt .methodSpec 0) instantiated := by
    unfold Edit.insertMethodSpec
    rw [if_neg (by decide), yields_get_bind, Array.findIdx?_empty]
    rfl
  have type : Yields (Edit.insertType { name := "Demo.A", base := none, flags := ⟨0xFF⟩ })
      instantiated (tokenAt .typeDef 0) typed := rfl
  have method : Yields (Edit.insertMethod
      { owner := tokenAt .typeDef 0, name := "f", genericArity := 1, body := some { code := [0x2A] } })
        typed (tokenAt .methodDef 0) markedModule := rfl
  have built : markedModule.Built :=
    ⟨"Demo", .tail (.tail (.tail (.single (.finished mark)) (.methodSpec spec)) (.type type))
      (.method method)⟩
  have writes : markedModule.encode.toOption.isSome = true := by decide +kernel
  obtain ⟨bytes, written⟩ := Option.isSome_iff_exists.mp writes
  rw [toOption_eq_some_iff] at written
  have there : ∃ d, markedModule.methodDefAt (tokenAt .methodDef 0) = .ok d := ⟨_, rfl⟩
  refine ⟨bytes, built, written, (decode_of_built built ?_ written).mpr ⟨⟨?_, ?_⟩, rfl⟩⟩
  · decide +kernel
  · intro s member
    rw [List.mem_singleton.mp member]
    exact .inl there
  · intro token member
    rw [List.mem_singleton.mp member]
    exact there

end Module

end Interpose
