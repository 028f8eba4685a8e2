import Interpose.Proofs.Module.Building
import Mathlib.Data.List.Nodup

/-!
# What insertions do to the tables

A row that is added is at the end of its table and all other tables stay, so whatever a token named
before, it names afterwards.  References, instantiations, composed types and strings are kept once:
adding one of them again gives the token it has.

## Main definitions

* `Entry` — a row of any of the tables, and `Entry.insert`, which adds it
* `Module.entriesOf`, `Module.entryAt?` — the rows of a table, and the one that a token names
* `Module.Continues` — all tables of a module begin with those of another
* `Module.Interned` — what every module that is put together keeps of its rows
* `Module.addAll` — rows are added one after the other, whether that succeeds or not

## Main results

* `Entry.insert_cases`, `Entry.unchanged_of_fails` — what an insertion does if it succeeds or fails
* `Module.Continues.entryAt?`, `Module.Continues.methodAt`, `Module.Continues.typeAt` — tokens keep
  their meaning
* `Module.Built.interned` — rows that are kept once are there once, whatever is added in which order
* `Module.Built.insertion` — all of this about every module that is put together
-/

namespace Interpose

namespace Edit

variable {α : Type} [DecidableEq α] {id : Table} {table : Array α} {size : Nat} {a : α}
  {m m' after : Module} {token : Token} {e : Error}

theorem unchanged_of_fails_pushRow (h : Fails (pushRow id size after) m e m') : m' = m := by
  obtain ⟨-, rfl⟩ | ⟨token, -, fails⟩ := fails_liftM_bind.mp h
  · rfl
  · cases fails

theorem unchanged_of_fails_intern (h : Fails (intern id table after a) m e m') : m' = m := by
  unfold intern at h
  split at h
  case h_1 => exact (fails_liftM.mp h).2.symm
  case h_2 => exact unchanged_of_fails_pushRow h

/-- A row that is there once has the token of its position. -/
theorem yields_intern_of_known {index : Nat} (once : table.toList.Nodup) (small : index < rowLimit)
    (known : table[index]? = some a) :
    Yields (intern id table after a) m (Module.tokenAt id index) m := by
  obtain ⟨bound, entry⟩ := Array.getElem?_eq_some_iff.mp known
  have found : table.findIdx? (· = a) = some index := by
    rw [Array.findIdx?_eq_some_iff_getElem]
    refine ⟨bound, decide_eq_true entry, fun j before same => ?_⟩
    -- An earlier position with the same row would be the same position.
    have again : table[j]? = some a := by
      rw [Array.getElem?_eq_getElem (Nat.lt_trans before bound), of_decide_eq_true same]
    have twice : table.toList[j]? = table.toList[index]? := by
      rw [Array.getElem?_toList, Array.getElem?_toList, again, known]
    have inside : j < table.toList.length := Nat.lt_trans before bound
    exact absurd ((List.getElem?_inj inside once).mp twice) (Nat.ne_of_lt before)
  rw [intern, found]
  exact yields_liftM.mpr ⟨tokenOf_eq_ok_iff.mpr ⟨small, rfl⟩, rfl⟩

end Edit

/-- A row of one of the tables of a module. -/
inductive Entry where
  | type (d : TypeDef)
  | field (d : FieldDef)
  | method (d : MethodDef)
  | memberRef (r : MemberRef)
  | methodSpec (s : MethodSpec)
  | typeSpec (type : Ty)
  | string (text : String)
deriving DecidableEq

/-- The tables in which no row is added twice. -/
def Table.isKeptOnce : Table → Bool
  | .memberRef | .methodSpec | .typeSpec | .userString => true
  | _ => false

namespace Entry

/-- The table that a row belongs to. -/
def table : Entry → Table
  | .type _ => .typeDef
  | .field _ => .field
  | .method _ => .methodDef
  | .memberRef _ => .memberRef
  | .methodSpec _ => .methodSpec
  | .typeSpec _ => .typeSpec
  | .string _ => .userString

/-- Adds a row to its table. -/
def insert : Entry → Edit Token
  | .type d => Edit.insertType d
  | .field d => Edit.insertField d
  | .method d => Edit.insertMethod d
  | .memberRef r => Edit.insertMemberRef r
  | .methodSpec s => Edit.insertMethodSpec s
  | .typeSpec composed => Edit.insertTypeSpec composed
  | .string text => Edit.insertString text

/-- The module with one more row at the end of its table. -/
def push : Entry → Module → Module
  | .type d, m => { m with types := m.types.push d }
  | .field d, m => { m with fields := m.fields.push d }
  | .method d, m => { m with methods := m.methods.push d }
  | .memberRef r, m => { m with memberRefs := m.memberRefs.push r }
  | .methodSpec s, m => { m with methodSpecs := m.methodSpecs.push s }
  | .typeSpec composed, m => { m with typeSpecs := m.typeSpecs.push composed }
  | .string text, m => { m with userStrings := m.userStrings.push text }

/-- An instantiation is only accepted of what is the token of a method. -/
def IsAcceptable : Entry → Prop
  | .methodSpec s => s.method.isIn .methodDef = true ∨ s.method.isIn .memberRef = true
  | _ => True

end Entry

namespace Module

variable {m m' m'' : Module} {token : Token} {entry : Entry} {id : Table}

/-- The rows of a table. -/
def entriesOf (m : Module) : Table → List Entry
  | .typeDef => m.types.toList.map .type
  | .field => m.fields.toList.map .field
  | .methodDef => m.methods.toList.map .method
  | .memberRef => m.memberRefs.toList.map .memberRef
  | .methodSpec => m.methodSpecs.toList.map .methodSpec
  | .typeSpec => m.typeSpecs.toList.map .typeSpec
  | .userString => m.userStrings.toList.map .string

/-- A row that is put behind the others changes no other table. -/
theorem entriesOf_push : (entry.push m).entriesOf id =
    if id = entry.table then m.entriesOf id ++ [entry] else m.entriesOf id := by
  cases entry with
  | _ =>
    cases id with
    | _ => simp [Entry.push, Entry.table, entriesOf]

/-- The row that a token names. -/
def entryAt? (m : Module) (token : Token) : Option Entry := do
  match ← token.table? with
  | .typeDef => return .type (← (m.typeDefAt token).toOption)
  | .field => return .field (← (m.fieldDefAt token).toOption)
  | .methodDef => return .method (← (m.methodDefAt token).toOption)
  | .memberRef => return .memberRef (← (m.memberRefAt token).toOption)
  | .methodSpec => return .methodSpec (← (m.methodSpecAt token).toOption)
  | .typeSpec => return .typeSpec (← (row m.typeSpecs .typeSpec token).toOption)
  | .userString => return .string (← (m.stringAt token).toOption)

/-- Every table has rows of its own kind. -/
theorem table_of_mem_entriesOf (h : entry ∈ m.entriesOf id) : entry.table = id := by
  cases id with
  | _ =>
    obtain ⟨_, -, rfl⟩ := List.mem_map.mp h
    rfl

theorem toOption_row {α : Type} {table : Array α} (inside : token.isIn id = true) :
    (row table id token).toOption = token.index?.bind (table[·]?) := by
  ext a
  rw [toOption_eq_some_iff, row_eq_ok_iff, Option.bind_eq_some_iff]
  exact and_iff_right inside

theorem entryAt?_of_isIn (inside : token.isIn id = true) :
    m.entryAt? token = token.index?.bind ((m.entriesOf id)[·]?) := by
  have mapped {α : Type} (table : Array α) (wrap : α → Entry) :
      (do return wrap (← (row table id token).toOption) : Option Entry) =
        token.index?.bind ((table.toList.map wrap)[·]?) := by
    rw [toOption_row inside]
    cases token.index? with
    | none => rfl
    | some index =>
      rw [Option.bind_some, Option.bind_some, List.getElem?_map, Array.getElem?_toList]
      exact (Option.map_eq_bind).symm
  unfold entryAt?
  rw [Token.table?_of_isIn inside]
  cases id with
  | _ => exact mapped _ _

/-- A token names a row just if it is made of the table and the position of the row. -/
theorem entryAt?_eq_some_iff : m.entryAt? token = some entry ↔ token.isIn entry.table = true ∧
    ∃ index, token.index? = some index ∧ (m.entriesOf entry.table)[index]? = some entry := by
  constructor
  · intro h
    obtain ⟨id, known, -⟩ := Option.bind_eq_some_iff.mp h
    have inside : token.isIn id = true := by
      have number : id.number = token.tableNumber := by simpa using List.find?_some known
      exact decide_eq_true number.symm
    rw [entryAt?_of_isIn inside, Option.bind_eq_some_iff] at h
    obtain ⟨index, named, found⟩ := h
    obtain rfl := table_of_mem_entriesOf (List.mem_of_getElem? found)
    exact ⟨inside, index, named, found⟩
  · rintro ⟨inside, index, named, found⟩
    rw [entryAt?_of_isIn inside, named, Option.bind_some, found]

theorem entryAt?_tokenAt {index : Nat} (small : index < Edit.rowLimit)
    (found : (m.entriesOf entry.table)[index]? = some entry) :
    m.entryAt? (tokenAt entry.table index) = some entry :=
  entryAt?_eq_some_iff.mpr
    ⟨Token.isIn_tokenAt entry.table index, index, Token.index?_ofRow small, found⟩

theorem typeDefAt_iff {d : TypeDef} :
    m.typeDefAt token = .ok d ↔ m.entryAt? token = some (.type d) := by
  rw [entryAt?_eq_some_iff, typeDefAt, row_eq_ok_iff]
  simp [Entry.table, entriesOf]

theorem methodDefAt_iff {d : MethodDef} :
    m.methodDefAt token = .ok d ↔ m.entryAt? token = some (.method d) := by
  rw [entryAt?_eq_some_iff, methodDefAt, row_eq_ok_iff]
  simp [Entry.table, entriesOf]

theorem memberRefAt_iff {r : MemberRef} :
    m.memberRefAt token = .ok r ↔ m.entryAt? token = some (.memberRef r) := by
  rw [entryAt?_eq_some_iff, memberRefAt, row_eq_ok_iff]
  simp [Entry.table, entriesOf]

theorem methodSpecAt_iff {s : MethodSpec} :
    m.methodSpecAt token = .ok s ↔ m.entryAt? token = some (.methodSpec s) := by
  rw [entryAt?_eq_some_iff, methodSpecAt, row_eq_ok_iff]
  simp [Entry.table, entriesOf]

theorem typeSpecAt_iff {type : Ty} :
    row m.typeSpecs .typeSpec token = .ok type ↔ m.entryAt? token = some (.typeSpec type) := by
  rw [entryAt?_eq_some_iff, row_eq_ok_iff]
  simp [Entry.table, entriesOf]

/-- All tables of a module begin with those of another. -/
def Continues (m m' : Module) : Prop := ∀ id, m.entriesOf id <+: m'.entriesOf id

namespace Continues

theorem refl (m : Module) : m.Continues m := fun _ => List.prefix_refl _

theorem trans (h : m.Continues m') (h' : m'.Continues m'') : m.Continues m'' :=
  fun id => (h id).trans (h' id)

/-- What a token names, it names for good. -/
theorem entryAt? (h : m.Continues m') (known : m.entryAt? token = some entry) :
    m'.entryAt? token = some entry := by
  obtain ⟨inside, index, named, found⟩ := entryAt?_eq_some_iff.mp known
  refine entryAt?_eq_some_iff.mpr ⟨inside, index, named, ?_⟩
  obtain ⟨bound, here⟩ := List.getElem?_eq_some_iff.mp found
  rw [List.prefix_iff_getElem?.mp (h entry.table) index bound, here]

theorem resolves (h : m.Continues m') : m.Resolves m' where
  definedMethod known := by
    obtain ⟨d, owner, found, owned, same⟩ := definedMethod_eq_ok_iff.mp known
    refine definedMethod_eq_ok_iff.mpr ⟨d, owner, ?_, ?_, same⟩
    · exact methodDefAt_iff.mpr (h.entryAt? (methodDefAt_iff.mp found))
    · exact typeDefAt_iff.mpr (h.entryAt? (typeDefAt_iff.mp owned))
  memberRefAt found := memberRefAt_iff.mpr (h.entryAt? (memberRefAt_iff.mp found))
  methodSpecAt found := methodSpecAt_iff.mpr (h.entryAt? (methodSpecAt_iff.mp found))

/-- Tokens of methods keep their meaning. -/
theorem methodAt (h : m.Continues m') {method : Method} (known : m.methodAt token = .ok method) :
    m'.methodAt token = .ok method :=
  h.resolves.methodAt known

/-- Tokens of types keep their meaning. -/
theorem typeAt (h : m.Continues m') {type : Ty} (known : m.typeAt token = .ok type) :
    m'.typeAt token = .ok type := by
  refine typeAt_eq_ok_iff.mpr ?_
  rcases typeAt_eq_ok_iff.mp known with ⟨d, found, same⟩ | found
  · exact .inl ⟨d, typeDefAt_iff.mpr (h.entryAt? (typeDefAt_iff.mp found)), same⟩
  · exact .inr (typeSpecAt_iff.mpr (h.entryAt? (typeSpecAt_iff.mp found)))

end Continues

theorem continues_push (m : Module) (entry : Entry) : m.Continues (entry.push m) := by
  intro id
  rw [entriesOf_push]
  split
  · exact List.prefix_append _ _
  · exact List.prefix_refl _

/-- A new row can be put behind those of its table. -/
structure Admits (m : Module) (entry : Entry) : Prop where
  /-- A row that is kept once is not there yet. -/
  fresh : entry.table.isKeptOnce = true → entry ∉ m.entriesOf entry.table
  /-- Only type definitions are not counted. -/
  room : entry.table = .typeDef ∨ (m.entriesOf entry.table).length < Edit.rowLimit

/-- The token of the place behind the rows of a table. -/
def nextToken (m : Module) (id : Table) : Token := tokenAt id (m.entriesOf id).length

/-- The next token names the row that is put there. -/
theorem entryAt?_nextToken (few : (m.entriesOf entry.table).length < Edit.rowLimit) :
    (entry.push m).entryAt? (m.nextToken entry.table) = some entry := by
  apply entryAt?_tokenAt few
  rw [entriesOf_push, if_pos rfl, List.getElem?_concat_length]

end Module

namespace Entry

open Interpose.Module

variable {m m' : Module} {token : Token} {entry : Entry} {e : Error}

/-- The row of a table that keeps every row once is there already, or it is put behind the others. -/
private theorem cases_of_intern {α : Type} [DecidableEq α] {table : Array α} {a : α}
    {wrap : α → Entry} (inj : Function.Injective wrap)
    (rows : m.entriesOf (wrap a).table = table.toList.map wrap)
    (h : Yields (Edit.intern (wrap a).table table ((wrap a).push m) a) m token m') :
    m' = m ∧ m.entryAt? token = some (wrap a) ∨
      m.Admits (wrap a) ∧ token = m.nextToken (wrap a).table ∧ m' = (wrap a).push m := by
  have length : (m.entriesOf (wrap a).table).length = table.size := by
    rw [rows, List.length_map, Array.length_toList]
  obtain ⟨index, found, small, rfl, rfl⟩ | ⟨missing, small, rfl, rfl⟩ := Edit.intern_cases h
  · refine .inl ⟨rfl, entryAt?_tokenAt small ?_⟩
    rw [rows, List.getElem?_map, Array.getElem?_toList, found]
    rfl
  · refine .inr ⟨⟨fun _ member => ?_, .inr (length ▸ small)⟩, by rw [nextToken, length], rfl⟩
    rw [rows, List.mem_map_of_injective inj] at member
    exact missing member

/-- The row of a field or a method is put behind the others. -/
private theorem cases_of_pushRow {size : Nat} (length : (m.entriesOf entry.table).length = size)
    (more : entry.table.isKeptOnce = false)
    (h : Yields (Edit.pushRow entry.table size (entry.push m)) m token m') :
    m.Admits entry ∧ token = m.nextToken entry.table ∧ m' = entry.push m := by
  obtain ⟨small, rfl, rfl⟩ := Edit.yields_pushRow.mp h
  refine ⟨⟨fun once => ?_, .inr (length ▸ small)⟩, by rw [nextToken, length], rfl⟩
  rw [more] at once
  cases once

/-- An insertion that succeeds gives the token of a row that is kept once and is there already, or it
puts the row behind those of its table and gives the next token. -/
theorem insert_cases (h : Yields entry.insert m token m') : entry.IsAcceptable ∧
    (m' = m ∧ m.entryAt? token = some entry ∨
      m.Admits entry ∧ token = m.nextToken entry.table ∧ m' = entry.push m) := by
  cases entry with
  | type d =>
    unfold insert Edit.insertType at h
    rw [yields_get_bind, yields_set_bind] at h
    obtain ⟨rfl, rfl⟩ := yields_pure.mp h
    refine ⟨trivial, .inr ⟨⟨fun once => absurd once Bool.false_ne_true, .inl rfl⟩, ?_, rfl⟩⟩
    rw [nextToken, table, entriesOf, List.length_map, Array.length_toList]
  | field d =>
    obtain ⟨owner, -, h⟩ := yields_liftM_bind.mp (yields_get_bind.mp h)
    exact ⟨trivial, .inr (cases_of_pushRow (by simp [entriesOf, table]) rfl h)⟩
  | method d =>
    obtain ⟨owner, -, h⟩ := yields_liftM_bind.mp (yields_get_bind.mp h)
    exact ⟨trivial, .inr (cases_of_pushRow (by simp [entriesOf, table]) rfl h)⟩
  | memberRef r => exact ⟨trivial, cases_of_intern (fun _ _ => Entry.memberRef.inj) rfl h⟩
  | methodSpec s =>
    obtain ⟨acceptable, h⟩ := yields_guard.mp h
    refine ⟨?_, cases_of_intern (fun _ _ => Entry.methodSpec.inj) rfl h⟩
    simpa [IsAcceptable, or_iff_not_imp_left] using acceptable
  | typeSpec composed => exact ⟨trivial, cases_of_intern (fun _ _ => Entry.typeSpec.inj) rfl h⟩
  | string text => exact ⟨trivial, cases_of_intern (fun _ _ => Entry.string.inj) rfl h⟩

/-- An insertion that fails has changed nothing. -/
theorem unchanged_of_fails (h : Fails entry.insert m e m') : m' = m := by
  cases entry with
  | type d => cases h
  | field d =>
    obtain ⟨-, rfl⟩ | ⟨owner, -, h⟩ := fails_liftM_bind.mp (fails_get_bind.mp h)
    · rfl
    · exact Edit.unchanged_of_fails_pushRow h
  | method d =>
    obtain ⟨-, rfl⟩ | ⟨owner, -, h⟩ := fails_liftM_bind.mp (fails_get_bind.mp h)
    · rfl
    · exact Edit.unchanged_of_fails_pushRow h
  | memberRef r => exact Edit.unchanged_of_fails_intern h
  | methodSpec s =>
    obtain ⟨-, -, rfl⟩ | ⟨-, h⟩ := fails_guard.mp h
    · rfl
    · exact Edit.unchanged_of_fails_intern h
  | typeSpec composed => exact Edit.unchanged_of_fails_intern h
  | string text => exact Edit.unchanged_of_fails_intern h

/-- A row that is kept once and is there once has one token, and adding it again gives that. -/
theorem yields_insert_of_known (once : (m.entriesOf entry.table).Nodup)
    (acceptable : entry.IsAcceptable) (kept : entry.table.isKeptOnce = true)
    (known : m.entryAt? token = some entry) : Yields entry.insert m token m := by
  obtain ⟨inside, index, named, found⟩ := entryAt?_eq_some_iff.mp known
  obtain ⟨small, same⟩ := Token.eq_tokenAt_of_index? inside named
  have interned {α : Type} [DecidableEq α] {table : Array α} {a : α} {wrap : α → Entry} {id : Table}
      (inj : Function.Injective wrap) (rows : m.entriesOf id = table.toList.map wrap)
      (once : (m.entriesOf id).Nodup) (found : (m.entriesOf id)[index]? = some (wrap a)) :
      Yields (Edit.intern id table ((wrap a).push m) a) m (tokenAt id index) m := by
    rw [rows] at once found
    apply Edit.yields_intern_of_known once.of_map small
    rw [List.getElem?_map, Array.getElem?_toList] at found
    exact Option.map_injective inj found
  rw [same]
  cases entry with
  | type | field | method => cases kept
  | memberRef r => exact interned (fun _ _ => Entry.memberRef.inj) rfl once found
  | methodSpec s =>
    refine yields_guard.mpr ⟨?_, interned (fun _ _ => Entry.methodSpec.inj) rfl once found⟩
    simpa [IsAcceptable, or_iff_not_imp_left] using acceptable
  | typeSpec composed => exact interned (fun _ _ => Entry.typeSpec.inj) rfl once found
  | string text => exact interned (fun _ _ => Entry.string.inj) rfl once found

/-- Whatever comes of an insertion, the rows that were there are at the beginning of the tables. -/
theorem continues_insert (h : Yields entry.insert m token m') : m.Continues m' := by
  obtain ⟨-, ⟨rfl, -⟩ | ⟨-, -, rfl⟩⟩ := insert_cases h
  · exact .refl m'
  · exact continues_push m entry

end Entry

namespace Module

variable {m m' : Module} {token : Token} {entry : Entry} {id : Table}

/-- What every module that is put together keeps of its rows. -/
structure Interned (m : Module) : Prop where
  once : ∀ id, id.isKeptOnce = true → (m.entriesOf id).Nodup
  few : ∀ id, id.isKeptOnce = true → (m.entriesOf id).length ≤ Edit.rowLimit
  acceptable : ∀ id, ∀ entry ∈ m.entriesOf id, entry.IsAcceptable

namespace Interned

theorem congr (h : m.Interned) (same : m'.entriesOf = m.entriesOf) : m'.Interned where
  once := same ▸ h.once
  few := same ▸ h.few
  acceptable := same ▸ h.acceptable

/-- One more row, if it is new and there is room for it. -/
theorem push (h : m.Interned) (admits : m.Admits entry) (acceptable : entry.IsAcceptable) :
    (entry.push m).Interned where
  once id kept := by
    rw [entriesOf_push]
    by_cases same : id = entry.table
    · subst same
      rw [if_pos rfl, ← List.concat_eq_append]
      exact (h.once _ kept).concat (admits.fresh kept)
    · rw [if_neg same]
      exact h.once id kept
  few id kept := by
    rw [entriesOf_push]
    by_cases same : id = entry.table
    · subst same
      rw [if_pos rfl, List.length_append]
      -- Type definitions are not kept once, so the row is counted.
      obtain uncounted | room := admits.room
      · rw [uncounted] at kept
        cases kept
      · exact room
    · rw [if_neg same]
      exact h.few id kept
  acceptable id := by
    rw [entriesOf_push]
    by_cases same : id = entry.table
    · rw [if_pos same, List.forall_mem_append, List.forall_mem_singleton]
      exact ⟨h.acceptable id, acceptable⟩
    · rw [if_neg same]
      exact h.acceptable id

/-- An insertion keeps the rows apart. -/
theorem insert (h : m.Interned) (yields : Yields entry.insert m token m') : m'.Interned := by
  obtain ⟨acceptable, ⟨rfl, -⟩ | ⟨admits, -, rfl⟩⟩ := Entry.insert_cases yields
  · exact h
  · exact h.push admits acceptable

/-- Every row that is kept once has one token. -/
theorem existsUnique_token (h : m.Interned) (kept : entry.table.isKeptOnce = true)
    (member : entry ∈ m.entriesOf entry.table) : ∃! token, m.entryAt? token = some entry := by
  obtain ⟨index, found⟩ := List.getElem?_of_mem member
  obtain ⟨bound, -⟩ := List.getElem?_eq_some_iff.mp found
  have small : index < Edit.rowLimit := Nat.lt_of_lt_of_le bound (h.few _ kept)
  refine ⟨tokenAt entry.table index, entryAt?_tokenAt small found, fun token named => ?_⟩
  obtain ⟨inside, other, at_other, again⟩ := entryAt?_eq_some_iff.mp named
  have same : other = index :=
    (List.getElem?_inj bound (h.once _ kept)).mp (found.trans again.symm) |>.symm
  rw [(Token.eq_tokenAt_of_index? inside at_other).2, same]

end Interned

theorem interned_empty (name : String) : ({ name } : Module).Interned where
  once id kept := by
    cases id with
    | _ => exact List.nodup_nil
  few id kept := by
    cases id with
    | _ => exact Nat.zero_le _
  acceptable id entry member := by
    cases id with
    | _ => cases member

/-- Whatever is added, it is a row or it changes no table. -/
theorem Addition.cases (h : Addition m m') :
    (∃ entry token, Yields (Entry.insert entry) m token m') ∨ m'.entriesOf = m.entriesOf := by
  cases h with
  | @type d token h => exact .inl ⟨.type d, token, h⟩
  | @field d token h => exact .inl ⟨.field d, token, h⟩
  | @method d token h => exact .inl ⟨.method d, token, h⟩
  | @memberRef r token h => exact .inl ⟨.memberRef r, token, h⟩
  | @methodSpec s token h => exact .inl ⟨.methodSpec s, token, h⟩
  | @typeSpec type token h => exact .inl ⟨.typeSpec type, token, h⟩
  | @string text token h => exact .inl ⟨.string text, token, h⟩
  | finished h =>
    obtain rfl := yields_modify.mp h
    exact .inr rfl

/-- An insertion is an addition. -/
theorem addition_of_insert (h : Yields entry.insert m token m') : Addition m m' := by
  cases entry with
  | type d => exact .type h
  | field d => exact .field h
  | method d => exact .method h
  | memberRef r => exact .memberRef h
  | methodSpec s => exact .methodSpec h
  | typeSpec type => exact .typeSpec h
  | string text => exact .string h

/-- Rows that are kept once are there once, whatever has been added in which order. -/
theorem Built.interned (h : m.Built) : m.Interned := by
  obtain ⟨name, steps⟩ := h
  induction steps with
  | refl => exact interned_empty name
  | tail _ step ih =>
    obtain ⟨entry, token, inserted⟩ | same := step.cases
    · exact ih.insert inserted
    · exact ih.congr same

/-- Adds rows one after the other and goes on if one of them is refused. -/
def addAll (m : Module) (entries : List Entry) : Module :=
  entries.foldl (fun m entry => (entry.insert.run.run m).2) m

/-- One attempt to add a row, whatever comes of it. -/
theorem Built.attempt (h : m.Built) (entry : Entry) :
    (entry.insert.run.run m).2.Built ∧ m.Continues (entry.insert.run.run m).2 := by
  rcases result : entry.insert.run.run m with ⟨e | token, m'⟩
  · obtain rfl : m' = m := Entry.unchanged_of_fails result
    exact ⟨h, .refl m'⟩
  · -- An attempt that succeeds is one more step of the building.
    obtain ⟨name, steps⟩ := h
    exact ⟨⟨name, steps.tail (addition_of_insert result)⟩, Entry.continues_insert result⟩

/-- Attempts to add rows, whatever comes of them. -/
theorem Built.addAll (h : m.Built) (entries : List Entry) :
    (m.addAll entries).Built ∧ m.Continues (m.addAll entries) := by
  induction entries generalizing m with
  | nil => exact ⟨h, .refl m⟩
  | cons entry rest ih =>
    obtain ⟨built, first⟩ := h.attempt entry
    obtain ⟨whole, later⟩ := ih built
    exact ⟨whole, first.trans later⟩

/-- No two rows of the tables in which rows are kept once are equal. -/
structure Distinct (m : Module) : Prop where
  memberRefs : m.memberRefs.toList.Nodup
  methodSpecs : m.methodSpecs.toList.Nodup
  typeSpecs : m.typeSpecs.toList.Nodup
  userStrings : m.userStrings.toList.Nodup

theorem Built.distinct (h : m.Built) : m.Distinct where
  memberRefs := (h.interned.once .memberRef rfl).of_map
  methodSpecs := (h.interned.once .methodSpec rfl).of_map
  typeSpecs := (h.interned.once .typeSpec rfl).of_map
  userStrings := (h.interned.once .userString rfl).of_map

/-- Every token that stands for something stands for the same in another module. -/
structure KeepsTokens (m m' : Module) : Prop where
  entryAt? : ∀ token entry, m.entryAt? token = some entry → m'.entryAt? token = some entry
  methodAt : ∀ token method, m.methodAt token = .ok method → m'.methodAt token = .ok method
  typeAt : ∀ token type, m.typeAt token = .ok type → m'.typeAt token = .ok type

theorem Continues.keepsTokens (h : m.Continues m') : m.KeepsTokens m' :=
  ⟨fun _ _ => h.entryAt?, fun _ _ => h.methodAt, fun _ _ => h.typeAt⟩

/-- The token that an insertion gives names the row, as long as there are not too many types. -/
theorem entryAt?_of_insert (h : Yields entry.insert m token m')
    (few : m'.types.size ≤ Edit.rowLimit) : m'.entryAt? token = some entry := by
  obtain ⟨-, ⟨rfl, known⟩ | ⟨admits, rfl, rfl⟩⟩ := Entry.insert_cases h
  · exact known
  · apply entryAt?_nextToken
    obtain uncounted | room := admits.room
    · cases entry with
      | type d =>
        rw [Entry.push, Array.size_push] at few
        rwa [Entry.table, entriesOf, List.length_map, Array.length_toList]
      | _ => cases uncounted
    · exact room

/-- In a module that is put together, an insertion that succeeds gives a token of the row and takes
no token its meaning, one that fails changes nothing, and one of a row that is kept once and is there
already gives the token that the row has and changes nothing.  No two of these rows are equal, and
all that stays so whatever is added later. -/
theorem Built.insertion (built : m.Built) : m.Distinct ∧
    (∀ entry : Entry,
      (∀ token m', Yields entry.insert m token m' → m'.types.size ≤ Edit.rowLimit →
        m'.entryAt? token = some entry ∧ m.KeepsTokens m') ∧
      (∀ e m', Fails entry.insert m e m' → m' = m) ∧
      (entry.table.isKeptOnce = true → entry ∈ m.entriesOf entry.table →
        (∃! token, m.entryAt? token = some entry) ∧
          ∀ token, m.entryAt? token = some entry → Yields entry.insert m token m)) ∧
    ∀ entries, (m.addAll entries).Distinct ∧ m.KeepsTokens (m.addAll entries) := by
  refine ⟨built.distinct, fun entry => ⟨?_, ?_, ?_⟩, fun entries => ?_⟩
  · intro token m' inserted few
    exact ⟨entryAt?_of_insert inserted few, (Entry.continues_insert inserted).keepsTokens⟩
  · intro e m' fails
    exact Entry.unchanged_of_fails fails
  · intro kept member
    refine ⟨built.interned.existsUnique_token kept member, fun token known => ?_⟩
    apply Entry.yields_insert_of_known (built.interned.once _ kept) _ kept known
    exact built.interned.acceptable _ entry member
  · obtain ⟨whole, later⟩ := built.addAll entries
    exact ⟨whole.distinct, later.keepsTokens⟩

/-- An instantiation of the first method for numbers. -/
def numbersSpec : MethodSpec :=
  { method := tokenAt .methodDef 0, instantiation := [.builtin .int32] }

/-- A module in which a method is instantiated twice for the same type, and in which a field was to be
added to a type that is not there. -/
def repeatedModule : Module :=
  ({ name := "Demo" } : Module).addAll
    [.type (.ofClass "Demo.A"),
      .method { owner := tokenAt .typeDef 0, name := "f", genericArity := 1 },
      .methodSpec numbersSpec,
      .field { owner := tokenAt .typeDef 1, name := "x", type := .builtin .int32 },
      .string "text",
      .methodSpec numbersSpec]

/-- The instantiation is there once, and adding it a third time gives the token that it has. -/
theorem insertion_repeatedModule : repeatedModule.Built ∧ repeatedModule.Distinct ∧
    repeatedModule.methodSpecs = #[numbersSpec] ∧ repeatedModule.fields = #[] ∧
    Yields (Edit.insertMethodSpec numbersSpec) repeatedModule (tokenAt .methodSpec 0)
      repeatedModule := by
  have empty : ({ name := "Demo" } : Module).Built := ⟨"Demo", .refl⟩
  have built : repeatedModule.Built := (empty.addAll _).1
  obtain ⟨distinct, inserts, -⟩ := built.insertion
  obtain ⟨-, -, known⟩ := inserts (.methodSpec numbersSpec)
  refine ⟨built, distinct, by decide +kernel, by decide +kernel, ?_⟩
  exact (known rfl (by decide +kernel)).2 _ (by decide +kernel)

end Module

end Interpose
