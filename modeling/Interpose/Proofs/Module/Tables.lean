import Interpose.Proofs.Module.Growth
import Interpose.Proofs.Module.Rows

/-!
# Tables are read back

The rows of a table are read one by one and added to the module before the next is read.  Behind the
tables the sequence points come back to the methods that have any.

## Main definitions

* `MethodDef.reloaded` — what is kept of a method
* `symbolsFrom` — the sequence points of methods, by recursion on their list

## Main results

* `takesIf_decodeTable` — tables are read back
* `yields_forM_limited` — rows of a table that can only get so long
* `yields_forM_addSymbols` — sequence points come back to their methods
-/

namespace Interpose

section Tables

variable {α β : Type} {read : Read β} {write : α → Write} {f : α → β} {add : β → Edit Unit}
  {values : List α} {bytes tail : List UInt8} {c c' : Cursor} {m m' : Module} {P : α → Prop}
  {C : Prop}

/-- A change that is made while reading does not move the cursor. -/
theorem yields_editing {change : Edit α} :
    Yields (m.editing change) c m' c' ↔ c = c' ∧ ∃ a, Yields change m a m' := by
  show Yields (liftM (change.run.run m).1 >>= fun _ => pure (change.run.run m).2 : Read Module) c m'
    c' ↔ _
  rw [yields_liftM_bind]
  constructor
  · rintro ⟨a, done, h⟩
    obtain ⟨rfl, rfl⟩ := yields_pure.mp h
    exact ⟨rfl, a, Prod.ext done rfl⟩
  · rintro ⟨rfl, a, done⟩
    have done : (change.run.run m) = (.ok a, m') := done
    exact ⟨a, congrArg Prod.fst done, yields_pure.mpr ⟨congrArg Prod.snd done, rfl⟩⟩

/-- Rows are added to the module in the order in which they were written. -/
theorem yields_decodeRows
    (h : ∀ a ∈ values, ∀ bytes, write a = .ok bytes → TakesIf (P a) read bytes (f a))
    (written : Write.concat write values = .ok bytes) (faces : c.Faces (bytes ++ tail)) :
    Yields (Module.decodeRows read add values.length m) c m' c' ↔ (∀ a ∈ values, P a) ∧
      Yields ((values.map f).forM add) m () m' ∧ c' = c.skip bytes.length := by
  -- A row is added before the next is read, so both runs are taken apart at the same row.
  induction values generalizing bytes c m with
  | nil =>
    cases written
    refine yields_pure.trans ?_
    constructor
    · rintro ⟨rfl, rfl⟩
      exact ⟨by simp, yields_pure.mpr ⟨rfl, rfl⟩, rfl⟩
    · rintro ⟨-, adds, rfl⟩
      exact ⟨(yields_pure.mp adds).2, rfl⟩
  | cons a rest ih =>
    obtain ⟨first, wroteFirst, written⟩ := bind_eq_ok_iff.mp written
    obtain ⟨others, wroteOthers, written⟩ := bind_eq_ok_iff.mp written
    cases written
    obtain ⟨here, later⟩ := List.forall_mem_cons.mp h
    rw [List.append_assoc] at faces
    have taken := here first wroteFirst faces
    rw [List.forall_mem_cons, List.length_append, ← Cursor.skip_skip]
    constructor
    · intro yields
      obtain ⟨row, c₁, one, yields⟩ := yields_bind.mp yields
      obtain ⟨holds, rfl, rfl⟩ := (taken row c₁).mp one
      obtain ⟨m₁, c₂, edited, yields⟩ := yields_bind.mp yields
      obtain ⟨rfl, u, added⟩ := yields_editing.mp edited
      obtain ⟨all, adds, rfl⟩ := (ih later wroteOthers faces.skip).mp yields
      exact ⟨⟨holds, all⟩, added.bind adds, rfl⟩
    · rintro ⟨⟨holds, all⟩, adds, rfl⟩
      obtain ⟨u, m₁, added, adds⟩ := yields_bind.mp adds
      exact ((taken _ _).mpr ⟨holds, rfl, rfl⟩).bind ((yields_editing.mpr ⟨rfl, u, added⟩).bind
        ((ih later wroteOthers faces.skip).mpr ⟨all, adds, rfl⟩))

/-- Tables are read back with the number of their rows in front. -/
theorem takesIf_decodeTable
    (h : ∀ a ∈ values, ∀ bytes, write a = .ok bytes → TakesIf (P a) read bytes (f a))
    (some : ∀ a ∈ values, ∀ bytes, write a = .ok bytes → bytes ≠ [])
    (written : Write.list write values = .ok bytes)
    (adds : ∀ m₁, Yields ((values.map f).forM add) m () m₁ ↔ C ∧ m₁ = m') :
    TakesIf ((∀ a ∈ values, P a) ∧ C) (m.decodeTable read add) bytes m' := by
  obtain ⟨count, wroteCount, written⟩ := bind_eq_ok_iff.mp written
  obtain ⟨contents, wroteContents, written⟩ := bind_eq_ok_iff.mp written
  cases written
  refine takesIf_length_bind wroteCount (length_le_of_concat some wroteContents) ?_
  intro c tail faces m₁ c₁
  rw [yields_decodeRows h wroteContents faces, adds, and_assoc, and_assoc]

end Tables

section Changes

variable {m m' : Module} {u : Unit}

theorem yields_insertType {d : TypeDef} : Yields (discard (Edit.insertType d)) m u m' ↔
    m' = { m with types := m.types.push d } := by
  refine yields_map.trans ?_
  unfold Edit.insertType
  simp only [yields_get_bind, yields_set_bind, yields_pure]
  constructor
  · rintro ⟨token, ⟨rfl, rfl⟩, -⟩
    rfl
  · rintro rfl
    exact ⟨_, ⟨rfl, rfl⟩, trivial⟩

theorem yields_forM_insertType {rows : List TypeDef} :
    Yields (rows.forM fun d => discard (Edit.insertType d)) m u m' ↔
      m' = { m with types := m.types ++ rows.toArray } := by
  induction rows generalizing m with
  | nil =>
    refine yields_pure.trans ?_
    simp [eq_comm]
  | cons row rest ih =>
    refine yields_bind.trans ?_
    simp only [yields_insertType, ih]
    simp

/-- Rows of a table that can only get so long are added all or not. -/
theorem yields_forM_limited {β : Type} {add : β → Edit Unit} {Can : Module → β → Prop}
    {change : Module → β → Module} {size : Module → Nat} {rows : List β}
    (step : ∀ row m u m', Yields (add row) m u m' ↔
      Can m row ∧ size m < Edit.rowLimit ∧ m' = change m row)
    (same : ∀ m row other, Can (change m row) other ↔ Can m other)
    (grows : ∀ m row, size (change m row) = size m + 1) (small : size m ≤ Edit.rowLimit) :
    Yields (rows.forM add) m u m' ↔ ((∀ row ∈ rows, Can m row) ∧
      size m + rows.length ≤ Edit.rowLimit) ∧ m' = rows.foldl change m := by
  induction rows generalizing m with
  | nil =>
    refine yields_pure.trans ?_
    simp [eq_comm, small]
  | cons row rest ih =>
    rw [List.forall_mem_cons, List.length_cons, List.foldl_cons]
    refine yields_bind.trans ?_
    simp only [step]
    constructor
    · rintro ⟨v, m₁, ⟨can, free, rfl⟩, later⟩
      rw [ih (by rw [grows]; exact free), grows] at later
      simp only [same] at later
      obtain ⟨⟨all, few⟩, rfl⟩ := later
      exact ⟨⟨⟨can, all⟩, by omega⟩, rfl⟩
    · rintro ⟨⟨⟨can, all⟩, few⟩, rfl⟩
      refine ⟨(), _, ⟨can, by omega, rfl⟩, ?_⟩
      rw [ih (by rw [grows]; omega), grows]
      simp only [same]
      exact ⟨⟨all, by omega⟩, trivial⟩

/-- A field is only added to a type that is there, and if a token can name it. -/
theorem yields_insertField {d : FieldDef} : Yields (discard (Edit.insertField d)) m u m' ↔
    (∃ owner, m.typeDefAt d.owner = .ok owner) ∧ m.fields.size < Edit.rowLimit ∧
      m' = { m with fields := m.fields.push d } := by
  refine yields_map.trans ?_
  unfold Edit.insertField
  simp only [yields_get_bind, yields_set_bind, yields_liftM_bind, yields_pure,
    Edit.tokenOf_eq_ok_iff]
  constructor
  · rintro ⟨_, ⟨owner, known, token, ⟨small, -⟩, -, rfl⟩, -⟩
    exact ⟨⟨owner, known⟩, small, rfl⟩
  · rintro ⟨⟨owner, known⟩, small, rfl⟩
    exact ⟨_, ⟨owner, known, _, ⟨small, rfl⟩, rfl, rfl⟩, trivial⟩

theorem yields_forM_insertField {rows : List FieldDef} (small : m.fields.size ≤ Edit.rowLimit) :
    Yields (rows.forM fun d => discard (Edit.insertField d)) m u m' ↔
      ((∀ d ∈ rows, ∃ owner, m.typeDefAt d.owner = .ok owner) ∧
        m.fields.size + rows.length ≤ Edit.rowLimit) ∧
          m' = { m with fields := m.fields ++ rows.toArray } := by
  have all (rows : List FieldDef) (m : Module) :
      rows.foldl (fun m d => { m with fields := m.fields.push d }) m =
        { m with fields := m.fields ++ rows.toArray } := by
    induction rows generalizing m with
    | nil => simp
    | cons d rest ih =>
      rw [List.foldl_cons, ih]
      simp
  rw [← all]
  exact yields_forM_limited (fun _ _ _ _ => yields_insertField) (fun _ _ _ => Iff.rfl)
    (fun _ _ => Array.size_push _) small

/-- A method is only added to a type that is there, and if a token can name it. -/
theorem yields_insertMethod {d : MethodDef} : Yields (discard (Edit.insertMethod d)) m u m' ↔
    (∃ owner, m.typeDefAt d.owner = .ok owner) ∧ m.methods.size < Edit.rowLimit ∧
      m' = { m with methods := m.methods.push d } := by
  refine yields_map.trans ?_
  unfold Edit.insertMethod
  simp only [yields_get_bind, yields_set_bind, yields_liftM_bind, yields_pure,
    Edit.tokenOf_eq_ok_iff]
  constructor
  · rintro ⟨_, ⟨owner, known, token, ⟨small, -⟩, -, rfl⟩, -⟩
    exact ⟨⟨owner, known⟩, small, rfl⟩
  · rintro ⟨⟨owner, known⟩, small, rfl⟩
    exact ⟨_, ⟨owner, known, _, ⟨small, rfl⟩, rfl, rfl⟩, trivial⟩

theorem yields_forM_insertMethod {rows : List MethodDef} (small : m.methods.size ≤ Edit.rowLimit) :
    Yields (rows.forM fun d => discard (Edit.insertMethod d)) m u m' ↔
      ((∀ d ∈ rows, ∃ owner, m.typeDefAt d.owner = .ok owner) ∧
        m.methods.size + rows.length ≤ Edit.rowLimit) ∧
          m' = { m with methods := m.methods ++ rows.toArray } := by
  have all (rows : List MethodDef) (m : Module) :
      rows.foldl (fun m d => { m with methods := m.methods.push d }) m =
        { m with methods := m.methods ++ rows.toArray } := by
    induction rows generalizing m with
    | nil => simp
    | cons d rest ih =>
      rw [List.foldl_cons, ih]
      simp
  rw [← all]
  exact yields_forM_limited (fun _ _ _ _ => yields_insertMethod) (fun _ _ _ => Iff.rfl)
    (fun _ _ => Array.size_push _) small

theorem yields_addFinished {token : Token} : Yields (Module.addFinished token) m u m' ↔
    (∃ d, m.methodDefAt token = .ok d) ∧
      m' = { m with finished := Edit.insertToken token m.finished } := by
  unfold Module.addFinished Edit.markFinished
  simp only [yields_get_bind, yields_liftM_bind, yields_modify]
  constructor
  · rintro ⟨d, known, rfl⟩
    exact ⟨⟨d, known⟩, rfl⟩
  · rintro ⟨⟨d, known⟩, rfl⟩
    exact ⟨d, known, rfl⟩

theorem yields_forM_addFinished {tokens : List Token} :
    Yields (tokens.forM Module.addFinished) m u m' ↔
      (∀ token ∈ tokens, ∃ d, m.methodDefAt token = .ok d) ∧ m' = { m with
        finished := tokens.foldl (fun list token => Edit.insertToken token list) m.finished } := by
  induction tokens generalizing m with
  | nil =>
    refine yields_pure.trans ?_
    simp [eq_comm]
  | cons token rest ih =>
    rw [List.forall_mem_cons, List.foldl_cons]
    refine yields_bind.trans ?_
    simp only [yields_addFinished, ih]
    constructor
    · rintro ⟨v, m₁, ⟨known, rfl⟩, all, rfl⟩
      exact ⟨⟨known, all⟩, rfl⟩
    · rintro ⟨⟨known, all⟩, rfl⟩
      exact ⟨(), _, ⟨known, rfl⟩, all, rfl⟩

end Changes

section Symbols

variable {m m' : Module}

/-- What is kept of a body. -/
def Body.reloaded (b : Body) : Body := { b.stored with points := b.points.map .stored }

/-- What is kept of a method definition. -/
def MethodDef.reloaded (d : MethodDef) : MethodDef := { d.stored with body := d.body.map .reloaded }

/-- The sequence points of a method that has any. -/
def MethodDef.points? (d : MethodDef) : Option SequencePoints :=
  d.body.bind fun body => if body.points.isEmpty then none else some body.points

/-- The sequence points of methods, of which the first has the given place in its table. -/
def symbolsFrom : (index : Nat) → List MethodDef → List (Token × SequencePoints)
  | _, [] => []
  | index, d :: rest =>
    match d.points? with
    | some points => (Module.tokenAt .methodDef index, points) :: symbolsFrom (index + 1) rest
    | none => symbolsFrom (index + 1) rest

theorem Module.symbols_eq (m : Module) : m.symbols = symbolsFrom 0 m.methods.toList := by
  unfold symbols methodsWithTokens withTokens
  generalize m.methods.toList = methods
  generalize 0 = index
  induction methods generalizing index with
  | nil => rfl
  | cons d rest ih =>
    rw [List.zipIdx_cons, List.map_cons, List.filterMap_cons, ih, symbolsFrom, MethodDef.points?]
    cases hasBody : d.body with
    | none => simp [hasBody]
    | some body => cases points : body.points <;> simp [hasBody, points]

theorem MethodDef.reloaded_of_points?_eq_none {d : MethodDef} (h : d.points? = none) :
    d.reloaded = d.stored := by
  unfold MethodDef.reloaded MethodDef.stored
  cases hasBody : d.body with
  | none => rfl
  | some body =>
    have none : body.points = [] := by
      rw [MethodDef.points?, hasBody, Option.bind_some] at h
      split at h
      case isTrue none => exact List.isEmpty_iff.mp none
      case isFalse => cases h
    simp [Body.reloaded, Body.stored, none]

/-- A method gets its sequence points back. -/
theorem yields_addSymbols {d : MethodDef} {points : SequencePoints} {token : Token} {u : Unit}
    (found : m.methodDefAt token = .ok d.stored) (some : d.points? = some points) :
    Yields (Module.addSymbols (token, points.map .stored)) m u m' ↔
      m' = { m with methods := m.methods.setIfInBounds (token.row - 1) d.reloaded } := by
  obtain ⟨body, hasBody, rfl⟩ : ∃ body, d.body = .some body ∧ points = body.points := by
    obtain ⟨body, hasBody, some⟩ := Option.bind_eq_some_iff.mp some
    split at some
    case isTrue => cases some
    case isFalse => exact ⟨body, hasBody, (Option.some.inj some).symm⟩
  have whole : { d.stored with body := .some { body.stored with points := body.points.map .stored } } =
      d.reloaded := by
    rw [MethodDef.reloaded, hasBody]
    rfl
  have stored : d.stored.body = .some body.stored := by
    rw [MethodDef.stored, hasBody]
    rfl
  unfold Module.addSymbols Edit.setMethod
  rw [yields_get_bind, found]
  refine yields_liftM_bind.trans ?_
  simp only [Except.ok.injEq, exists_eq_left', stored, yields_get_bind, found, yields_liftM_bind,
    yields_set, whole]
  exact eq_comm

/-- Methods get their sequence points back one after the other. -/
theorem yields_forM_addSymbols {u : Unit} {front back : List MethodDef}
    (methods : m.methods = (front.map MethodDef.reloaded ++ back.map MethodDef.stored).toArray)
    (small : m.methods.size ≤ Edit.rowLimit) :
    Yields (((symbolsFrom front.length back).map fun symbols =>
        (symbols.1, symbols.2.map SequencePoint.stored)).forM Module.addSymbols) m u m' ↔
      m' = { m with methods := ((front ++ back).map MethodDef.reloaded).toArray } := by
  -- The methods in front have their points back already; the invariant is the form of the table.
  induction back generalizing m front with
  | nil =>
    refine yields_pure.trans ?_
    simp only [List.map_nil, List.append_nil] at methods ⊢
    rw [← methods]
    simp [eq_comm]
  | cons d rest ih =>
    -- The method joins those that have their points.
    have shift : front ++ d :: rest = (front ++ [d]) ++ rest := by simp
    have length : (front ++ [d]).length = front.length + 1 := by simp
    have entry : m.methods[front.length]? = some d.stored := by simp [methods]
    rw [symbolsFrom, shift, ← length]
    cases points : d.points? with
    | none =>
      refine ih ?_ small
      rw [methods, List.map_append, List.map_singleton,
        MethodDef.reloaded_of_points?_eq_none points, List.append_assoc]
      rfl
    | some points =>
      have bound : front.length < Edit.rowLimit := by
        obtain ⟨inside, -⟩ := Array.getElem?_eq_some_iff.mp entry
        exact Nat.lt_of_lt_of_le inside small
      have next : (m.methods.setIfInBounds front.length d.reloaded) =
          ((front ++ [d]).map MethodDef.reloaded ++ rest.map MethodDef.stored).toArray := by
        simp [methods]
      have later := ih (m := { m with methods := m.methods.setIfInBounds front.length d.reloaded })
        next (by rwa [Array.size_setIfInBounds])
      refine yields_bind.trans ?_
      simp only [yields_addSymbols (Module.row_tokenAt bound entry) points, Token.row_tokenAt bound,
        Nat.add_sub_cancel]
      constructor
      · rintro ⟨v, m₁, rfl, yields⟩
        exact later.mp yields
      · intro same
        exact ⟨(), _, rfl, later.mpr same⟩

end Symbols

end Interpose
