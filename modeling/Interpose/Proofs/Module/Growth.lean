import Interpose.Machine.Dispatch
import Interpose.Proofs.Module.Resolution

/-!
# Modules that grow

Weaving adds rows to the tables of a module and gives methods other bodies.  What a token stood for
before, it stands for afterwards, and what is declared stays declared.

## Main definitions

* `Module.Extends` — a module has more references and composed types than another
* `Module.Grows` — in addition, its methods may have other bodies, and more of them may be finished
* `Edit.intern` — adding a row to a table that keeps every row once

## Main results

* `Module.Grows.methodAt`, `Module.Grows.typeAt` — tokens keep their meaning
* `Module.Grows.definedMethod`, `Module.Grows.implementation?` — declarations stay
* `Edit.intern_cases` — a row is found where it is, or it goes to the end
* `yields_insertMemberRef`, `yields_insertTypeSpec`, `typeAt_of_tokenOfType` — what new
  tokens stand for
-/

namespace Interpose

/-- The definition of a method without its body. -/
def MethodDef.header (d : MethodDef) : MethodDef := { d with body := none }

namespace Module

/-- A module has more references and composed types than another, and is the same otherwise. -/
structure Extends (m m' : Module) : Prop where
  memberRefs : m.memberRefs.toList <+: m'.memberRefs.toList
  typeSpecs : m.typeSpecs.toList <+: m'.typeSpecs.toList
  others : m' = { m with memberRefs := m'.memberRefs, typeSpecs := m'.typeSpecs }

/-- A module has more references and composed types than another, and the same declarations. -/
structure Grows (m m' : Module) : Prop where
  versionId : m'.versionId = m.versionId
  types : m'.types = m.types
  fields : m'.fields = m.fields
  methodSpecs : m'.methodSpecs = m.methodSpecs
  userStrings : m'.userStrings = m.userStrings
  memberRefs : m.memberRefs.toList <+: m'.memberRefs.toList
  typeSpecs : m.typeSpecs.toList <+: m'.typeSpecs.toList
  headers : m'.methods.map MethodDef.header = m.methods.map MethodDef.header

variable {m m' m'' : Module} {token : Token}

namespace Extends

theorem refl (m : Module) : m.Extends m := ⟨List.prefix_refl _, List.prefix_refl _, rfl⟩

theorem trans (h : m.Extends m') (h' : m'.Extends m'') : m.Extends m'' := by
  refine ⟨h.memberRefs.trans h'.memberRefs, h.typeSpecs.trans h'.typeSpecs, ?_⟩
  rw [h'.others, h.others]

theorem methods (h : m.Extends m') : m'.methods = m.methods := by rw [h.others]

theorem methodDefAt (h : m.Extends m') : m'.methodDefAt token = m.methodDefAt token := by
  rw [Module.methodDefAt, Module.methodDefAt, h.methods]

theorem types (h : m.Extends m') : m'.types = m.types := by rw [h.others]

theorem finished (h : m.Extends m') : m'.finished = m.finished := by rw [h.others]

theorem grows (h : m.Extends m') : m.Grows m' where
  versionId := by rw [h.others]
  types := h.types
  fields := by rw [h.others]
  methodSpecs := by rw [h.others]
  userStrings := by rw [h.others]
  memberRefs := h.memberRefs
  typeSpecs := h.typeSpecs
  headers := by rw [h.methods]

end Extends

namespace Grows

theorem refl (m : Module) : m.Grows m := (Extends.refl m).grows

theorem trans (h : m.Grows m') (h' : m'.Grows m'') : m.Grows m'' where
  versionId := h'.versionId.trans h.versionId
  types := h'.types.trans h.types
  fields := h'.fields.trans h.fields
  methodSpecs := h'.methodSpecs.trans h.methodSpecs
  userStrings := h'.userStrings.trans h.userStrings
  memberRefs := h.memberRefs.trans h'.memberRefs
  typeSpecs := h.typeSpecs.trans h'.typeSpecs
  headers := h'.headers.trans h.headers

theorem typeDefAt (h : m.Grows m') : m'.typeDefAt token = m.typeDefAt token := by
  rw [Module.typeDefAt, Module.typeDefAt, h.types]

theorem fieldDefAt (h : m.Grows m') : m'.fieldDefAt token = m.fieldDefAt token := by
  rw [Module.fieldDefAt, Module.fieldDefAt, h.fields]

theorem stringAt (h : m.Grows m') : m'.stringAt token = m.stringAt token := by
  rw [Module.stringAt, Module.stringAt, h.userStrings]

theorem methodSpecAt (h : m.Grows m') : m'.methodSpecAt token = m.methodSpecAt token := by
  rw [Module.methodSpecAt, Module.methodSpecAt, h.methodSpecs]

theorem memberRefAt (h : m.Grows m') {r : MemberRef} (known : m.memberRefAt token = .ok r) :
    m'.memberRefAt token = .ok r :=
  row_of_prefix h.memberRefs known

theorem typeToken? (h : m.Grows m') (name : String) : m'.typeToken? name = m.typeToken? name := by
  rw [Module.typeToken?, Module.typeToken?, h.types]

theorem typeNamed? (h : m.Grows m') (name : String) : m'.typeNamed? name = m.typeNamed? name := by
  rw [Module.typeNamed?, Module.typeNamed?, h.types]

theorem baseOf (h : m.Grows m') (type : Ty) : m'.baseOf type = m.baseOf type := by
  simp only [Module.baseOf, h.typeNamed?]

theorem hierarchy (h : m.Grows m') : m'.hierarchy = m.hierarchy := by
  have interfaces (type : Ty) : m'.interfacesOf type = m.interfacesOf type := by
    rw [Module.interfacesOf, Module.interfacesOf, h.typeNamed?]
  rw [Module.hierarchy, Module.hierarchy, funext h.baseOf, funext interfaces]

/-- The headers of methods decide what methods they are. -/
theorem header_methodDefAt (h : m.Grows m') :
    MethodDef.header <$> m'.methodDefAt token = MethodDef.header <$> m.methodDefAt token := by
  rw [Module.methodDefAt, Module.methodDefAt, ← row_map, ← row_map, h.headers]

theorem definedMethod (h : m.Grows m') : m'.definedMethod token = m.definedMethod token := by
  have strip (m : Module) : m.definedMethod token = (do
      let d ← MethodDef.header <$> m.methodDefAt token
      return d.methodIn (← m.typeDefAt d.owner)) := by
    unfold Module.definedMethod
    cases m.methodDefAt token <;> rfl
  rw [strip m', strip m, h.header_methodDefAt]
  simp only [h.typeDefAt]

theorem resolves (h : m.Grows m') : m.Resolves m' where
  definedMethod known := h.definedMethod.trans known
  memberRefAt := h.memberRefAt
  methodSpecAt known := h.methodSpecAt.trans known

/-- Tokens of methods keep their meaning. -/
theorem methodAt (h : m.Grows m') {method : Method} (known : m.methodAt token = .ok method) :
    m'.methodAt token = .ok method :=
  h.resolves.methodAt known

/-- Tokens of types keep their meaning. -/
theorem typeAt (h : m.Grows m') {type : Ty} (known : m.typeAt token = .ok type) :
    m'.typeAt token = .ok type := by
  refine typeAt_eq_ok_iff.mpr ?_
  rcases typeAt_eq_ok_iff.mp known with ⟨d, found, same⟩ | found
  · exact .inl ⟨d, h.typeDefAt.trans found, same⟩
  · exact .inr <| row_of_prefix h.typeSpecs found

/-- The choice between the definitions that come into question for a method. -/
private def onlyOrSame (type : Ty) (method : Method) : List (Token × MethodDef) → Option Token
  | [(token, _)] => some token
  | candidates => (candidates.find? fun (_, d) => sameParameters type method d).map Prod.fst

private theorem onlyOrSame_map (type : Ty) (method : Method) (candidates : List (Token × MethodDef)) :
    onlyOrSame type method (candidates.map (Prod.map id MethodDef.header)) =
      onlyOrSame type method candidates := by
  rcases candidates with _ | ⟨first, _ | ⟨second, rest⟩⟩
  · rfl
  · rfl
  · let same (entry : Token × MethodDef) : Bool := sameParameters type method entry.2
    change (((first :: second :: rest).map (Prod.map id MethodDef.header)).find? same).map Prod.fst =
      ((first :: second :: rest).find? same).map Prod.fst
    rw [List.find?_map, Option.map_map]
    rfl

/-- The definitions with their tokens, without their bodies. -/
theorem headers_withTokens (h : m.Grows m') :
    m'.methodsWithTokens.map (Prod.map id MethodDef.header) =
      m.methodsWithTokens.map (Prod.map id MethodDef.header) := by
  have strip (m : Module) : m.methodsWithTokens.map (Prod.map id MethodDef.header) =
      withTokens .methodDef (m.methods.map MethodDef.header) := by
    simp [methodsWithTokens, withTokens, List.zipIdx_map, Function.comp_def]
  rw [strip, strip, h.headers]

theorem definitionOn? (h : m.Grows m') (method : Method) (type : Ty) :
    m'.definitionOn? method type = m.definitionOn? method type := by
  have strip (m : Module) : m.definitionOn? method type = (m.typeToken? type.typeName).bind
      fun owner => onlyOrSame type method ((m.methodsWithTokens.map
        (Prod.map id MethodDef.header)).filter fun (_, d) => resembles owner method d) := by
    refine Option.bind_congr fun owner _ => ?_
    rw [List.filter_map, onlyOrSame_map]
    rfl
  rw [strip m', strip m, h.headers_withTokens, h.typeToken?]

/-- The search for the definition of a method ends in the same place. -/
theorem implementation? (h : m.Grows m') (method : Method) (fuel : Nat) (type : Ty) :
    m'.implementation? method fuel type = m.implementation? method fuel type := by
  induction fuel generalizing type with
  | zero => rfl
  | succ fuel ih =>
    rw [Module.implementation?, Module.implementation?, h.definitionOn?, h.baseOf, funext ih]

end Grows

/-- The type that a token for a type stands for: that of the definition of its name, if there is
one. -/
def namedType (m : Module) (type : Ty) : Ty :=
  (((Edit.definedName? type).bind m.typeNamed?).map TypeDef.type).getD type

theorem Grows.namedType (h : m.Grows m') (type : Ty) : m'.namedType type = m.namedType type := by
  rw [Module.namedType, Module.namedType, funext h.typeNamed?]

/-- A type that is found by its name is the one that its token stands for. -/
theorem typeAt_of_typeToken? {name : String} (small : m.types.size ≤ Edit.rowLimit)
    (h : m.typeToken? name = some token) :
    ∃ d, m.typeNamed? name = some d ∧ m.typeAt token = .ok d.type := by
  unfold Module.typeToken? at h
  obtain ⟨index, found, rfl⟩ := Option.map_eq_some_iff.mp h
  obtain ⟨bound, holds, first⟩ := Array.findIdx?_eq_some_iff_getElem.mp found
  refine ⟨m.types[index], ?_, ?_⟩
  · exact Array.find?_eq_some_iff_getElem.mpr
      ⟨holds, index, bound, rfl, fun j before => by simpa using first j before⟩
  · have row : m.typeDefAt (tokenAt .typeDef index) = .ok m.types[index] :=
      row_tokenAt (by omega) (Array.getElem?_eq_getElem bound)
    exact typeAt_eq_ok_iff.mpr (.inl ⟨_, row, rfl⟩)

theorem typeToken?_eq_none_iff {name : String} :
    m.typeToken? name = none ↔ m.typeNamed? name = none := by
  rw [Module.typeToken?, Option.map_eq_none_iff, Array.findIdx?_eq_none_iff, Module.typeNamed?,
    Array.find?_eq_none]
  simp

end Module

namespace Edit

variable {m m' after : Module} {token : Token}

section Interning

variable {α : Type} [DecidableEq α] {id : Table} {table : Array α} {size : Nat} {a : α}

/-- Goes on in a module that has one more row in a table, of which the size is given. -/
def pushRow (id : Table) (size : Nat) (after : Module) : Edit Token := do
  let token ← tokenOf id size
  set after
  return token

/-- Adds a row to a table that keeps every row once. -/
def intern (id : Table) (table : Array α) (after : Module) (a : α) : Edit Token :=
  match table.findIdx? (· = a) with
  | some index => tokenOf id index
  | none => pushRow id table.size after

theorem yields_pushRow : Yields (pushRow id size after) m token m' ↔
    size < rowLimit ∧ Module.tokenAt id size = token ∧ after = m' := by
  unfold pushRow
  simp only [yields_liftM_bind, yields_set_bind, yields_pure, tokenOf_eq_ok_iff]
  constructor
  · rintro ⟨_, ⟨small, rfl⟩, rfl, rfl⟩
    exact ⟨small, rfl, rfl⟩
  · rintro ⟨small, rfl, rfl⟩
    exact ⟨_, ⟨small, rfl⟩, rfl, rfl⟩

/-- A row that is kept once is found where it is, or it is not there and goes to the end. -/
theorem intern_cases (h : Yields (intern id table after a) m token m') :
    (∃ index, table[index]? = some a ∧ index < rowLimit ∧ Module.tokenAt id index = token ∧ m = m') ∨
      a ∉ table.toList ∧ table.size < rowLimit ∧ Module.tokenAt id table.size = token ∧ after = m' := by
  unfold intern at h
  split at h
  case h_1 index found =>
    left
    obtain ⟨limit, same⟩ := yields_liftM.mp h
    obtain ⟨small, named⟩ := tokenOf_eq_ok_iff.mp limit
    obtain ⟨bound, holds, -⟩ := Array.findIdx?_eq_some_iff_getElem.mp found
    refine ⟨index, ?_, small, named, same⟩
    rw [Array.getElem?_eq_getElem bound, of_decide_eq_true holds]
  case h_2 missing =>
    right
    refine ⟨fun member => ?_, yields_pushRow.mp h⟩
    have differs := Array.findIdx?_eq_none_iff.mp missing a (Array.mem_toList_iff.mp member)
    exact of_decide_eq_false differs rfl

end Interning

theorem insertMemberRef_cases {r : MemberRef} (h : Yields (insertMemberRef r) m token m') :
    (∃ index, m.memberRefs[index]? = some r ∧ index < rowLimit ∧
      Module.tokenAt .memberRef index = token ∧ m = m') ∨
      r ∉ m.memberRefs.toList ∧ m.memberRefs.size < rowLimit ∧
        Module.tokenAt .memberRef m.memberRefs.size = token ∧
          { m with memberRefs := m.memberRefs.push r } = m' :=
  intern_cases h

theorem insertTypeSpec_cases {type : Ty} (h : Yields (insertTypeSpec type) m token m') :
    (∃ index, m.typeSpecs[index]? = some type ∧ index < rowLimit ∧
      Module.tokenAt .typeSpec index = token ∧ m = m') ∨
      type ∉ m.typeSpecs.toList ∧ m.typeSpecs.size < rowLimit ∧
        Module.tokenAt .typeSpec m.typeSpecs.size = token ∧
          { m with typeSpecs := m.typeSpecs.push type } = m' :=
  intern_cases h

end Edit

section Insertion

variable {m m' : Module} {token : Token}

/-- A reference that is added is there afterwards, and so is all that was there before. -/
theorem yields_insertMemberRef {r : MemberRef} (h : Yields (Edit.insertMemberRef r) m token m') :
    m.Extends m' ∧ m'.memberRefAt token = .ok r := by
  rcases Edit.insertMemberRef_cases h with ⟨index, found, small, rfl, rfl⟩ | ⟨-, small, rfl, rfl⟩
  · exact ⟨.refl m, Module.row_tokenAt small found⟩
  · exact ⟨⟨by simp, List.prefix_refl _, rfl⟩, Module.row_tokenAt small (by simp)⟩

/-- A type that is added is there afterwards, and so is all that was there before. -/
theorem yields_insertTypeSpec {type : Ty} (h : Yields (Edit.insertTypeSpec type) m token m') :
    m.Extends m' ∧ m'.typeAt token = .ok type := by
  have row {m : Module} {index : Nat} (small : index < Edit.rowLimit)
      (known : m.typeSpecs[index]? = some type) :
      m.typeAt (Module.tokenAt .typeSpec index) = .ok type :=
    Module.typeAt_eq_ok_iff.mpr (.inr (Module.row_tokenAt small known))
  rcases Edit.insertTypeSpec_cases h with ⟨index, found, small, rfl, rfl⟩ | ⟨-, small, rfl, rfl⟩
  · exact ⟨.refl m, row small found⟩
  · exact ⟨⟨List.prefix_refl _, by simp, rfl⟩, row small (by simp)⟩

/-- Asking for the token of a type changes nothing but that the type may be added. -/
theorem extends_of_tokenOfType {type : Ty} (h : Yields (Edit.tokenOfType type) m token m') :
    m.Extends m' := by
  unfold Edit.tokenOfType at h
  rw [yields_get_bind] at h
  split at h
  case h_1 =>
    obtain ⟨-, rfl⟩ := yields_pure.mp h
    exact .refl m
  case h_2 => exact (yields_insertTypeSpec h).1

/-- The token of a type stands for the type that goes by its name. -/
theorem typeAt_of_tokenOfType {type : Ty} (small : m.types.size ≤ Edit.rowLimit)
    (h : Yields (Edit.tokenOfType type) m token m') :
    m'.typeAt token = .ok (m.namedType type) := by
  unfold Edit.tokenOfType at h
  rw [yields_get_bind] at h
  split at h
  case h_1 token found =>
    obtain ⟨rfl, rfl⟩ := yields_pure.mp h
    obtain ⟨name, defined, known⟩ := Option.bind_eq_some_iff.mp found
    obtain ⟨d, named, stands⟩ := Module.typeAt_of_typeToken? small known
    rw [stands, Module.namedType, defined, Option.bind_some, named]
    rfl
  case h_2 none =>
    have unnamed : (Edit.definedName? type).bind m.typeNamed? = .none := by
      rw [Option.bind_eq_none_iff] at none ⊢
      exact fun name defined => Module.typeToken?_eq_none_iff.mp (none name defined)
    rw [(yields_insertTypeSpec h).2, Module.namedType, unnamed]
    rfl

end Insertion

section Bodies

variable {m m' : Module} {token other : Token} {d : MethodDef} {body : Option Body} {u : Unit}

/-- What giving a method another body does. -/
theorem yields_setBody : Yields (Edit.setBody token body) m u m' ↔
    ∃ d, m.methodDefAt token = .ok d ∧
      { m with methods := m.methods.setIfInBounds (token.row - 1) { d with body } } = m' := by
  unfold Edit.setBody Edit.setMethod
  simp only [yields_get_bind, yields_liftM_bind, yields_set]
  constructor
  · rintro ⟨d, found, _, -, rfl⟩
    exact ⟨d, found, rfl⟩
  · rintro ⟨d, found, rfl⟩
    exact ⟨d, found, d, found, rfl⟩

theorem methodDefAt_eq_ok_iff : m.methodDefAt token = .ok d ↔ token.isIn .methodDef = true ∧
    0 < token.row ∧ m.methods[token.row - 1]? = some d := by
  rw [Module.methodDefAt, Module.row_eq_ok_iff]
  unfold Token.index?
  constructor
  · rintro ⟨inside, index, found, entry⟩
    split at found <;> cases found
    exact ⟨inside, Nat.pos_of_ne_zero ‹_›, entry⟩
  · rintro ⟨inside, positive, entry⟩
    exact ⟨inside, token.row - 1, if_neg (Nat.ne_of_gt positive), entry⟩

/-- The method has its new body. -/
theorem methodDefAt_of_setBody (found : m.methodDefAt token = .ok d)
    (h : Yields (Edit.setBody token body) m u m') :
    m'.methodDefAt token = .ok { d with body } := by
  obtain ⟨d', found', rfl⟩ := yields_setBody.mp h
  rw [found, Except.ok.injEq] at found'
  subst found'
  obtain ⟨inside, positive, entry⟩ := methodDefAt_eq_ok_iff.mp found
  obtain ⟨bound, -⟩ := Array.getElem?_eq_some_iff.mp entry
  refine methodDefAt_eq_ok_iff.mpr ⟨inside, positive, ?_⟩
  rw [Array.getElem?_setIfInBounds_self_of_lt bound]

/-- All other methods keep their bodies. -/
theorem methodDefAt_of_ne (h : Yields (Edit.setBody token body) m u m') (ne : other ≠ token) :
    m'.methodDefAt other = m.methodDefAt other := by
  obtain ⟨d, found, rfl⟩ := yields_setBody.mp h
  obtain ⟨inside, positive, -⟩ := methodDefAt_eq_ok_iff.mp found
  unfold Module.methodDefAt Module.row
  cases named : other.isIn .methodDef with
  | false => rfl
  | true =>
    unfold Token.index?
    by_cases none : other.row = 0
    · rw [if_pos none]
      rfl
    · have apart : token.row - 1 ≠ other.row - 1 := by
        intro same
        apply ne
        rw [Token.eq_tokenAt named (Nat.pos_of_ne_zero none), Token.eq_tokenAt inside positive, same]
      simp [none, Array.getElem?_setIfInBounds_ne apart]

/-- Giving a method another body changes no declaration. -/
theorem grows_of_setBody (h : Yields (Edit.setBody token body) m u m') : m.Grows m' := by
  obtain ⟨d, found, rfl⟩ := yields_setBody.mp h
  obtain ⟨-, -, entry⟩ := methodDefAt_eq_ok_iff.mp found
  refine ⟨rfl, rfl, rfl, rfl, rfl, List.prefix_refl _, List.prefix_refl _, ?_⟩
  refine Array.ext_getElem? fun index => ?_
  rw [Array.getElem?_map, Array.getElem?_map, Array.getElem?_setIfInBounds]
  split
  case isTrue same =>
    subst same
    obtain ⟨bound, -⟩ := Array.getElem?_eq_some_iff.mp entry
    rw [entry, if_pos bound]
    rfl
  case isFalse => rfl

end Bodies

end Interpose
