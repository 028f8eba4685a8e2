import Interpose.Proofs.Module.Finished
import Interpose.Proofs.Weaving.CallSites
import Interpose.Proofs.Weaving.Keeping

/-!
# What a pass touches

A pass gives other bodies to the methods that it finds calls in, refers to intrinsics and types behind
the references and types that were there, and marks the methods that may be woven.  All else stays, and
the summary tells how much was done.

Tokens keep their meaning, with one exception.  An instantiation may be added before the reference
that it instantiates; as long as this is missing the token stands for nothing, and once a pass adds
references it may stand for an intrinsic.

## Main definitions

* `Module.Has`, `Module.Dangles` — what there is behind a token
* `Module.KeepsRow` — the row of a token is as it was
* `MethodDef.siteCount` — the number of instructions of a method that are intercepted
* `Module.eligible`, `Module.rewritten` — the methods that may be woven, and those that have been
* `PassEffect` — what a pass does to a module

## Main results

* `Module.Grows.methodAt_eq` — which tokens stand for the same method in a module that has grown
* `visits_of_weavePending` — which methods get other bodies, and how they are counted
* `bodyAt_ne_of_weavePass` — a pass makes other bodies for just these methods
* `effect_of_weavePass` — a pass touches nothing else
* `not_forall_methodAt_weavePass` — an instantiation of a missing reference comes to stand for a method
-/

namespace Interpose

namespace Module

/-- The number of rows of a table. -/
def rowCount (m : Module) : Table → Nat
  | .typeDef => m.types.size
  | .field => m.fields.size
  | .methodDef => m.methods.size
  | .memberRef => m.memberRefs.size
  | .typeSpec => m.typeSpecs.size
  | .methodSpec => m.methodSpecs.size
  | .userString => m.userStrings.size

/-- The row that a token names is there. -/
def Has (m : Module) (token : Token) : Prop :=
  ∃ id, token.table? = some id ∧ 0 < token.row ∧ token.row ≤ m.rowCount id

/-- A token names an instantiation of a reference that is missing. -/
def Dangles (m : Module) (token : Token) : Prop :=
  ∃ spec, m.methodSpecAt token = .ok spec ∧ spec.method.isIn .memberRef = true ∧
    m.memberRefs.size < spec.method.row

/-- What a token names is as it was, up to the bodies of methods. -/
structure KeepsRow (m m' : Module) (token : Token) : Prop where
  typeDefAt : m'.typeDefAt token = m.typeDefAt token
  fieldDefAt : m'.fieldDefAt token = m.fieldDefAt token
  methodDefAt : MethodDef.header <$> m'.methodDefAt token = MethodDef.header <$> m.methodDefAt token
  memberRefAt : m'.memberRefAt token = m.memberRefAt token
  methodSpecAt : m'.methodSpecAt token = m.methodSpecAt token
  stringAt : m'.stringAt token = m.stringAt token
  typeAt : m'.typeAt token = m.typeAt token

end Module

section Tokens

variable {m m' : Module} {token : Token} {id : Table}

theorem Module.Has.row_le (h : m.Has token) (inside : token.isIn id = true) :
    token.row ≤ m.rowCount id := by
  obtain ⟨id', known, -, bound⟩ := h
  rw [Token.table?_of_isIn inside, Option.some.injEq] at known
  exact known ▸ bound

/-- A longer table is the same for a token that does not name one of the rows that it has more. -/
theorem Module.row_eq_of_prefix {α : Type} {table table' : Array α}
    (longer : table.toList <+: table'.toList)
    (bound : token.isIn id = true → token.row ≤ table.size) :
    row table' id token = row table id token := by
  unfold row
  cases inside : token.isIn id with
  | false => rfl
  | true =>
    have same : token.index?.bind (table'[·]?) = token.index?.bind (table[·]?) := by
      have bound := bound inside
      unfold Token.index?
      by_cases none : token.row = 0
      · rw [if_pos none]
        rfl
      · obtain ⟨tail, same⟩ := longer
        have before : token.row - 1 < table.toList.length := by
          rw [Array.length_toList]
          omega
        rw [if_neg none, Option.bind_some, Option.bind_some, ← Array.getElem?_toList,
          ← Array.getElem?_toList, ← same, List.getElem?_append_left before]
    rw [same]

namespace Module.Grows

theorem keepsRow (h : m.Grows m') (has : m.Has token) : m.KeepsRow m' token where
  typeDefAt := h.typeDefAt
  fieldDefAt := h.fieldDefAt
  methodDefAt := h.header_methodDefAt
  memberRefAt := row_eq_of_prefix h.memberRefs has.row_le
  methodSpecAt := h.methodSpecAt
  stringAt := h.stringAt
  typeAt := by
    have specs : row m'.typeSpecs .typeSpec token = row m.typeSpecs .typeSpec token :=
      row_eq_of_prefix h.typeSpecs has.row_le
    unfold Module.typeAt
    rw [h.typeDefAt, specs]

theorem genericMethodAt_eq (h : m.Grows m')
    (bound : token.isIn .memberRef = true → token.row ≤ m.memberRefs.size) :
    m'.genericMethodAt token = m.genericMethodAt token := by
  have refs : m'.memberRefAt token = m.memberRefAt token := row_eq_of_prefix h.memberRefs bound
  unfold Module.genericMethodAt
  rw [h.definedMethod, refs]

/-- A token that is there stands for the same method, unless it dangles. -/
theorem methodAt_eq (h : m.Grows m') (has : m.Has token) (whole : ¬ m.Dangles token) :
    m'.methodAt token = m.methodAt token := by
  unfold Module.methodAt
  rw [h.genericMethodAt_eq has.row_le, h.methodSpecAt]
  split
  case h_1 =>
    cases found : m.methodSpecAt token with
    | error e => rfl
    | ok spec =>
      have bound (inside : spec.method.isIn .memberRef = true) :
          spec.method.row ≤ m.memberRefs.size :=
        Nat.le_of_not_lt fun beyond => whole ⟨spec, found, inside, beyond⟩
      dsimp only [bind, Except.bind]
      rw [h.genericMethodAt_eq bound]
  case h_2 => rfl

/-- A token that dangled stands for nothing, or for one of the methods that are referred to now. -/
theorem exists_memberRef_of_dangles (h : m.Grows m') (dangles : m.Dangles token) {method : Method}
    (stands : m'.methodAt token = .ok method) : ∃ r index arguments, m.memberRefs.size ≤ index ∧
      m'.memberRefs[index]? = some r ∧ r.method.genericArity.toNat = arguments.length ∧
      method = r.method.instantiate arguments := by
  obtain ⟨spec, found, inside, beyond⟩ := dangles
  rcases methodAt_eq_ok_iff.mp stands with declared | ⟨spec', generic, found', known, arity, rfl⟩
  · exact absurd (table?_of_row found) (table?_ne_methodSpec declared)
  obtain rfl := Except.ok.inj (found.symm.trans (h.methodSpecAt.symm.trans found'))
  rcases genericMethodAt_eq_ok_iff.mp known with defined | ⟨r, row, rfl⟩
  · cases (Token.table?_of_isIn inside).symm.trans (table?_of_definedMethod defined)
  obtain ⟨-, index, named, entry⟩ := row_eq_ok_iff.mp row
  refine ⟨r, index, spec.instantiation, ?_, entry, arity, rfl⟩
  unfold Token.index? at named
  split at named
  case isTrue => cases named
  case isFalse =>
    cases named
    omega

end Module.Grows

/-- An instruction is looked at as before if the token in it stands for the same. -/
theorem CallSite.at?_congr {o : WeavePolicy} {i : Instruction}
    (same : ∀ token, i.token? = some token → m'.methodAt token = m.methodAt token) :
    CallSite.at? m' o i = CallSite.at? m o i := by
  unfold CallSite.at?
  cases known : i.token? with
  | none => rfl
  | some token =>
    dsimp only
    rw [same token known]

end Tokens

/-- The body of a method, if it is there and has one. -/
def Module.bodyAt (m : Module) (token : Token) : Option Body :=
  (m.methodDefAt token).toOption.bind MethodDef.body

/-- Whether an instruction is intercepted. -/
def Module.intercepts (m : Module) (o : WeavePolicy) (i : Instruction) : Bool :=
  (CallSite.at? m o i).toOption.join.isSome

/-- The instructions of a method. -/
def MethodDef.instructions (d : MethodDef) : List Instruction :=
  (d.body.bind fun body => (decodeCode body.code).toOption).getD []

/-- The number of instructions of a method that are intercepted. -/
def MethodDef.siteCount (d : MethodDef) (m : Module) (o : WeavePolicy) : Nat :=
  d.instructions.countP (m.intercepts o)

/-- The methods that have another body in another module. -/
def Module.rewritten (m m' : Module) : List (Token × MethodDef) :=
  m.methodsWithTokens.filter fun entry => m'.bodyAt entry.1 ≠ entry.2.body

section Methods

variable {m m' m'' : Module} {o : WeavePolicy} {known : Option Imports} {token : Token}
  {d : MethodDef} {count : Nat}

theorem Module.bodyAt_of_methodDefAt (h : m.methodDefAt token = .ok d) : m.bodyAt token = d.body := by
  rw [bodyAt, h]
  rfl

theorem MethodDef.instructions_of_decodeCode {body : Body} {instructions : List Instruction}
    (hasBody : d.body = some body) (decoded : decodeCode body.code = .ok instructions) :
    d.instructions = instructions := by
  rw [MethodDef.instructions, hasBody, Option.bind_some, decoded]
  rfl

/-- Call sites that were found are counted. -/
theorem countP_intercepts {entries : List (Instruction × Option CallSite)}
    (looked : ∀ entry ∈ entries, CallSite.at? m o entry.1 = .ok entry.2) :
    (entries.map Prod.fst).countP (m.intercepts o) = (entries.filterMap Prod.snd).length := by
  induction entries with
  | nil => rfl
  | cons entry rest ih =>
    obtain ⟨here, later⟩ := List.forall_mem_cons.mp looked
    have intercepts : m.intercepts o entry.1 = entry.2.isSome := by
      rw [Module.intercepts, here]
      rfl
    rw [List.map_cons, List.countP_cons, ih later, intercepts, List.filterMap_cons]
    cases entry.2 <;> rfl

/-- What is counted is the number of call sites, and the method gets another body just if there
are some. -/
theorem tally_of_interceptCalls (h : Yields (interceptCalls o known token) m count m')
    (found : m.methodDefAt token = .ok d) :
    (∀ m'', m.Grows m'' → count = d.siteCount m'' o) ∧ (m'.bodyAt token ≠ d.body ↔ 0 < count) := by
  obtain ⟨d', found', change⟩ := weave_of_interceptCalls h
  obtain rfl := Except.ok.inj (found'.symm.trans found)
  rcases change with ⟨rfl, rfl, none⟩ | ⟨body, imports, woven, m₁, hasBody, -, grown, set, w, looked,
    counted, some⟩
  · refine ⟨fun m'' grows => Eq.symm (List.countP_eq_zero.mpr fun i member => ?_), ?_⟩
    · cases hasBody : d'.body with
      | none => simp [MethodDef.instructions, hasBody] at member
      | some body =>
        obtain ⟨instructions, decoded, all⟩ := none body hasBody
        rw [MethodDef.instructions_of_decodeCode hasBody decoded] at member
        simp [Module.intercepts, CallSite.at?_grows (all i member) grows, Except.toOption]
    · rw [Module.bodyAt_of_methodDefAt found]
      exact iff_of_false (not_not_intro rfl) (Nat.lt_irrefl 0)
  · have kept : m₁.methodDefAt token = .ok d' := grown.methodDefAt.trans found'
    refine ⟨fun m'' grows => ?_, iff_of_true ?_ some⟩
    · rw [counted, MethodDef.siteCount, MethodDef.instructions_of_decodeCode hasBody w.decoded,
        countP_intercepts fun entry member => CallSite.at?_grows (looked entry member) grows]
    · rw [Module.bodyAt_of_methodDefAt (methodDefAt_of_setBody kept set), hasBody]
      -- The woven body has one more local variable at least, which holds the call map.
      intro same
      have locals := congrArg List.length (congrArg Body.locals (Option.some.inj same))
      rw [w.locals_eq, List.length_append, List.length_cons] at locals
      omega

end Methods

section Summary

variable {m m' : Module} {o : WeavePolicy} {known : Option Imports} {finished : List Token}
  {summary summary' : PassSummary} {entries : List (Token × MethodDef)}

/-- The summary with a method that a pass looks at. -/
def PassSummary.visit (m : Module) (o : WeavePolicy) (finished : List Token) (summary : PassSummary)
    (entry : Token × MethodDef) : PassSummary :=
  if entry.1 ∈ finished then summary.skip else summary.add (entry.2.siteCount m o)

/-- Whether a method is not finished and has call sites. -/
def isPending (m : Module) (o : WeavePolicy) (finished : List Token) (entry : Token × MethodDef) :
    Bool :=
  entry.1 ∉ finished && 0 < entry.2.siteCount m o

/-- What a summary says of the methods that a pass has looked at. -/
theorem PassSummary.foldl_visit (m : Module) (o : WeavePolicy) (finished : List Token)
    (summary : PassSummary) (entries : List (Token × MethodDef)) :
    entries.foldl (visit m o finished) summary = {
      visited := summary.visited + entries.length
      woven := summary.woven + (entries.filter (isPending m o finished)).length
      skipped := summary.skipped + entries.countP (·.1 ∈ finished)
      sites := summary.sites +
        ((entries.filter (isPending m o finished)).map fun entry => entry.2.siteCount m o).sum } := by
  induction entries generalizing summary with
  | nil => rfl
  | cons entry rest ih =>
    rw [List.foldl_cons, ih]
    by_cases done : entry.1 ∈ finished
    · simp [visit, isPending, skip, done]
      omega
    · rcases Nat.eq_zero_or_pos (entry.2.siteCount m o) with none | some
      · simp [visit, isPending, add, done, none]
        omega
      · simp [visit, isPending, add, done, some, Nat.ne_of_gt some]
        omega

/-- Which methods of a list get other bodies, and what the summary says of them. -/
theorem visits_of_weavePending (resolve : ∀ imports ∈ known, imports.Resolve m)
    (distinct : (entries.map Prod.fst).Nodup)
    (found : ∀ entry ∈ entries, m.methodDefAt entry.1 = .ok entry.2)
    (h : Yields (weavePending o known finished (entries.map Prod.fst) summary) m summary' m') :
    summary' = entries.foldl (PassSummary.visit m' o finished) summary ∧
      ∀ entry ∈ entries, entry.1 ∉ finished →
        (m'.bodyAt entry.1 ≠ entry.2.body ↔ 0 < entry.2.siteCount m' o) := by
  induction entries generalizing m summary with
  | nil =>
    obtain ⟨rfl, rfl⟩ := yields_pure.mp h
    exact ⟨rfl, fun entry member => nomatch member⟩
  | cons entry rest ih =>
    obtain ⟨fresh, later⟩ := List.nodup_cons.mp distinct
    obtain ⟨here, others⟩ := List.forall_mem_cons.mp found
    rw [List.map_cons] at h
    unfold weavePending at h
    rw [List.foldl_cons, PassSummary.visit]
    by_cases done : entry.1 ∈ finished
    · rw [if_pos done] at h ⊢
      obtain ⟨same, bodies⟩ := ih resolve later others h
      exact ⟨same, List.forall_mem_cons.mpr ⟨fun new => absurd done new, bodies⟩⟩
    · rw [if_neg done] at h ⊢
      obtain ⟨count, m₁, intercepted, h⟩ := yields_bind.mp h
      obtain ⟨grows₁, -, stay, _, d', -, known₁, -⟩ := rewoven_of_interceptCalls resolve intercepted
      have resolve₁ : ∀ imports ∈ known, imports.Resolve m₁ := fun imports member =>
        (resolve imports member).grows grows₁
      obtain ⟨grows₂, -, each⟩ := rewoven_of_weavePending resolve₁ later h
      have others₁ : ∀ entry ∈ rest, m₁.methodDefAt entry.1 = .ok entry.2 := fun other member =>
        (stay other.1 fun same => fresh (List.mem_map.mpr ⟨other, member, same⟩)).trans
          (others other member)
      obtain ⟨counted, changes⟩ := tally_of_interceptCalls intercepted here
      obtain rfl := counted m' (grows₁.trans grows₂)
      obtain ⟨same, bodies⟩ := ih resolve₁ later others₁ h
      have body : m'.bodyAt entry.1 = m₁.bodyAt entry.1 := by
        -- The rest of the list leaves the method alone, which is not in it.
        obtain ⟨d'', found'', -, stays⟩ := each entry.1 d' known₁
        rw [Module.bodyAt_of_methodDefAt found'', Module.bodyAt_of_methodDefAt known₁,
          stays (.inl fresh)]
      exact ⟨same, List.forall_mem_cons.mpr ⟨fun _ => body ▸ changes, bodies⟩⟩

end Summary

/-- What a pass does to a module some of whose methods may be woven, and what it leaves alone. -/
structure PassEffect (m : Module) (o : WeavePolicy) (eligible : List Token) (summary : PassSummary)
    (m' : Module) : Prop where
  name : m'.name = m.name
  versionId : m'.versionId = m.versionId
  types : m'.types = m.types
  fields : m'.fields = m.fields
  methodSpecs : m'.methodSpecs = m.methodSpecs
  userStrings : m'.userStrings = m.userStrings
  headers : m'.methods.map MethodDef.header = m.methods.map MethodDef.header
  /-- References are added to intrinsics only. -/
  memberRefs : ∃ added : List Intrinsic,
    m'.memberRefs.toList = m.memberRefs.toList ++ added.map Intrinsic.memberRef
  typeSpecs : m.typeSpecs.toList <+: m'.typeSpecs.toList
  rows : ∀ token, m.Has token → m.KeepsRow m' token
  resolves : ∀ token, m.Has token → ¬ m.Dangles token → m'.methodAt token = m.methodAt token
  dangling : ∀ token, m.Dangles token → ∀ method, m'.methodAt token = .ok method →
    ∃ i : Intrinsic, method = i.method.instantiate []
  /-- An instruction is looked at as before if the token in it stands for the same method. -/
  looks : ∀ i : Instruction,
    (∀ token, i.token? = some token → m.Has token ∧ ¬ m.Dangles token) →
      CallSite.at? m' o i = CallSite.at? m o i
  bodies : ∀ token d, m.methodDefAt token = .ok d → (m'.bodyAt token ≠ d.body ↔
    token ∈ eligible ∧ token ∉ m.finished ∧ 0 < d.siteCount m' o)
  finished : ∀ token, token ∈ m'.finished ↔ token ∈ m.finished ∨ token ∈ eligible
  ordered : Edit.Ordered m.finished → Edit.Ordered m'.finished
  visited : summary.visited = eligible.length
  skipped : summary.skipped = eligible.countP (· ∈ m.finished)
  woven : summary.woven = (m.rewritten m').length
  sites : summary.sites = ((m.rewritten m').map fun entry => entry.2.siteCount m' o).sum

section Whole

variable {m m' : Module} {o : WeavePolicy} {summary : PassSummary}

/-- A pass keeps the name of a module, and refers to intrinsics only. -/
theorem memberRefs_of_weavePass (h : Yields (weavePass o) m summary m') :
    m'.name = m.name ∧ ∃ added : List Intrinsic,
      m'.memberRefs.toList = m.memberRefs.toList ++ added.map Intrinsic.memberRef := by
  let I (m' : Module) : Prop := m'.name = m.name ∧ ∃ added : List Intrinsic,
    m'.memberRefs.toList = m.memberRefs.toList ++ added.map Intrinsic.memberRef
  have adds (type : Ty) : (Edit.insertTypeSpec type).Keeps I :=
    Edit.keeps_insertTypeSpec fun _ _ before => before
  have bodies (token : Token) (body : Option Body) : (Edit.setBody token body).Keeps I := by
    intro m₁ u m₂ set before
    obtain ⟨_, -, rfl⟩ := yields_setBody.mp set
    exact before
  have refers (i : Intrinsic) : (Edit.insertMemberRef i.memberRef).Keeps I :=
    Edit.keeps_insertMemberRef fun _ _ ⟨name, added, same⟩ => ⟨name, added ++ [i], by simp [same]⟩
  have marks (token : Token) : (Edit.markFinished token).Keeps I := by
    intro m₁ u m₂ marked before
    obtain rfl := yields_modify.mp marked
    exact before
  exact keeps_weavePass adds bodies refers marks h ⟨rfl, [], by simp⟩

/-- A token that dangled comes to stand for no method but an intrinsic in a pass. -/
theorem exists_intrinsic_of_dangles (h : Yields (weavePass o) m summary m') (grows : m.Grows m')
    {token : Token} (dangles : m.Dangles token) {method : Method}
    (stands : m'.methodAt token = .ok method) : ∃ i : Intrinsic, method = i.method.instantiate [] := by
  obtain ⟨r, index, arguments, beyond, entry, arity, rfl⟩ :=
    grows.exists_memberRef_of_dangles dangles stands
  obtain ⟨-, added, refs⟩ := memberRefs_of_weavePass h
  -- The reference lies behind those that were there, so it is one that the pass has added.
  rw [← Array.getElem?_toList, refs, List.getElem?_append_right (by simpa using beyond)] at entry
  obtain ⟨i, -, rfl⟩ := List.mem_map.mp (List.mem_of_getElem? entry)
  have plain : i.memberRef.method.genericArity.toNat = 0 := by cases i <;> rfl
  rw [plain, eq_comm, List.length_eq_zero_iff] at arity
  exact ⟨i, by rw [arity]; rfl⟩

/-- The methods that may be woven, with their tokens. -/
def Module.eligible (m : Module) (o : WeavePolicy) : List (Token × MethodDef) :=
  m.methodsWithTokens.filter fun entry => m.mayWeave o entry.2

/-- A pass looks at the methods that may be woven. -/
theorem visits_of_weavePass (small : m.methods.size ≤ Edit.rowLimit)
    (h : Yields (weavePass o) m summary m') :
    summary = (m.eligible o).foldl (PassSummary.visit m' o m.finished) {} ∧
      ∀ entry ∈ m.eligible o, entry.1 ∉ m.finished →
        (m'.bodyAt entry.1 ≠ entry.2.body ↔ 0 < entry.2.siteCount m' o) := by
  obtain ⟨methods, known, m₁, m₂, weavable, -, grown, resolve, wove, rfl⟩ := phases_of_weavePass h
  obtain ⟨-, rfl⟩ := weavableMethods_eq_ok_iff.mp weavable
  have distinct := (Module.nodup_methodsWithTokens small).sublist (sublist_of_weavableMethods weavable)
  have found : ∀ entry ∈ m.eligible o, m₁.methodDefAt entry.1 = .ok entry.2 := by
    intro entry member
    rw [grown.methodDefAt]
    exact Module.methodDefAt_of_mem small (List.mem_of_mem_filter member)
  obtain ⟨visits, bodies⟩ := visits_of_weavePending resolve distinct found wove
  -- What is marked as finished does not decide what tokens stand for.
  exact ⟨visits, bodies⟩

/-- A method gets another body just if it may be woven, is not finished and has call sites. -/
theorem bodyAt_ne_of_weavePass (small : m.methods.size ≤ Edit.rowLimit)
    (h : Yields (weavePass o) m summary m') {token : Token} {d : MethodDef}
    (found : m.methodDefAt token = .ok d) : m'.bodyAt token ≠ d.body ↔
      token ∈ (m.eligible o).map Prod.fst ∧ token ∉ m.finished ∧ 0 < d.siteCount m' o := by
  obtain ⟨-, methods, weavable, -, each⟩ := rewoven_of_weavePass small h
  obtain ⟨-, rfl⟩ := weavableMethods_eq_ok_iff.mp weavable
  obtain ⟨d', found', -, stays⟩ := each token d found
  -- Methods that the pass does not look into stay as they are; the others were counted.
  by_cases left : token ∉ (m.eligible o).map Prod.fst ∨ token ∈ m.finished
  · obtain rfl := stays left
    rw [Module.bodyAt_of_methodDefAt found']
    refine iff_of_false (not_not_intro rfl) fun ⟨member, new, _⟩ => ?_
    rcases left with outside | done
    · exact outside member
    · exact new done
  · obtain ⟨member, new⟩ := not_or.mp left
    obtain ⟨⟨_, d₁⟩, listed, rfl⟩ := List.mem_map.mp (not_not.mp member)
    have same : d₁ = d := by
      have known := Module.methodDefAt_of_mem small (List.mem_of_mem_filter listed)
      exact Except.ok.inj (known.symm.trans found)
    subst same
    have changes := (visits_of_weavePass small h).2 _ listed new
    exact changes.trans ⟨fun sites => ⟨not_not.mp member, new, sites⟩, fun ⟨_, _, sites⟩ => sites⟩

/-- The methods that get other bodies. -/
theorem rewritten_of_weavePass (small : m.methods.size ≤ Edit.rowLimit)
    (h : Yields (weavePass o) m summary m') :
    m.rewritten m' = (m.eligible o).filter (isPending m' o m.finished) := by
  rw [Module.rewritten, Module.eligible, List.filter_filter]
  refine List.filter_congr fun entry member => ?_
  have found := Module.methodDefAt_of_mem small member
  have listed : entry.1 ∈ (m.eligible o).map Prod.fst ↔ m.mayWeave o entry.2 = true := by
    constructor
    · intro inside
      obtain ⟨other, known, same⟩ := List.mem_map.mp inside
      obtain ⟨row, eligible⟩ := List.mem_filter.mp known
      have found' := Module.methodDefAt_of_mem small row
      rw [same] at found'
      exact Except.ok.inj (found'.symm.trans found) ▸ eligible
    · exact fun eligible => List.mem_map_of_mem (List.mem_filter.mpr ⟨member, eligible⟩)
  rw [Bool.eq_iff_iff, decide_eq_true_eq, bodyAt_ne_of_weavePass small h found, listed, isPending]
  simp only [Bool.and_eq_true, decide_eq_true_eq]
  exact ⟨fun ⟨eligible, pending⟩ => ⟨pending, eligible⟩, fun ⟨pending, eligible⟩ => ⟨eligible, pending⟩⟩

/-- A pass touches nothing that it should not.  It makes other bodies for just those methods that may
be woven, were not finished and have call sites, refers to intrinsics and types behind what was there,
and marks the methods that may be woven; all else is as it was, and the summary tells the truth.  Each
token that names a row stands for what it stood for, but an instantiation of a missing reference, which
stood for nothing, may stand for an intrinsic now.  What is a call site is looked up in the module that
results.  Tokens can name all methods of a module, as of every module that was built or loaded. -/
theorem effect_of_weavePass (small : m.methods.size ≤ Edit.rowLimit)
    (h : Yields (weavePass o) m summary m') :
    ∃ eligible, weavableMethods m o = .ok eligible ∧ PassEffect m o eligible summary m' := by
  obtain ⟨grows, eligible, weavable, finished, -⟩ := rewoven_of_weavePass small h
  obtain ⟨name, refs⟩ := memberRefs_of_weavePass h
  obtain ⟨summary_eq, -⟩ := visits_of_weavePass small h
  have rewritten := rewritten_of_weavePass small h
  obtain ⟨-, rfl⟩ := weavableMethods_eq_ok_iff.mp weavable
  rw [PassSummary.foldl_visit, ← rewritten] at summary_eq
  refine ⟨_, weavable, {
    name, versionId := grows.versionId, types := grows.types, fields := grows.fields
    methodSpecs := grows.methodSpecs, userStrings := grows.userStrings, headers := grows.headers
    memberRefs := refs, typeSpecs := grows.typeSpecs
    rows := fun token has => grows.keepsRow has
    resolves := fun token has whole => grows.methodAt_eq has whole
    dangling := fun token dangles method stands => exists_intrinsic_of_dangles h grows dangles stands
    looks := fun i there => CallSite.at?_congr fun token known =>
      grows.methodAt_eq (there token known).1 (there token known).2
    bodies := fun token d found => bodyAt_ne_of_weavePass small h found
    finished := fun token => ?marked
    ordered := fun ordered => finished ▸ ordered.foldl_insertToken _
    visited := ?visited, skipped := ?skipped, woven := ?woven, sites := ?sites }⟩
  case marked => rw [finished, Edit.mem_foldl_insertToken, or_comm]
  case visited =>
    rw [summary_eq, List.length_map]
    exact Nat.zero_add _
  case skipped =>
    rw [summary_eq, List.countP_map]
    exact Nat.zero_add _
  case woven =>
    rw [summary_eq]
    exact Nat.zero_add _
  case sites =>
    rw [summary_eq]
    exact Nat.zero_add _

/-- In a module with a call, one of the two methods gets another body. -/
theorem effect_of_weavePass_liveCall : ∃ eligible m',
    Yields (weavePass {}) liveCallModule { visited := 2, woven := 1, skipped := 0, sites := 1 } m' ∧
      PassEffect liveCallModule {} eligible
        { visited := 2, woven := 1, skipped := 0, sites := 1 } m' := by
  have pass := yields_weavePass_liveCall
  obtain ⟨eligible, -, effect⟩ := effect_of_weavePass (by decide) pass
  exact ⟨eligible, _, pass, effect⟩

end Whole

/-- A module with a method that calls an instantiation of the third reference, which is missing.  The
method is finished, so a pass looks at the other method only. -/
def danglingModule : Module where
  name := "Demo"
  types := #[.ofClass "Demo.A"]
  methods := #[
    { owner := .ofRow .typeDef 1, name := "main", flags := .isStatic,
      body := some { code := [0x28, 0x01, 0x00, 0x00, 0x2B, 0x26, 0x2A] } },
    { owner := .ofRow .typeDef 1, name := "g", flags := .isStatic,
      body := some { code := [0x2A] } }]
  methodSpecs := #[⟨.ofRow .memberRef 3, []⟩]
  finished := [.ofRow .methodDef 1]

/-- A token that names a row may come to stand for a method in a pass. -/
theorem not_forall_methodAt_weavePass : ¬ ∀ (m m' : Module) (o : WeavePolicy) (summary : PassSummary),
    m.methods.size ≤ Edit.rowLimit → Yields (weavePass o) m summary m' →
      ∀ token, m.Has token → m'.methodAt token = m.methodAt token := by
  intro claim
  have done : ((weavePass {}).run.run danglingModule).1 =
      .ok { visited := 2, woven := 0, skipped := 1, sites := 0 } := by decide +kernel
  have pass : Yields (weavePass {}) danglingModule
      { visited := 2, woven := 0, skipped := 1, sites := 0 }
      ((weavePass {}).run.run danglingModule).2 := Prod.ext done rfl
  have same := claim _ _ _ _ (by decide) pass (.ofRow .methodSpec 1)
    ⟨.methodSpec, by decide, by decide, by decide⟩
  have before : (danglingModule.methodAt (.ofRow .methodSpec 1)).toOption = none := by decide +kernel
  have after : (((weavePass {}).run.run danglingModule).2.methodAt
      (.ofRow .methodSpec 1)).toOption.isSome = true := by decide +kernel
  rw [same, before] at after
  cases after

end Interpose
