import Interpose.Proofs.Weaving.Structure
import Interpose.Weaving.Pass

/-!
# What a pass does

A pass keeps all declarations of a module.  Each method that it looks at keeps its body or gets a
woven one, all others keep theirs, and the methods that it looked at are finished afterwards.

## Main definitions

* `Rewoven` — what a pass does to one method
* `WovenBy` — what is known of a method that a pass has given another body

## Main results

* `rewoven_of_interceptCalls` — what becomes of the methods if the calls of one are intercepted
* `rewoven_of_weavePass` — what becomes of the methods in a pass
* `wovenBy_of_weavePass` — a method that has another body after a pass was woven
-/

namespace Interpose

/-- What becomes of a method: it stays, or it gets a woven body with at least one call site. -/
inductive Rewoven (m : Module) (o : WeavePolicy) (token : Token) (d : MethodDef) : MethodDef → Prop
  | kept : Rewoven m o token d d
  | woven {imports : Imports} {body woven : Body} (hasBody : d.body = some body)
      (resolve : imports.Resolve m) (w : Weave m imports token d body woven)
      (looked : ∀ entry ∈ w.entries, CallSite.at? m o entry.1 = .ok entry.2)
      (intercepts : 0 < (w.entries.filterMap Prod.snd).length) :
      Rewoven m o token d { d with body := some woven }

section One

variable {m m' : Module} {o : WeavePolicy} {token : Token} {d d' : MethodDef}

theorem Rewoven.grows (h : Rewoven m o token d d') (grows : m.Grows m') :
    Rewoven m' o token d d' := by
  cases h with
  | kept => exact .kept
  | woven hasBody resolve w looked intercepts =>
    exact .woven hasBody (resolve.grows grows) (w.grow grows)
      (fun entry member => CallSite.at?_grows (looked entry member) grows) intercepts

/-- If the calls of one method are intercepted, the others stay. -/
theorem rewoven_of_interceptCalls {known : Option Imports} {count : Nat}
    (resolve : ∀ imports ∈ known, imports.Resolve m)
    (h : Yields (interceptCalls o known token) m count m') :
    m.Grows m' ∧ m'.finished = m.finished ∧
      (∀ other, other ≠ token → m'.methodDefAt other = m.methodDefAt other) ∧
      ∃ d d', m.methodDefAt token = .ok d ∧ m'.methodDefAt token = .ok d' ∧
        Rewoven m' o token d d' ∧ (count = 0 → m' = m) := by
  obtain ⟨d, found, change⟩ := weave_of_interceptCalls h
  rcases change with ⟨-, rfl, -⟩ | ⟨body, imports, woven, m₁, hasBody, rfl, grown, set, w, looked,
    counted, some⟩
  · exact ⟨.refl m', rfl, fun _ _ => rfl, d, d, found, found, .kept, fun _ => rfl⟩
  · have grows := grows_of_setBody set
    have kept : m₁.methodDefAt token = .ok d := grown.methodDefAt.trans found
    have finished : m'.finished = m₁.finished := by
      obtain ⟨_, -, rfl⟩ := yields_setBody.mp set
      rfl
    refine ⟨grown.grows.trans grows, finished.trans grown.finished, fun other ne => ?_, d, _, found,
      methodDefAt_of_setBody kept set, ?_, fun none => absurd some (by simp [none])⟩
    · exact (methodDefAt_of_ne set ne).trans grown.methodDefAt
    · exact (Rewoven.woven hasBody ((resolve imports rfl).grows grown.grows) w
        (fun entry member => CallSite.at?_grows (looked entry member) grown.grows)
        (counted ▸ some)).grows grows

end One

section Many

variable {m m' : Module} {o : WeavePolicy} {known : Option Imports} {finished tokens : List Token}
  {summary summary' : PassSummary}

/-- What becomes of the methods when those of a list are woven that are not finished. -/
theorem rewoven_of_weavePending (resolve : ∀ imports ∈ known, imports.Resolve m)
    (distinct : tokens.Nodup)
    (h : Yields (weavePending o known finished tokens summary) m summary' m') :
    m.Grows m' ∧ m'.finished = m.finished ∧ ∀ token d, m.methodDefAt token = .ok d → ∃ d',
      m'.methodDefAt token = .ok d' ∧ Rewoven m' o token d d' ∧
      (token ∉ tokens ∨ token ∈ finished → d' = d) := by
  induction tokens generalizing m summary with
  | nil =>
    obtain ⟨-, rfl⟩ := yields_pure.mp h
    exact ⟨.refl m, rfl, fun token d found => ⟨d, found, .kept, fun _ => rfl⟩⟩
  | cons first rest ih =>
    obtain ⟨fresh, distinct⟩ := List.nodup_cons.mp distinct
    unfold weavePending at h
    by_cases done : first ∈ finished
    · rw [if_pos done] at h
      obtain ⟨grows, same, each⟩ := ih resolve distinct h
      refine ⟨grows, same, fun token d found => ?_⟩
      obtain ⟨d', found', rewoven, stays⟩ := each token d found
      refine ⟨d', found', rewoven, fun left => stays ?_⟩
      rcases left with outside | inside
      · exact .inl fun member => outside (List.mem_cons_of_mem _ member)
      · exact .inr inside
    · rw [if_neg done] at h
      obtain ⟨count, m₁, intercepted, h⟩ := yields_bind.mp h
      obtain ⟨grows₁, same₁, others, e, e', known₁, found₁, rewoven₁, -⟩ :=
        rewoven_of_interceptCalls resolve intercepted
      obtain ⟨grows₂, same₂, each⟩ :=
        ih (fun imports member => (resolve imports member).grows grows₁) distinct h
      refine ⟨grows₁.trans grows₂, same₂.trans same₁, fun token d found => ?_⟩
      by_cases here : token = first
      · subst here
        rw [found, Except.ok.injEq] at known₁
        subst known₁
        -- The rest of the list leaves the method alone, which is not in it.
        obtain ⟨d', found', -, stays⟩ := each token e' found₁
        obtain rfl := stays (.inl fresh)
        refine ⟨d', found', rewoven₁.grows grows₂, ?_⟩
        rintro (outside | inside)
        · exact absurd (List.mem_cons_self ..) outside
        · exact absurd inside done
      · obtain ⟨d', found', rewoven, stays⟩ := each token d ((others token here).trans found)
        refine ⟨d', found', rewoven, fun left => stays ?_⟩
        rcases left with outside | inside
        · exact .inl fun member => outside (List.mem_cons_of_mem _ member)
        · exact .inr inside

/-- Only the finished methods change when methods are marked. -/
theorem yields_markFinished {u : PUnit} (h : Yields (tokens.forM Edit.markFinished) m u m') :
    m' = { m with
      finished := tokens.foldl (fun list token => Edit.insertToken token list) m.finished } := by
  induction tokens generalizing m with
  | nil =>
    obtain ⟨-, rfl⟩ := yields_pure.mp h
    rfl
  | cons token rest ih =>
    rw [List.forM, yields_bind] at h
    obtain ⟨u, m₁, marked, h⟩ := h
    rw [← yields_modify.mp marked] at h
    exact ih h

/-- Marking methods changes no declaration. -/
theorem Module.grows_of_markFinished (m : Module) (finished : List Token) :
    m.Grows { m with finished } :=
  ⟨rfl, rfl, rfl, rfl, rfl, List.prefix_refl _, List.prefix_refl _, rfl⟩

end Many

section Whole

variable {m m' : Module} {o : WeavePolicy} {tokens : List Token} {summary : PassSummary}

/-- The tokens of methods are distinct if a token can name each of them. -/
theorem Module.nodup_methodsWithTokens (small : m.methods.size ≤ Edit.rowLimit) :
    (m.methodsWithTokens.map Prod.fst).Nodup := by
  have tokens : m.methodsWithTokens.map Prod.fst =
      (List.range m.methods.size).map (Module.tokenAt .methodDef) := by
    refine List.ext_getElem (by simp [methodsWithTokens, withTokens]) fun i _ _ => ?_
    simp [methodsWithTokens, withTokens]
  rw [tokens, List.Nodup, List.pairwise_map]
  refine List.nodup_range.imp_of_mem fun hi hj ne same => ne ?_
  rw [List.mem_range] at hi hj
  have index := congrArg Token.index? same
  rw [Token.index?_ofRow (by omega), Token.index?_ofRow (by omega)] at index
  exact Option.some.inj index

/-- A method is found by its token. -/
theorem Module.mem_methodsWithTokens {token : Token} {d : MethodDef}
    (h : m.methodDefAt token = .ok d) : (token, d) ∈ m.methodsWithTokens := by
  obtain ⟨inside, positive, entry⟩ := methodDefAt_eq_ok_iff.mp h
  obtain ⟨bound, rfl⟩ := Array.getElem?_eq_some_iff.mp entry
  rw [methodsWithTokens, withTokens, List.mem_map]
  refine ⟨(m.methods[token.row - 1], token.row - 1), ?_, ?_⟩
  · rw [List.mk_mem_zipIdx_iff_getElem?]
    simp
  · exact Prod.ext (Token.eq_tokenAt inside positive).symm rfl

/-- The tokens of methods name them, if a token can name each of them. -/
theorem Module.methodDefAt_of_mem {token : Token} {d : MethodDef}
    (small : m.methods.size ≤ Edit.rowLimit) (h : (token, d) ∈ m.methodsWithTokens) :
    m.methodDefAt token = .ok d := by
  obtain ⟨⟨_, index⟩, listed, same⟩ := List.mem_map.mp h
  obtain ⟨rfl, rfl⟩ := Prod.mk.inj same
  have entry := List.mk_mem_zipIdx_iff_getElem?.mp listed
  rw [Array.getElem?_toList] at entry
  obtain ⟨inside, -⟩ := Array.getElem?_eq_some_iff.mp entry
  exact row_tokenAt (Nat.lt_of_lt_of_le inside small) entry

/-- If the type of a method is there, the token of the method stands for it. -/
theorem Module.exists_methodAt {token : Token} {d : MethodDef} {owner : TypeDef}
    (h : m.methodDefAt token = .ok d) (owned : m.typeDefAt d.owner = .ok owner) :
    ∃ method, m.methodAt token = .ok method := by
  rw [methodAt_of_methodDefAt h]
  exact ⟨_, definedMethod_eq_ok_iff.mpr ⟨d, owner, h, owned, rfl⟩⟩

/-- Whether a definition may be woven. -/
def Module.mayWeave (m : Module) (o : WeavePolicy) (d : MethodDef) : Bool :=
  (m.typeDefAt d.owner).toOption.any o.includes && d.isWeavable

/-- The methods that may be woven, if the types of all methods are there. -/
theorem weavableMethods_eq_ok_iff : weavableMethods m o = .ok tokens ↔
    (∀ entry ∈ m.methodsWithTokens, ∃ owner, m.typeDefAt entry.2.owner = .ok owner) ∧
      (m.methodsWithTokens.filter fun entry => m.mayWeave o entry.2).map Prod.fst = tokens := by
  unfold weavableMethods
  generalize m.methodsWithTokens = entries
  induction entries generalizing tokens with
  | nil =>
    constructor
    · intro h
      cases h
      exact ⟨fun entry member => (nomatch member), rfl⟩
    · rintro ⟨-, rfl⟩
      rfl
  | cons entry rest ih =>
    simp only [List.mapM_cons, bind_assoc, pure_bind, bind_eq_ok_iff] at ih ⊢
    have here (owner : TypeDef) (known : m.typeDefAt entry.2.owner = .ok owner) :
        m.mayWeave o entry.2 = (o.includes owner && entry.2.isWeavable) := by
      rw [Module.mayWeave, known]
      rfl
    rw [List.forall_mem_cons]
    constructor
    · rintro ⟨owner, known, flagged, looked, h⟩
      obtain rfl := Except.ok.inj h
      obtain ⟨all, same⟩ := ih.mp ⟨flagged, looked, rfl⟩
      refine ⟨⟨⟨owner, known⟩, all⟩, ?_⟩
      rw [List.filterMap_cons, ← same, List.filter_cons, here owner known]
      cases o.includes owner && entry.2.isWeavable <;> rfl
    · rintro ⟨⟨⟨owner, known⟩, all⟩, rfl⟩
      obtain ⟨flagged, looked, h⟩ := ih.mpr ⟨all, rfl⟩
      refine ⟨owner, known, flagged, looked, congrArg Except.ok ?_⟩
      rw [List.filterMap_cons, Except.ok.inj h, List.filter_cons, here owner known]
      cases o.includes owner && entry.2.isWeavable <;> rfl

/-- The methods that may be woven are among the methods of the module. -/
theorem sublist_of_weavableMethods (h : weavableMethods m o = .ok tokens) :
    tokens.Sublist (m.methodsWithTokens.map Prod.fst) := by
  obtain ⟨-, rfl⟩ := weavableMethods_eq_ok_iff.mp h
  exact List.filter_sublist.map _

/-- A pass imports what scaffolds refer to if there is a method to weave, weaves the methods that are not
finished, and marks all that may be woven. -/
theorem phases_of_weavePass (h : Yields (weavePass o) m summary m') :
    ∃ methods known m₁ m₂, weavableMethods m o = .ok methods ∧
      (m₁ = m ∨ ∃ imports, Yields addImports m imports m₁) ∧ m.Extends m₁ ∧
      (∀ imports ∈ known, imports.Resolve m₁) ∧
      Yields (weavePending o known m.finished methods {}) m₁ summary m₂ ∧ m' = { m₂ with
        finished := methods.foldl (fun list token => Edit.insertToken token list) m₂.finished } := by
  unfold weavePass at h
  rw [yields_get_bind] at h
  obtain ⟨methods, weavable, h⟩ := yields_liftM_bind.mp h
  -- With or without imports, what comes behind them is the same.
  have rest {known : Option Imports} {m₁ : Module} (h : Yields (do
      let summary ← weavePending o known m.finished methods {}
      methods.forM Edit.markFinished
      return summary) m₁ summary m') : ∃ m₂,
        Yields (weavePending o known m.finished methods {}) m₁ summary m₂ ∧ m' = { m₂ with
          finished :=
            methods.foldl (fun list token => Edit.insertToken token list) m₂.finished } := by
    obtain ⟨total, m₂, wove, h⟩ := yields_bind.mp h
    obtain ⟨u, m₃, marked, h⟩ := yields_bind.mp h
    obtain ⟨rfl, rfl⟩ := yields_pure.mp h
    exact ⟨m₂, wove, yields_markFinished marked⟩
  dsimp only at h
  split at h
  case isTrue =>
    obtain ⟨m₂, wove, marked⟩ := rest h
    exact ⟨methods, none, m, m₂, weavable, .inl rfl, .refl m, fun _ member => (nomatch member), wove,
      marked⟩
  case isFalse =>
    obtain ⟨known, m₁, imported, h⟩ := yields_bind.mp h
    obtain ⟨imports, added, rfl⟩ := yields_map.mp imported
    obtain ⟨grown, resolve⟩ := Imports.resolve_of_addImports added
    obtain ⟨m₂, wove, marked⟩ := rest h
    refine ⟨methods, some imports, m₁, m₂, weavable, .inr ⟨imports, added⟩, grown,
      fun other member => ?_,
      wove, marked⟩
    cases member
    exact resolve

/-- What becomes of a module and its methods in a pass. -/
theorem rewoven_of_weavePass (small : m.methods.size ≤ Edit.rowLimit)
    (h : Yields (weavePass o) m summary m') :
    m.Grows m' ∧ ∃ methods, weavableMethods m o = .ok methods ∧
      m'.finished = methods.foldl (fun list token => Edit.insertToken token list) m.finished ∧
      ∀ token d, m.methodDefAt token = .ok d → ∃ d', m'.methodDefAt token = .ok d' ∧
        Rewoven m' o token d d' ∧ (token ∉ methods ∨ token ∈ m.finished → d' = d) := by
  obtain ⟨methods, known, m₁, m₂, weavable, -, grown, resolve, wove, rfl⟩ := phases_of_weavePass h
  have distinct : methods.Nodup :=
    (Module.nodup_methodsWithTokens small).sublist (sublist_of_weavableMethods weavable)
  obtain ⟨grows, same, each⟩ := rewoven_of_weavePending resolve distinct wove
  have marks := m₂.grows_of_markFinished
    (methods.foldl (fun list token => Edit.insertToken token list) m₂.finished)
  refine ⟨(grown.grows.trans grows).trans marks, methods, weavable, ?_, fun token d found => ?_⟩
  · simp only [same, grown.finished]
  · have found₁ : m₁.methodDefAt token = .ok d := grown.methodDefAt.trans found
    obtain ⟨d', found', rewoven, stays⟩ := each token d found₁
    exact ⟨d', found', rewoven.grows marks, stays⟩

/-- What is known of a method that a pass has given another body. -/
structure WovenBy (m' : Module) (o : WeavePolicy) (token : Token) (d : MethodDef) (body woven : Body)
    (imports : Imports) (w : Weave m' imports token d body woven) (caller : Method) : Prop where
  resolve : imports.Resolve m'
  stands : m'.methodAt token = .ok caller
  owned : ∃ owner, m'.typeDefAt d.owner = .ok owner
  looked : ∀ entry ∈ w.entries, CallSite.at? m' o entry.1 = .ok entry.2
  intercepts : w.entries ≠ []

/-- A pass keeps a method as it is, or weaves its body. -/
theorem kept_or_wovenBy_of_weavePass (small : m.methods.size ≤ Edit.rowLimit)
    (h : Yields (weavePass o) m summary m') {token : Token} {d : MethodDef}
    (found : m.methodDefAt token = .ok d) :
    m'.methodDefAt token = .ok d ∨ ∃ body woven imports w caller, d.body = some body ∧
      m'.methodDefAt token = .ok { d with body := some woven } ∧
      WovenBy m' o token d body woven imports w caller := by
  obtain ⟨grows, methods, weavable, -, each⟩ := rewoven_of_weavePass small h
  obtain ⟨d', found', change, -⟩ := each token d found
  cases change with
  | kept => exact .inl found'
  | @woven imports body woven hasBody resolve w looked intercepts =>
    obtain ⟨types, -⟩ := weavableMethods_eq_ok_iff.mp weavable
    obtain ⟨owner, owned⟩ := types _ (Module.mem_methodsWithTokens found)
    obtain ⟨caller, stands⟩ := Module.exists_methodAt found owned
    refine .inr ⟨body, woven, imports, w, caller, hasBody, found', resolve, grows.methodAt stands,
      ⟨owner, grows.typeDefAt.trans owned⟩, looked, fun none => ?_⟩
    rw [none] at intercepts
    exact Nat.lt_irrefl 0 intercepts

/-- A method that has another body after a pass was woven. -/
theorem wovenBy_of_weavePass (small : m.methods.size ≤ Edit.rowLimit)
    (h : Yields (weavePass o) m summary m') {token : Token} {d d' : MethodDef} {body woven : Body}
    (found : m.methodDefAt token = .ok d) (hasBody : d.body = some body)
    (found' : m'.methodDefAt token = .ok d') (hasBody' : d'.body = some woven)
    (rewoven : woven ≠ body) :
    ∃ imports w caller, WovenBy m' o token d body woven imports w caller := by
  rcases kept_or_wovenBy_of_weavePass small h found with kept | changed
  · obtain rfl := Except.ok.inj (found'.symm.trans kept)
    rw [hasBody, Option.some.injEq] at hasBody'
    exact absurd hasBody'.symm rewoven
  · obtain ⟨body₁, woven₁, imports, w, caller, hasBody₁, found₁, known⟩ := changed
    obtain rfl := Option.some.inj (hasBody.symm.trans hasBody₁)
    obtain rfl := Except.ok.inj (found'.symm.trans found₁)
    obtain rfl := Option.some.inj hasBody'
    exact ⟨imports, w, caller, known⟩

/-- Each call site of the body that was there before is one of the woven body. -/
theorem WovenBy.exists_entries {token : Token} {d : MethodDef} {body woven : Body} {imports : Imports}
    {w : Weave m' imports token d body woven} {caller : Method}
    (h : WovenBy m' o token d body woven imports w caller) {before after : List Instruction}
    {i : Instruction} (decoded : decodeCode body.code = .ok (before ++ i :: after))
    {site : Option CallSite} (looked : CallSite.at? m' o i = .ok site) :
    ∃ front back, w.entries = front ++ (i, site) :: back ∧ front.map Prod.fst = before := by
  have same := Except.ok.inj (w.decoded.symm.trans decoded)
  obtain ⟨front, behind, split, rfl, later⟩ := List.map_eq_append_iff.mp same
  obtain ⟨entry, back, rfl, rfl, -⟩ := List.map_eq_cons_iff.mp later
  have here := h.looked entry (by rw [split]; simp)
  rw [looked, Except.ok.injEq] at here
  exact ⟨front, back, by rw [split, here], rfl⟩

end Whole

end Interpose
