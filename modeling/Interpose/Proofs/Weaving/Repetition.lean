import Interpose.Proofs.Module.Loading
import Interpose.Proofs.Weaving.CallSites

/-!
# Weaving again

A method is woven at most once, however often its module is woven under whatever policies, and saved
and loaded in between.  What tells is the table of finished methods, which is part of the module: a
pass leaves the methods in it alone and adds those that it has looked at, and a container keeps it.

## Main definitions

* `Module.codeAt` — the code of a method
* `Rework` — a module is woven, or saved and loaded

## Main results

* `weavePass_of_finished` — a pass does nothing if it was done with all methods before
* `Rework.finished_of_ne` — the code of a method changes only while the method becomes finished
* `woven_at_most_once` — what this means for a module that is reworked again and again
-/

namespace Interpose

/-- The code of a method that has a body. -/
def Module.codeAt (m : Module) (token : Token) : Option (List UInt8) :=
  (m.methodDefAt token).toOption.bind fun d => d.body.map Body.code

/-- A module is woven under some policy, or saved and loaded. -/
inductive Rework (m : Module) : Module → Prop
  | pass {o : WeavePolicy} {summary : PassSummary} {m' : Module} :
      Yields (weavePass o) m summary m' → Rework m m'
  | reload {bytes : List UInt8} {m' : Module} :
      m.encode = .ok bytes → Module.decode bytes = .ok m' → Rework m m'

/-- What decides whether the methods of a type may be woven. -/
def TypeDef.scope (d : TypeDef) : String × Bool := (d.name, d.isInterface)

/-- What a method definition decides about whether the method may be woven. -/
def MethodDef.scope (d : MethodDef) : Token × Bool := (d.owner, d.isWeavable)

/-- Modules with the same methods that may be woven. -/
structure Module.SameScope (m m' : Module) : Prop where
  types : m'.types.map TypeDef.scope = m.types.map TypeDef.scope
  methods : m'.methods.map MethodDef.scope = m.methods.map MethodDef.scope

section Scope

variable {m m' m'' : Module} {o : WeavePolicy} {tokens : List Token}

theorem TypeFlags.contains_ofBits {flags other : TypeFlags}
    (known : 0x11A0 &&& other.bits = other.bits) :
    (ofBits flags.bits).contains other = flags.contains other := by
  refine decide_eq_decide.mpr ?_
  rw [ofBits, UInt32.and_assoc, known]

theorem MethodFlags.contains_ofBits {flags other : MethodFlags}
    (known : 0x003F &&& other.bits = other.bits) :
    (ofBits flags.bits).contains other = flags.contains other := by
  refine decide_eq_decide.mpr ?_
  rw [ofBits, UInt16.and_assoc, known]

theorem TypeDef.scope_stored (d : TypeDef) : d.stored.scope = d.scope := by
  rw [scope, isInterface, stored, TypeFlags.contains_ofBits rfl]
  rfl

theorem MethodDef.scope_stored (d : MethodDef) : d.stored.scope = d.scope := by
  rw [scope, isWeavable, stored, MethodFlags.contains_ofBits rfl, Option.isSome_map]
  rfl

theorem MethodDef.scope_withoutPoints (d : MethodDef) : d.withoutPoints.scope = d.scope := by
  rw [scope, scope, isWeavable, isWeavable, withoutPoints, Option.isSome_map]

namespace Module

theorem SameScope.refl (m : Module) : m.SameScope m := ⟨rfl, rfl⟩

theorem SameScope.trans (h : m.SameScope m') (h' : m'.SameScope m'') : m.SameScope m'' :=
  ⟨h'.types.trans h.types, h'.methods.trans h.methods⟩

theorem ReadFrom.sameScope (h : m.ReadFrom m') : m.SameScope m' := by
  have strip (table : Array MethodDef) :
      (table.map MethodDef.withoutPoints).map MethodDef.scope = table.map MethodDef.scope := by
    rw [Array.map_map]
    exact Array.map_congr_left fun d _ => d.scope_withoutPoints
  constructor
  · rw [h.types, Array.map_map]
    exact Array.map_congr_left fun d _ => d.scope_stored
  · rw [← strip, h.methods, strip, Array.map_map]
    exact Array.map_congr_left fun d _ => d.scope_stored

private theorem withTokens_map {α β : Type} (id : Table) (f : α → β) (table : Array α) :
    (withTokens id table).map (fun entry => (entry.1, f entry.2)) = withTokens id (table.map f) := by
  simp [withTokens, List.zipIdx_map]

/-- Whether a method of the given scope may be woven. -/
def mayWeaveScope (m : Module) (o : WeavePolicy) (scope : Token × Bool) : Bool :=
  ((m.typeDefAt scope.1).toOption.map TypeDef.scope).any (fun owner =>
    !owner.2 && owner.1 ≠ moduleTypeName && !o.excludes owner.1) && scope.2

theorem mayWeave_eq (m : Module) (o : WeavePolicy) (d : MethodDef) :
    m.mayWeave o d = m.mayWeaveScope o d.scope := by
  rw [mayWeaveScope, Option.any_map]
  rfl

/-- What may be woven is decided by the scopes. -/
theorem SameScope.weavableMethods (h : m.SameScope m') (weavable : weavableMethods m o = .ok tokens) :
    weavableMethods m' o = .ok tokens := by
  obtain ⟨owned, rfl⟩ := weavableMethods_eq_ok_iff.mp weavable
  -- Nothing but the scopes of methods and of their owners is looked at, and these have not changed.
  have entries : m'.methodsWithTokens.map (fun entry => (entry.1, entry.2.scope)) =
      m.methodsWithTokens.map fun entry => (entry.1, entry.2.scope) := by
    rw [methodsWithTokens, methodsWithTokens, withTokens_map, withTokens_map, h.methods]
  have owners (token : Token) : (m'.typeDefAt token).toOption.map TypeDef.scope =
      (m.typeDefAt token).toOption.map TypeDef.scope := by
    have toOption (found : Except Error TypeDef) :
        found.toOption.map TypeDef.scope = (TypeDef.scope <$> found).toOption := by
      cases found <;> rfl
    rw [toOption, toOption, typeDefAt, typeDefAt, ← row_map, ← row_map, h.types]
  refine weavableMethods_eq_ok_iff.mpr ⟨fun entry member => ?_, ?_⟩
  · have here : (entry.1, entry.2.scope) ∈
        m.methodsWithTokens.map fun entry => (entry.1, entry.2.scope) := by
      rw [← entries]
      exact List.mem_map_of_mem member
    obtain ⟨entry', member', same⟩ := List.mem_map.mp here
    obtain ⟨owner, known⟩ := owned entry' member'
    have sameOwner : entry'.2.owner = entry.2.owner := congrArg (fun e => e.2.1) same
    have scope := owners entry.2.owner
    rw [← sameOwner, known] at scope
    obtain ⟨owner', known', -⟩ := Option.map_eq_some_iff.mp scope
    exact ⟨owner', sameOwner ▸ toOption_eq_some_iff.mp known'⟩
  · simp only [mayWeave_eq, mayWeaveScope, owners]
    have byScope (m' : Module) :
        (m'.methodsWithTokens.filter fun entry => m.mayWeaveScope o entry.2.scope).map Prod.fst =
          ((m'.methodsWithTokens.map fun entry => (entry.1, entry.2.scope)).filter
            fun entry => m.mayWeaveScope o entry.2).map Prod.fst := by
      rw [List.filter_map, List.map_map]
      rfl
    exact (byScope m').trans ((congrArg (fun list => (list.filter fun entry : Token × Token × Bool =>
      m.mayWeaveScope o entry.2).map Prod.fst) entries).trans (byScope m).symm)

end Module

end Scope

section Pass

variable {m m' : Module} {o : WeavePolicy} {summary : PassSummary} {token : Token} {tokens : List Token}

theorem Rewoven.scope {d d' : MethodDef} (h : Rewoven m o token d d') : d'.scope = d.scope := by
  cases h with
  | kept => rfl
  | woven hasBody => rw [MethodDef.scope, MethodDef.scope, MethodDef.isWeavable, MethodDef.isWeavable,
      hasBody, Option.isSome_some, Option.isSome_some]

/-- A pass changes nothing of what decides which methods may be woven. -/
theorem sameScope_of_weavePass (small : m.methods.size ≤ Edit.rowLimit)
    (h : Yields (weavePass o) m summary m') : m.SameScope m' := by
  obtain ⟨grows, methods, -, -, each⟩ := rewoven_of_weavePass small h
  refine ⟨by rw [grows.types], Array.ext_getElem? fun index => ?_⟩
  have size := congrArg Array.size grows.headers
  rw [Array.size_map, Array.size_map] at size
  rw [Array.getElem?_map, Array.getElem?_map]
  by_cases inside : index < m.methods.size
  case pos =>
    have found : m.methodDefAt (Module.tokenAt .methodDef index) = .ok m.methods[index] :=
      Module.row_tokenAt (Nat.lt_of_lt_of_le inside small) (Array.getElem?_eq_getElem inside)
    obtain ⟨d', found', rewoven, -⟩ := each _ _ found
    obtain ⟨-, i, named, entry⟩ := Module.row_eq_ok_iff.mp found'
    obtain rfl : index = i := by
      rw [Token.index?_ofRow (Nat.lt_of_lt_of_le inside small)] at named
      exact Option.some.inj named
    rw [entry, Array.getElem?_eq_getElem inside, Option.map_some, Option.map_some, rewoven.scope]
  case neg =>
    rw [Array.getElem?_eq_none (by omega), Array.getElem?_eq_none (by omega)]

theorem Module.Sound.weavePass (sound : m.Sound) (h : Yields (weavePass o) m summary m') :
    m'.Sound := by
  obtain ⟨grows, methods, -, finished, -⟩ := rewoven_of_weavePass sound.small h
  have size := congrArg Array.size grows.headers
  rw [Array.size_map, Array.size_map] at size
  refine ⟨size ▸ sound.small, grows.versionId ▸ sound.identified, ?_⟩
  rw [finished]
  exact sound.ordered.foldl_insertToken methods

/-- The methods that a pass looks at are finished behind it, and those that were stay so. -/
theorem mem_finished_of_weavePass (small : m.methods.size ≤ Edit.rowLimit)
    (h : Yields (weavePass o) m summary m') (weavable : weavableMethods m o = .ok tokens) :
    token ∈ m'.finished ↔ token ∈ tokens ∨ token ∈ m.finished := by
  obtain ⟨-, methods, looked, finished, -⟩ := rewoven_of_weavePass small h
  obtain rfl := Except.ok.inj (weavable.symm.trans looked)
  rw [finished]
  exact Edit.mem_foldl_insertToken

/-- A pass leaves methods alone that are finished. -/
theorem methodDefAt_of_weavePass (small : m.methods.size ≤ Edit.rowLimit)
    (h : Yields (weavePass o) m summary m') (done : token ∈ m.finished) {d : MethodDef}
    (found : m.methodDefAt token = .ok d) : m'.methodDefAt token = .ok d := by
  obtain ⟨-, methods, -, -, each⟩ := rewoven_of_weavePass small h
  obtain ⟨d', found', -, stays⟩ := each token d found
  rw [found', stays (.inr done)]

/-- A pass changes the code of no methods but those that it finishes. -/
theorem finished_of_weavePass (small : m.methods.size ≤ Edit.rowLimit)
    (h : Yields (weavePass o) m summary m') (changed : m'.codeAt token ≠ m.codeAt token) :
    token ∉ m.finished ∧ token ∈ m'.finished := by
  obtain ⟨grows, methods, -, finished, each⟩ := rewoven_of_weavePass small h
  cases found : m.methodDefAt token with
  | error e =>
    have header := (grows.header_methodDefAt : _ = MethodDef.header <$> m.methodDefAt token)
    cases found' : m'.methodDefAt token with
    | error e' => exact absurd (by rw [Module.codeAt, Module.codeAt, found, found']; rfl) changed
    | ok d' =>
      rw [found, found'] at header
      cases header
  | ok d =>
    obtain ⟨d', found', -, stays⟩ := each token d found
    have other : ¬ (token ∉ methods ∨ token ∈ m.finished) := fun left =>
      changed (by rw [Module.codeAt, Module.codeAt, found, found', stays left])
    obtain ⟨member, fresh⟩ := not_or.mp other
    rw [finished]
    exact ⟨fresh, Edit.mem_foldl_insertToken.mpr (.inl (not_not.mp member))⟩

/-- If all methods that may be woven are finished, none of them is woven. -/
theorem yields_weavePending_of_finished (imports : Option Imports) {finished : List Token}
    (done : ∀ token ∈ tokens, token ∈ finished) (summary : PassSummary) :
    Yields (weavePending o imports finished tokens summary) m { summary with
      visited := summary.visited + tokens.length
      skipped := summary.skipped + tokens.length } m := by
  induction tokens generalizing summary with
  | nil => exact yields_pure.mpr ⟨rfl, rfl⟩
  | cons first rest ih =>
    obtain ⟨here, later⟩ := List.forall_mem_cons.mp done
    unfold weavePending
    rw [if_pos here]
    have skipped := ih later summary.skip
    simp only [PassSummary.skip, Nat.add_assoc, Nat.add_comm 1] at skipped
    exact skipped

/-- A pass that finds all methods finished changes nothing. -/
theorem weavePass_of_finished (ordered : Edit.Ordered m.finished)
    (weavable : weavableMethods m o = .ok tokens) (done : ∀ token ∈ tokens, token ∈ m.finished) :
    Yields (weavePass o) m
      { visited := tokens.length, woven := 0, skipped := tokens.length, sites := 0 } m := by
  have marks (tokens : List Token) (done : ∀ token ∈ tokens, token ∈ m.finished) :
      Yields (tokens.forM Edit.markFinished) m () m := by
    induction tokens with
    | nil => exact yields_pure.mpr ⟨rfl, rfl⟩
    | cons token rest ih =>
      obtain ⟨here, later⟩ := List.forall_mem_cons.mp done
      have mark : Yields (Edit.markFinished token) m () m := by
        refine yields_modify.mpr ?_
        rw [Edit.insertToken_of_mem ordered here]
      exact mark.bind (ih later)
  have all : tokens.all m.isFinished = true :=
    List.all_eq_true.mpr fun token member => decide_eq_true (done token member)
  have pending := yields_weavePending_of_finished (o := o) (m := m) none done {}
  simp only [Nat.zero_add] at pending
  unfold weavePass
  rw [yields_get_bind]
  refine yields_liftM_bind.mpr ⟨tokens, weavable, ?_⟩
  rw [if_pos all, pure_bind]
  exact pending.bind ((marks tokens done).bind (yields_pure.mpr ⟨rfl, rfl⟩))

end Pass

namespace Module.ReadFrom

variable {m m' : Module}

theorem sound (h : m.ReadFrom m') (sound : m.Sound) : m'.Sound where
  small := h.small
  identified := h.versionId ▸ sound.identified
  ordered := h.finished ▸ Edit.Ordered.foldl_insertToken List.Pairwise.nil m.finished

/-- The table of finished methods is kept. -/
theorem finished_eq (h : m.ReadFrom m') (sound : m.Sound) : m'.finished = m.finished := by
  have whole : m.finished.foldl (fun list token => Edit.insertToken token list) [] = m.finished :=
    Edit.foldl_insertToken sound.ordered
  rw [h.finished, whole]

/-- So is the code of all methods. -/
theorem codeAt_eq (h : m.ReadFrom m') (token : Token) : m'.codeAt token = m.codeAt token := by
  have code (found : Except Error MethodDef) (f : MethodDef → MethodDef)
      (kept : ∀ d, (f d).body.map Body.code = d.body.map Body.code) :
      (found.toOption.bind fun d => d.body.map Body.code) =
        (f <$> found).toOption.bind fun d => d.body.map Body.code := by
    cases found with
    | error e => rfl
    | ok d => exact (kept d).symm
  have plain (d : MethodDef) : d.withoutPoints.body.map Body.code = d.body.map Body.code := by
    rw [MethodDef.withoutPoints, Option.map_map]
    rfl
  have stored (d : MethodDef) : d.stored.body.map Body.code = d.body.map Body.code := by
    rw [MethodDef.stored, Option.map_map]
    rfl
  rw [codeAt, codeAt, code _ _ plain, methodDefAt, ← row_map, h.methods, row_map, ← code _ _ plain,
    row_map, ← code _ _ stored, methodDefAt]

end Module.ReadFrom

namespace Rework

variable {m m' : Module} {token : Token}

theorem sound (h : Rework m m') (sound : m.Sound) : m'.Sound := by
  cases h with
  | pass woven => exact sound.weavePass woven
  | reload written read => exact (Module.readFrom_of_decode sound.identified written read).sound sound

theorem sameScope (h : Rework m m') (sound : m.Sound) : m.SameScope m' := by
  cases h with
  | pass woven => exact sameScope_of_weavePass sound.small woven
  | reload written read =>
    exact (Module.readFrom_of_decode sound.identified written read).sameScope

/-- A method that is finished stays so. -/
theorem finished_subset (h : Rework m m') (sound : m.Sound) : m.finished ⊆ m'.finished := by
  cases h with
  | pass woven =>
    obtain ⟨-, methods, weavable, -, -⟩ := rewoven_of_weavePass sound.small woven
    exact fun token done => (mem_finished_of_weavePass sound.small woven weavable).mpr (.inr done)
  | reload written read =>
    rw [(Module.readFrom_of_decode sound.identified written read).finished_eq sound]
    exact List.Subset.refl _

/-- The code of a method changes only while the method becomes finished. -/
theorem finished_of_ne (h : Rework m m') (sound : m.Sound)
    (changed : m'.codeAt token ≠ m.codeAt token) : token ∉ m.finished ∧ token ∈ m'.finished := by
  cases h with
  | pass woven => exact finished_of_weavePass sound.small woven changed
  | reload written read =>
    exact absurd ((Module.readFrom_of_decode sound.identified written read).codeAt_eq token) changed

end Rework

section Histories

variable {h : Nat → Module} {n : Nat}

/-- All modules of a history are sound if the first is. -/
theorem sound_of_rework (sound : (h 0).Sound) (steps : ∀ k < n, Rework (h k) (h (k + 1))) {k : Nat}
    (inside : k ≤ n) : (h k).Sound := by
  induction k with
  | zero => exact sound
  | succ k ih => exact (steps k inside).sound (ih (Nat.le_of_succ_le inside))

/-- What each step of a history preserves holds between its modules. -/
theorem related_of_rework {R : Module → Module → Prop} (refl : ∀ m, R m m)
    (trans : ∀ m₁ m₂ m₃, R m₁ m₂ → R m₂ m₃ → R m₁ m₃)
    (step : ∀ k < n, R (h k) (h (k + 1))) {i j : Nat} (order : i ≤ j) (inside : j ≤ n) :
    R (h i) (h j) := by
  induction order with
  | refl => exact refl _
  | step order ih => exact trans _ _ _ (ih (Nat.le_of_succ_le inside)) (step _ inside)

/-- No method is woven twice.  Along every history of passes under any policies and of files that are
saved and loaded, the code of a method is replaced at most once, a pass leaves the methods alone that
are finished when it begins, none of them is forgotten, and another pass under a policy under which
there was one before does nothing: it skips all methods, and leaves the module as it is. -/
theorem woven_at_most_once (sound : (h 0).Sound) (steps : ∀ k < n, Rework (h k) (h (k + 1))) :
    (∀ token i j, i < n → j < n → (h (i + 1)).codeAt token ≠ (h i).codeAt token →
      (h (j + 1)).codeAt token ≠ (h j).codeAt token → i = j) ∧
    (∀ k < n, ∀ o summary, Yields (weavePass o) (h k) summary (h (k + 1)) →
      ∀ token ∈ (h k).finished, ∀ d, (h k).methodDefAt token = .ok d →
        (h (k + 1)).methodDefAt token = .ok d) ∧
    (∀ i j, i ≤ j → j ≤ n → (h i).finished ⊆ (h j).finished) ∧
    ∀ k < n, ∀ o summary, Yields (weavePass o) (h k) summary (h (k + 1)) →
      ∀ j, k < j → j ≤ n → ∃ count, Yields (weavePass o) (h j)
        { visited := count, woven := 0, skipped := count, sites := 0 } (h j) := by
  have sounds {k : Nat} (inside : k ≤ n) : (h k).Sound := sound_of_rework sound steps inside
  have grows {i j : Nat} (order : i ≤ j) (inside : j ≤ n) : (h i).finished ⊆ (h j).finished :=
    related_of_rework (R := fun m m' => m.finished ⊆ m'.finished) (fun _ => List.Subset.refl _)
      (fun _ _ _ => List.Subset.trans)
      (fun k inside => (steps k inside).finished_subset (sounds (Nat.le_of_lt inside))) order inside
  refine ⟨fun token i j insideI insideJ changedI changedJ => ?_, fun k inside o summary woven token
    done d found => ?_, fun i j => grows, fun k inside o summary woven j order within => ?_⟩
  · -- What becomes finished in one step cannot become finished in a later one.
    have apart {i j : Nat} (order : i < j) (inside : j < n)
        (changed : (h (i + 1)).codeAt token ≠ (h i).codeAt token) :
        (h (j + 1)).codeAt token = (h j).codeAt token := by
      by_contra again
      obtain ⟨-, done⟩ := (steps i (by omega)).finished_of_ne (sounds (by omega)) changed
      obtain ⟨fresh, -⟩ := (steps j inside).finished_of_ne (sounds (by omega)) again
      exact fresh (grows order (by omega) done)
    rcases Nat.lt_trichotomy i j with less | same | more
    · exact absurd (apart less insideJ changedI) changedJ
    · exact same
    · exact absurd (apart more insideI changedJ) changedI
  · exact methodDefAt_of_weavePass (sounds (Nat.le_of_lt inside)).small woven done found
  · -- Which methods may be woven does not change, so that all of them are finished by now.
    obtain ⟨-, methods, weavable, -, -⟩ := rewoven_of_weavePass (sounds (Nat.le_of_lt inside)).small woven
    have scope : (h k).SameScope (h j) := related_of_rework .refl (fun _ _ _ => .trans)
      (fun k inside => (steps k inside).sameScope (sounds (Nat.le_of_lt inside))) (Nat.le_of_lt order)
      within
    refine ⟨methods.length, weavePass_of_finished (sounds within).ordered
      (scope.weavableMethods weavable) fun token member => grows order within ?_⟩
    exact (mem_finished_of_weavePass (sounds (Nat.le_of_lt inside)).small woven weavable).mpr
      (.inl member)

end Histories

/-- The module with a call is saved and loaded, and then woven once, whatever the next pass is. -/
theorem woven_at_most_once_liveCall : ∃ h : Nat → Module, h 0 = liveCallModule ∧
    Rework (h 0) (h 1) ∧ (h 2).codeAt (.ofRow .methodDef 1) ≠ (h 1).codeAt (.ofRow .methodDef 1) ∧
    (h 3).codeAt (.ofRow .methodDef 1) = (h 2).codeAt (.ofRow .methodDef 1) ∧
    ∃ count, Yields (weavePass {}) (h 3)
      { visited := count, woven := 0, skipped := count, sites := 0 } (h 3) := by
  have pass := yields_weavePass_liveCall
  revert pass
  generalize result : ((weavePass {}).run.run liveCallModule).2 = m'
  intro pass
  have stored : (liveCallModule.encode.toOption.bind fun bytes => (Module.decode bytes).toOption) =
      some liveCallModule := by decide +kernel
  obtain ⟨bytes, written, read⟩ := Option.bind_eq_some_iff.mp stored
  rw [toOption_eq_some_iff] at written read
  have changes : m'.codeAt (.ofRow .methodDef 1) ≠ liveCallModule.codeAt (.ofRow .methodDef 1) := by
    rw [← result]
    decide +kernel
  let other : WeavePolicy := { constructions := false }
  have again : Yields (weavePass other) m' { visited := 2, woven := 0, skipped := 2, sites := 0 }
      ((weavePass other).run.run m').2 := by
    have done : ((weavePass other).run.run m').1 =
        .ok { visited := 2, woven := 0, skipped := 2, sites := 0 } := by
      rw [← result]
      decide +kernel
    exact Prod.ext done rfl
  let h (k : Nat) : Module :=
    if k < 2 then liveCallModule else if k = 2 then m' else ((weavePass other).run.run m').2
  have sound : liveCallModule.Sound := ⟨by decide, rfl, .nil⟩
  have steps (k : Nat) (inside : k < 3) : Rework (h k) (h (k + 1)) := by
    obtain rfl | rfl | rfl : k = 0 ∨ k = 1 ∨ k = 2 := by omega
    · exact .reload written read
    · exact .pass pass
    · exact .pass again
  obtain ⟨once, -, -, skips⟩ := woven_at_most_once sound steps
  refine ⟨h, rfl, steps 0 (by decide), changes, ?_,
    skips 1 (by decide) {} _ pass 3 (by decide) (by decide)⟩
  -- Two changes would have to be in one step.
  by_contra changed
  exact absurd (once _ 1 2 (by decide) (by decide) changes changed) (by decide)

end Interpose
