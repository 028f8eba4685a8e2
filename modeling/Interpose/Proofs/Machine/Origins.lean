import Interpose.Proofs.Machine.Rules
import Interpose.Proofs.Substitution.Filling

/-!
# Where substitutes come from

What may run in place of a call is what was registered: the substitutes of the providers, and the
delegates of their tables.  Call maps bind nothing else, and running code brings in nothing new.

## Main definitions

* `Provider.Supplies` — what a provider may bind to a call
* `Rules.Supplies` — what may run in place of a call while rules are in force
* `Provider.Draws` — a computation takes what it adds to a call map from a provider
* `SuppliesNoMore` — nothing new may run in place of a call

## Main results

* `Provider.draws_populate` — providers bind only what they supply
* `Rules.supplies_of_publishedMap` — so do the call maps that are published
-/

namespace Interpose

/-- All delegates of a table. -/
def DelegateTable.delegates (t : DelegateTable) : List Delegate :=
  t.methods.map Prod.snd ++ t.staticMethods.map Prod.snd ++ t.constructors

/-- What a provider may bind to a call. -/
inductive Provider.Supplies (invoke : CallContext → Act Value) : Provider → Prop
  | single {target : Method} {substitute : Substitute} : substitute.invoke = invoke →
      Supplies invoke (.single target substitute)
  | filter {selects : Method → Bool} {substitute : Substitute} : substitute.invoke = invoke →
      Supplies invoke (.filter selects substitute)
  | table {contents : DelegateTable} {d : Delegate} : d ∈ contents.delegates → d.invoke = invoke →
      Supplies invoke (.table contents)
  | strict {typeUnderTest : Ty} {contents : DelegateTable} {d : Delegate} :
      d ∈ contents.delegates → d.invoke = invoke → Supplies invoke (.strict typeUnderTest contents)
  | composite {members : List Provider} {member : Provider} : member ∈ members →
      Supplies invoke member → Supplies invoke (.composite members)

/-- What a call map binds to a call. -/
def CallMap.Supplies (invoke : CallContext → Act Value) (map : CallMap) : Prop :=
  ∃ entry ∈ map.entries, entry.substitute.invoke = invoke

/-- What may run in place of a call while rules are in force. -/
inductive Rules.Supplies (invoke : CallContext → Act Value) (r : Rules) : Prop
  | binder {provider : Provider} : provider ∈ r.binders → provider.Supplies invoke →
      Supplies invoke r
  | provider {provider : Provider} : provider ∈ r.providers → provider.Supplies invoke →
      Supplies invoke r
  | map {map : CallMap} : map ∈ r.publication.maps → map.Supplies invoke → Supplies invoke r

section Tables

variable {t : DelegateTable} {method : Method} {d : Delegate} {invoke : CallContext → Act Value}

theorem DelegateTable.mem_delegates_of_candidates (h : d ∈ t.candidates method) :
    d ∈ t.delegates := by
  have named {delegates : List (String × Delegate)}
      (h : d ∈ delegates.filterMap fun entry =>
        if entry.1 = method.name then some entry.2 else none) : d ∈ delegates.map Prod.snd := by
    obtain ⟨⟨name, other⟩, listed, kept⟩ := List.mem_filterMap.mp h
    obtain ⟨-, same⟩ := Option.ite_none_right_eq_some.mp kept
    exact List.mem_map.mpr ⟨(name, other), listed, Option.some.inj same⟩
  unfold candidates at h
  unfold delegates
  simp only [List.mem_append]
  dsimp only at h
  split at h
  · exact .inr h
  · split at h
    · exact .inl (.inr (named h))
    · exact .inl (.inl (named h))

theorem DelegateTable.mem_delegates_of_choose? {h : Hierarchy} (chosen : t.choose? h method = some d) :
    d ∈ t.delegates := by
  obtain ⟨best, -, found⟩ := Option.bind_eq_some_iff.mp chosen
  exact mem_delegates_of_candidates (List.mem_of_getElem? found)

theorem CallMap.supplies_add {map : CallMap} {target : CallPattern} {substitute : Substitute} :
    (map.add target substitute).Supplies invoke ↔
      map.Supplies invoke ∨ substitute.invoke = invoke := by
  simp only [Supplies, add, Array.mem_push, or_and_right, exists_or, exists_eq_left]

/-- The entries of a table are its delegates. -/
theorem DelegateTable.supplies_bindCalls {called : List Method} {map : CallMap}
    (h : (t.bindCalls called map).Supplies invoke) :
    map.Supplies invoke ∨ ∃ d ∈ t.delegates, d.invoke = invoke := by
  unfold bindCalls at h
  induction called generalizing map with
  | nil => exact .inl h
  | cons method rest ih =>
    rcases ih h with before | known
    · unfold bindCall at before
      split at before
      case h_1 d chosen =>
        exact (CallMap.supplies_add.mp before).imp_right
          fun same => ⟨d, mem_delegates_of_choose? chosen, same⟩
      case h_2 => exact .inl before
    · exact .inr known

end Tables

namespace Provider

variable {S : (CallContext → Act Value) → Prop} {α β : Type} {caller : Caller}

/-- Whatever a computation does with a call map, what it binds is among some functions. -/
def Draws (S : (CallContext → Act Value) → Prop) (x : Populate α) : Prop :=
  ∀ map invoke, (x.run.run map).2.Supplies invoke → map.Supplies invoke ∨ S invoke

theorem draws_modify {f : CallMap → CallMap}
    (h : ∀ map invoke, (f map).Supplies invoke → map.Supplies invoke ∨ S invoke) :
    Draws S (modify f) := h

theorem Draws.bind {x : Populate α} {k : α → Populate β} (first : Draws S x)
    (rest : ∀ a, Draws S (k a)) : Draws S (x >>= k) := by
  intro map invoke supplies
  have before := first map invoke
  rw [ExceptT.run_bind, StateT.run_bind] at supplies
  rcases outcome : x.run.run map with ⟨result, reached⟩
  rw [outcome] at supplies before
  cases result with
  | ok a => exact (rest a reached invoke supplies).elim before .inr
  | error e => exact before supplies

theorem Draws.mono {S' : (CallContext → Act Value) → Prop} {x : Populate α} (h : Draws S x)
    (sub : ∀ invoke, S invoke → S' invoke) : Draws S' x :=
  fun map invoke supplies => (h map invoke supplies).imp_right (sub invoke)

mutual

/-- A provider binds only what it supplies. -/
theorem draws_populate (caller : Caller) (provider : Provider) :
    Draws (provider.Supplies ·) (populate provider caller) := by
  cases provider with
  | single target substitute =>
    rw [populate, populateSingle]
    refine draws_modify fun map invoke supplies => ?_
    split at supplies
    · split at supplies
      · exact (CallMap.supplies_add.mp supplies).imp_right .single
      · exact .inl supplies
    · exact .inl supplies
  | filter selects substitute =>
    rw [populate, populateFilter]
    refine draws_modify fun map invoke supplies => ?_
    split at supplies
    · exact (CallMap.supplies_add.mp supplies).imp_right .filter
    · exact .inl supplies
  | table contents =>
    rw [populate]
    exact draws_modify fun map invoke supplies =>
      (DelegateTable.supplies_bindCalls supplies).imp_right fun ⟨_, listed, same⟩ => .table listed same
  | strict typeUnderTest contents =>
    rw [populate, populateStrict]
    refine Draws.bind (draws_modify fun map invoke supplies =>
      (DelegateTable.supplies_bindCalls supplies).imp_right
        fun ⟨_, listed, same⟩ => .strict listed same) fun _ => .bind (fun _ _ => .inl) fun map => ?_
    split
    · exact fun _ _ => .inl
    · exact fun _ _ => .inl
  | composite members =>
    rw [populate]
    exact (draws_populateAll caller members).mono fun invoke ⟨_, listed, supplies⟩ =>
      .composite listed supplies

theorem draws_populateAll (caller : Caller) (providers : List Provider) :
    Draws (fun invoke => ∃ provider ∈ providers, provider.Supplies invoke)
      (populateAll providers caller) := by
  cases providers with
  | nil =>
    rw [populateAll]
    exact fun _ _ => .inl
  | cons provider rest =>
    rw [populateAll]
    refine ((draws_populate caller provider).mono ?_).bind fun _ =>
      (draws_populateAll caller rest).mono ?_
    · exact fun invoke supplies => ⟨provider, .head _, supplies⟩
    · exact fun invoke ⟨other, listed, supplies⟩ => ⟨other, .tail _ listed, supplies⟩

end

end Provider

namespace Rules

variable {r : Rules} {invoke : CallContext → Act Value}

/-- A combination of what is registered supplies nothing new. -/
theorem supplies_of_chooseProvider {callingInstance : Value} {declaringType : Ty}
    (h : ((Intercept.chooseProvider callingInstance declaringType).run.run r).2.Supplies invoke) :
    r.Supplies invoke := by
  rcases r.chooseProvider_cases callingInstance declaringType with same | added
  · exact same ▸ h
  · rw [added] at h
    cases h with
    | binder listed supplies => exact .binder listed supplies
    | provider listed supplies =>
      rcases Array.mem_push.mp listed with known | rfl
      · exact .provider known supplies
      · cases supplies with
        | composite listed supplies => exact .binder listed supplies
    | map listed supplies => exact .map listed supplies

/-- A call map binds what the provider supplies that makes it. -/
theorem supplies_of_populated {source : Provider} {caller : Caller} {hierarchy : Hierarchy} {id : Nat}
    {map : CallMap} (made : Intercept.populated source caller hierarchy id = .ok map)
    (h : map.Supplies invoke) : source.Supplies invoke := by
  unfold Intercept.populated at made
  split at made
  case h_1 filled ran =>
    obtain rfl := Except.ok.inj made
    have drawn := Provider.draws_populate caller source { hierarchy, id } invoke
    rw [show (source.populate caller).run.run { hierarchy, id } = _ from ran] at drawn
    rcases drawn h with ⟨entry, listed, -⟩ | supplies
    · simp at listed
    · exact supplies
  case h_2 => cases made

/-- A provider without number supplies nothing. -/
theorem supplies_of_numbered {provider : Nat}
    (h : ((r.providers[provider]?).getD (.composite [])).Supplies invoke) : r.Supplies invoke := by
  cases known : r.providers[provider]? with
  | none =>
    rw [known] at h
    cases h with
    | composite listed _ => cases listed
  | some source =>
    rw [known] at h
    exact .provider (Array.mem_of_getElem? known) h

/-- A call map that is published binds what its provider supplies. -/
theorem supplies_of_publishedMap {provider : Nat} {caller : Caller} {hierarchy : Hierarchy}
    (h : ((Intercept.publishedMap provider caller hierarchy).run.run r).2.Supplies invoke) :
    r.Supplies invoke := by
  let source := (r.providers[provider]?).getD (.composite [])
  have published : ((Intercept.publishedMap provider caller hierarchy).run.run r).2 =
      { r with publication := (r.publication.publish caller.host
        (Intercept.populated source caller hierarchy)).2 } := rfl
  rw [published] at h
  rcases r.publication.publish_cases caller.host (Intercept.populated source caller hierarchy) with
    ⟨id, -, result⟩ | ⟨-, ⟨map, made, result⟩ | ⟨e, -, result⟩⟩
  · rwa [result] at h
  · rw [result] at h
    cases h with
    | binder listed supplies => exact .binder listed supplies
    | provider listed supplies => exact .provider listed supplies
    | map listed supplies =>
      rcases Array.mem_push.mp listed with known | rfl
      · exact .map known supplies
      · exact supplies_of_numbered (supplies_of_populated made supplies)
  · rwa [result] at h

end Rules

/-- What may run in place of a call in one state might have run in the other one. -/
def SuppliesNoMore (s s' : MachineState) : Prop :=
  ∀ invoke, s'.rules.Supplies invoke → s.rules.Supplies invoke

instance : Lasting SuppliesNoMore where
  refl _ _ := id
  trans h h' invoke supplies := h invoke (h' invoke supplies)
  store _ _ _ := id
  statics _ _ _ := id
  provider _ _ _ _ := Rules.supplies_of_chooseProvider
  callMap _ _ _ _ _ := Rules.supplies_of_publishedMap
  executed _ _ := id
  callStack _ _ _ := id

end Interpose
