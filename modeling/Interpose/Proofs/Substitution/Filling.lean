import Interpose.Proofs.Outcome
import Interpose.Proofs.Substitution.Coverage

/-!
# How providers fill a call map

Providers only ever add entries behind those that are there, so what was found in a call map before is
found in it afterwards.  All but one kind of provider succeed on any map.  The strict one fails if a
method of another type is left without substitute, and names the first one.

## Main definitions

* `CallMap.Grows` — a call map has the entries of another one, and possibly more behind them
* `Provider.Fills` — a computation only adds entries

## Main results

* `Grows.substitute?_eq` — a call keeps its substitute
* `Provider.fills_populate` — providers only add entries, even if they fail
* `Provider.substitute?_single` — the calls that a rule for one method gives its substitute to
* `Provider.yields_strict_iff`, `Provider.fails_strict_iff` — when a strict provider succeeds, and how
  it fails
* `Provider.of_fails_populate` — a provider fails only because a call is left without substitute
-/

namespace Interpose

namespace CallMap

variable {map map' map'' : CallMap} {call : Method} {substitute : Substitute}

/-- A call map has the entries of another one, and possibly more behind them. -/
structure Grows (map map' : CallMap) : Prop where
  hierarchy : map'.hierarchy = map.hierarchy
  entries : map.entries.toList <+: map'.entries.toList

namespace Grows

theorem refl (map : CallMap) : map.Grows map := ⟨rfl, List.prefix_rfl⟩

theorem trans (first : map.Grows map') (second : map'.Grows map'') : map.Grows map'' :=
  ⟨second.hierarchy.trans first.hierarchy, first.entries.trans second.entries⟩

/-- A call keeps its substitute. -/
theorem substitute?_eq (grows : map.Grows map') (found : map.substitute? call = some substitute) :
    map'.substitute? call = some substitute := by
  obtain ⟨later, entries⟩ := grows.entries
  rw [CallMap.substitute?_eq] at found ⊢
  rw [grows.hierarchy, ← entries, List.find?_append, Option.map_or, found]
  rfl

/-- So a call that has a substitute goes on to have one. -/
theorem contains (grows : map.Grows map') (found : map.contains call = true) :
    map'.contains call = true := by
  obtain ⟨substitute, bound⟩ := Option.isSome_iff_exists.mp found
  exact Option.isSome_iff_exists.mpr ⟨substitute, grows.substitute?_eq bound⟩

end Grows

theorem grows_add (map : CallMap) (target : CallPattern) (substitute : Substitute) :
    map.Grows (map.add target substitute) :=
  ⟨rfl, ⟨_, Array.toList_push.symm⟩⟩

end CallMap

namespace DelegateTable

theorem grows_bindCalls (t : DelegateTable) (called : List Method) (map : CallMap) :
    map.Grows (t.bindCalls called map) := by
  unfold bindCalls
  induction called generalizing map with
  | nil => exact .refl map
  | cons method rest ih =>
    rw [List.foldl_cons]
    refine CallMap.Grows.trans ?_ (ih _)
    unfold bindCall
    split
    · exact map.grows_add _ _
    · exact .refl map

end DelegateTable

namespace Provider

variable {α β : Type} {caller : Caller} {map map' : CallMap} {error : Error}

/-- Whatever a computation does with a call map, and even if it fails, it only adds entries. -/
def Fills (x : Populate α) : Prop := ∀ map : CallMap, map.Grows (x.run.run map).2

theorem fills_pure (a : α) : Fills (pure a) := fun map => .refl map

theorem fills_throw (error : Error) : Fills (throw error : Populate α) := fun map => .refl map

theorem fills_get : Fills get := fun map => .refl map

theorem fills_modify {f : CallMap → CallMap} (grows : ∀ map : CallMap, map.Grows (f map)) :
    Fills (modify f) :=
  grows

theorem Fills.bind {x : Populate α} {k : α → Populate β} (first : Fills x)
    (rest : ∀ a, Fills (k a)) : Fills (x >>= k) := by
  intro map
  have grows := first map
  rw [ExceptT.run_bind, StateT.run_bind]
  rcases outcome : x.run.run map with ⟨result, reached⟩
  rw [outcome] at grows
  cases result with
  | ok a => exact grows.trans (rest a reached)
  | error e => exact grows

theorem Fills.grows {x : Populate α} {a : α} (fills : Fills x) (done : Yields x map a map') :
    map.Grows map' := by
  have outcome : x.run.run map = (.ok a, map') := done
  have grows := fills map
  rw [outcome] at grows
  exact grows

mutual

/-- A provider only adds entries. -/
theorem fills_populate (caller : Caller) (provider : Provider) : Fills (populate provider caller) := by
  cases provider with
  | single target substitute =>
    rw [populate, populateSingle]
    apply fills_modify
    intro map
    split
    · split
      · exact map.grows_add _ _
      · exact .refl map
    · exact .refl map
  | filter selects substitute =>
    rw [populate, populateFilter]
    apply fills_modify
    intro map
    split
    · exact map.grows_add _ _
    · exact .refl map
  | table contents =>
    rw [populate]
    exact fills_modify (contents.grows_bindCalls caller.intercepted)
  | strict typeUnderTest contents =>
    rw [populate, populateStrict]
    -- All entries are added before a method is found to have none.
    refine (fills_modify (contents.grows_bindCalls _)).bind fun _ => fills_get.bind fun map => ?_
    split
    · exact fills_throw _
    · exact fills_pure ()
  | composite members =>
    rw [populate]
    exact fills_populateAll caller members

theorem fills_populateAll (caller : Caller) (providers : List Provider) :
    Fills (populateAll providers caller) := by
  cases providers with
  | nil =>
    rw [populateAll]
    exact fills_pure ()
  | cons provider rest =>
    rw [populateAll]
    exact (fills_populate caller provider).bind fun _ => fills_populateAll caller rest

end

/-- A rule for one method gives its substitute to the calls that the method it binds covers. -/
theorem substitute?_single {h : Hierarchy} {id : Nat} {target : Method} {substitute : Substitute}
    (done : Yields (populate (single target substitute) caller) { hierarchy := h, id } () map)
    (call : Method) : map.substitute? call = some substitute ↔
      ∃ bound, bound? h target caller.intercepted = some bound ∧ fits h substitute bound = true ∧
        bound.covers h call = true := by
  rw [populate, populateSingle, yields_modify] at done
  dsimp only at done
  subst done
  rw [CallMap.substitute?_eq]
  cases bound? h target caller.intercepted with
  | none => simp
  | some bound =>
    cases fitting : fits h substitute bound with
    | false => simp [fitting]
    | true =>
      cases covered : bound.covers h call <;>
        simp [CallMap.bindMethod, CallMap.add, CallEntry.claims_exact, fitting, covered]

/-- A filter is added if it selects one of the calls. -/
theorem yields_filter {selects : Method → Bool} {substitute : Substitute} :
    Yields (populate (filter selects substitute) caller) map () map' ↔
      (if caller.intercepted.any selects then map.bindMatching selects substitute else map) =
        map' := by
  rw [populate, populateFilter, yields_modify]

/-- The entries of a table are added one after the other. -/
theorem yields_table {contents : DelegateTable} :
    Yields (populate (.table contents) caller) map () map' ↔
      contents.bindCalls caller.intercepted map = map' := by
  rw [populate, yields_modify]

/-- Providers in front of others are done first. -/
theorem populateAll_append (before after : List Provider) (caller : Caller) :
    populateAll (before ++ after) caller =
      populateAll before caller >>= fun _ => populateAll after caller := by
  induction before with
  | nil => rfl
  | cons provider rest ih => rw [List.cons_append, populateAll, populateAll, ih, bind_assoc]

/-- A provider among others fills the map that those in front of it leave. -/
theorem yields_composite_iff {before after : List Provider} {provider : Provider} :
    Yields (populate (composite (before ++ provider :: after)) caller) map () map' ↔
      ∃ reached filled, Yields (populateAll before caller) map () reached ∧
        Yields (populate provider caller) reached () filled ∧
        Yields (populateAll after caller) filled () map' := by
  rw [populate, populateAll_append, populateAll, yields_bind]
  constructor
  · rintro ⟨⟨⟩, reached, front, rest⟩
    obtain ⟨⟨⟩, filled, own, back⟩ := yields_bind.mp rest
    exact ⟨reached, filled, front, own, back⟩
  · rintro ⟨reached, filled, front, own, back⟩
    exact ⟨(), reached, front, own.bind back⟩

section Strict

variable {typeUnderTest : Ty} {table : DelegateTable}

/-- A strict provider succeeds just if all methods of other types have a substitute afterwards. -/
theorem yields_strict_iff :
    Yields (populate (strict typeUnderTest table) caller) map () map' ↔
      table.bindCalls (caller.intercepted.filter (isForeign typeUnderTest)) map = map' ∧
        ∀ called ∈ caller.intercepted.filter (isForeign typeUnderTest),
          map'.contains called = true := by
  rw [populate, populateStrict, yields_modify_bind, yields_get_bind]
  split
  next missing found =>
    rw [yields_throw, false_iff]
    rintro ⟨rfl, bound⟩
    have unbound := List.find?_some found
    rw [bound missing (List.mem_of_find?_eq_some found)] at unbound
    cases unbound
  next found =>
    rw [yields_pure, and_iff_right rfl]
    refine (and_iff_left_of_imp ?_).symm
    rintro rfl
    simpa using found

/-- A strict provider fails just if a method of another type has no substitute even then, and names the
first such method. -/
theorem fails_strict_iff :
    Fails (populate (strict typeUnderTest table) caller) map error map' ↔
      table.bindCalls (caller.intercepted.filter (isForeign typeUnderTest)) map = map' ∧
        ∃ front missing back,
          caller.intercepted.filter (isForeign typeUnderTest) = front ++ missing :: back ∧
          (∀ called ∈ front, map'.contains called = true) ∧ map'.contains missing = false ∧
          error = .missingMock missing.declaringType.text missing.name := by
  rw [populate, populateStrict, fails_modify_bind, fails_get_bind]
  split
  next missing found =>
    obtain ⟨unbound, front, back, split, bound⟩ := List.find?_eq_some_iff_append.mp found
    rw [fails_throw]
    constructor
    · rintro ⟨rfl, rfl⟩
      exact ⟨rfl, front, missing, back, split, by simpa using bound, by simpa using unbound, rfl⟩
    · rintro ⟨rfl, front', missing', back', split', bound', unbound', rfl⟩
      -- Both are the first of the methods that have no substitute.
      rw [List.find?_eq_some_iff_append.mpr
        ⟨by simpa using unbound', front', back', split', by simpa using bound'⟩] at found
      obtain rfl : missing' = missing := Option.some.inj found
      exact ⟨rfl, rfl⟩
  next found =>
    refine iff_of_false not_fails_pure ?_
    rintro ⟨rfl, front, missing, back, split, -, unbound, -⟩
    have bound := List.find?_eq_none.mp found missing (by simp [split])
    simp [unbound] at bound

end Strict

mutual

/-- A provider fails only because one of the calls is left without substitute, and names it. -/
theorem of_fails_populate {map : CallMap} {provider : Provider}
    (fails : Fails (populate provider caller) map error map') :
    ∃ missing ∈ caller.intercepted, map'.contains missing = false ∧
      error = .missingMock missing.declaringType.text missing.name := by
  cases provider with
  | single target substitute => exact absurd fails not_fails_modify
  | filter selects substitute => exact absurd fails not_fails_modify
  | table contents => exact absurd fails not_fails_modify
  | strict typeUnderTest contents =>
    obtain ⟨-, front, missing, back, split, -, unbound, named⟩ := fails_strict_iff.mp fails
    have external : missing ∈ caller.intercepted.filter (isForeign typeUnderTest) := by simp [split]
    exact ⟨missing, List.mem_of_mem_filter external, unbound, named⟩
  | composite members =>
    rw [populate] at fails
    exact of_fails_populateAll fails

theorem of_fails_populateAll {map : CallMap} {providers : List Provider}
    (fails : Fails (populateAll providers caller) map error map') :
    ∃ missing ∈ caller.intercepted, map'.contains missing = false ∧
      error = .missingMock missing.declaringType.text missing.name := by
  cases providers with
  | nil => exact absurd fails not_fails_pure
  | cons provider rest =>
    rw [populateAll, fails_bind] at fails
    obtain first | ⟨-, reached, -, later⟩ := fails
    · exact of_fails_populate first
    · exact of_fails_populateAll later

end

end Provider

end Interpose
