import Interpose.Proofs.Substitution.Filling
import Interpose.Proofs.Substitution.Instances
import Interpose.Proofs.Substitution.Population

/-!
# Strict providers

A strict provider is meant for the test of one type: whatever the methods of this type call of other
types has to have a substitute, and the calls of its own methods are to run as they are.  The first is
so, whatever other providers there are.  The second is not quite: an entry for a method of another type
is also for the calls of that name that belong to a type below it, and the type under test may be one.

## Main results

* `Provider.strict_is_complete` — if a strict provider has its turn, every external call has a
  substitute in the end, or the first one without is reported and no call map is published
* `Provider.contains_strict_own` — which calls of the type under test and of the root have a substitute
* `Provider.not_forall_own_is_left_alone` — some do have one
-/

namespace Interpose

namespace Provider

variable {h : Hierarchy} {id : Nat} {caller : Caller} {before after : List Provider}
  {typeUnderTest : Ty} {table : DelegateTable}

/-- If the providers around a strict one succeed, every external call has a substitute in the end. -/
theorem contains_external {map map' : CallMap}
    (done : Yields (populate (composite (before ++ strict typeUnderTest table :: after)) caller) map ()
      map')
    {called : Method} (member : called ∈ caller.intercepted)
    (foreign : isForeign typeUnderTest called = true) : map'.contains called = true := by
  obtain ⟨reached, filled, -, strictly, later⟩ := yields_composite_iff.mp done
  have bound := (yields_strict_iff.mp strictly).2 called (List.mem_filter.mpr ⟨member, foreign⟩)
  -- The providers behind the strict one add entries, which take nothing away.
  exact ((fills_populateAll caller after).grows later).contains bound

/-- If a strict provider has its turn among others, every external call has a substitute in the end, or
the first one without is reported and no call map is published. -/
theorem strict_is_complete (h : Hierarchy) (id : Nat) (caller : Caller)
    (before after : List Provider) (typeUnderTest : Ty) (table : DelegateTable) :
    let mocker := strict typeUnderTest table
    let all := composite (before ++ mocker :: after)
    let start : CallMap := { hierarchy := h, id }
    (∀ map, Yields (all.populate caller) start () map →
      ∀ called ∈ caller.intercepted, isForeign typeUnderTest called = true →
        map.contains called = true) ∧
    (∀ reached error map, Yields (populateAll before caller) start () reached →
      Fails (mocker.populate caller) reached error map →
        (∃ front missing back,
          caller.intercepted.filter (isForeign typeUnderTest) = front ++ missing :: back ∧
          (∀ called ∈ front, map.contains called = true) ∧ map.contains missing = false ∧
          error = .missingMock missing.declaringType.text missing.name) ∧
        Fails (all.populate caller) start error map ∧
        ∀ (rules : Rules) (number : Nat), rules.providers[number]? = some all →
          rules.publication.maps.size = id → rules.publication.get? caller.host = none →
          Fails (Intercept.publishedMap number caller h) rules error rules) := by
  intro mocker all start
  constructor
  · intro map done called member foreign
    exact contains_external done member foreign
  · intro reached error map front fails
    -- The providers in front of the strict one run through, and the ones behind it do not run.
    have failing : Fails (all.populate caller) start error map := by
      unfold all
      rw [populate, populateAll_append, fails_bind]
      refine .inr ⟨(), reached, front, ?_⟩
      rw [populateAll, fails_bind]
      exact .inl fails
    refine ⟨(fails_strict_iff.mp fails).2, failing, ?_⟩
    intro rules number known size absent
    apply Intercept.fails_publishedMap known absent
    rw [size]
    exact failing

/-- The type under test. -/
def serviceType : Ty := .classType "Demo.Service"

/-- A method of another type. -/
def logMethod : Method where
  declaringType := .classType "Demo.Logger"
  name := "Log"

/-- A table with a delegate that stands in for methods of its name. -/
def logTable : DelegateTable where
  methods := [("Log", { signature := Delegate.shape [] .void, body := fun _ _ => return .null })]

/-- The table has a delegate for the only call of another type. -/
private theorem yields_strict_log (h : Hierarchy) {caller : Caller}
    (external : caller.intercepted.filter (isForeign serviceType) = [logMethod]) :
    Yields (populate (strict serviceType logTable) caller) { hierarchy := h } ()
      (logTable.bindCalls [logMethod] { hierarchy := h }) := by
  have bound : (logTable.bindCalls [logMethod] { hierarchy := h }).contains logMethod = true := by
    rw [DelegateTable.contains_bindCalls, CallMap.contains_empty]
    rfl
  rw [yields_strict_iff, external]
  simpa using bound

/-- Without a delegate for it, the call is reported. -/
private theorem fails_strict_log (h : Hierarchy) {caller : Caller}
    (external : caller.intercepted.filter (isForeign serviceType) = [logMethod]) :
    Fails (populate (strict serviceType {}) caller) { hierarchy := h }
      (.missingMock "Demo.Logger" "Log") { hierarchy := h } := by
  rw [fails_strict_iff, external]
  exact ⟨rfl, [], logMethod, [], rfl, by simp, CallMap.contains_empty h 0 logMethod, rfl⟩

theorem strict_is_complete_log :
    (∃ map, Yields ((composite [filter (·.isStatic) returnNull, strict serviceType logTable,
        filter (·.isConstructor) returnNull]).populate (callerOf logMethod))
        { hierarchy := .unknown } () map ∧ map.contains logMethod = true) ∧
      ∃ map rules, Fails ((composite [filter (·.isStatic) returnNull, strict serviceType {},
        filter (·.isConstructor) returnNull]).populate (callerOf logMethod))
        { hierarchy := .unknown } (.missingMock "Demo.Logger" "Log") map ∧
        Fails (Intercept.publishedMap 0 (callerOf logMethod) .unknown) rules
          (.missingMock "Demo.Logger" "Log") rules := by
  have complete := strict_is_complete .unknown 0 (callerOf logMethod)
    [filter (·.isStatic) returnNull] [filter (·.isConstructor) returnNull] serviceType
  have external : (callerOf logMethod).intercepted.filter (isForeign serviceType) = [logMethod] := by
    decide
  -- Neither of the two filters selects the call.
  have front : Yields (populateAll [filter (·.isStatic) returnNull] (callerOf logMethod))
      { hierarchy := .unknown } () { hierarchy := .unknown } :=
    yields_filter.mpr rfl
  have back : Yields (populateAll [filter (·.isConstructor) returnNull] (callerOf logMethod))
      (logTable.bindCalls [logMethod] { hierarchy := .unknown }) () _ :=
    yields_filter.mpr rfl
  constructor
  · have done := yields_composite_iff.mpr ⟨_, _, front, yields_strict_log .unknown external, back⟩
    exact ⟨_, done, (complete logTable).1 _ done logMethod (by decide) (by decide)⟩
  · obtain ⟨-, fails, traceless⟩ := (complete {}).2 _ _ _ front (fails_strict_log .unknown external)
    exact ⟨_, { providers := #[_] }, fails, traceless _ 0 rfl rfl rfl⟩

/-- A method that the type under test or the root declares has a substitute just if there is one of
another type with a delegate, from which it takes it over: a method of the same name that can stand in
for it, of a type that the declaring type can be held as.  Only a type of the name of the root can do
without the last. -/
theorem contains_strict_own (h : Hierarchy) (id : Nat) (caller : Caller) (typeUnderTest : Ty)
    (table : DelegateTable) (map : CallMap) (call : Method)
    (done : Yields (populate (strict typeUnderTest table) caller) { hierarchy := h, id } () map)
    (own : isForeign typeUnderTest call = false) :
    map.contains call = true ↔ ∃ bound ∈ caller.intercepted,
      isForeign typeUnderTest bound = true ∧ (table.choose? h bound).isSome = true ∧
      bound.name = call.name ∧ bound.canReplace h call = true ∧
      (bound.declaringType.assignableFrom h call.declaringType = true ∨
        call.declaringType = .object ∧ bound.declaringType.typeName = Ty.object.typeName) := by
  obtain ⟨rfl, -⟩ := yields_strict_iff.mp done
  have reached (bound : Method) (foreign : isForeign typeUnderTest bound = true) :
      reaches h bound call = true ↔
        bound.declaringType.assignableFrom h call.declaringType = true ∨
          call.declaringType = .object ∧ bound.declaringType.typeName = Ty.object.typeName := by
    simp only [isForeign, reaches, Bool.and_eq_true, Bool.and_eq_false_iff, Bool.or_eq_true,
      decide_eq_true_eq, decide_eq_false_iff_not, not_not] at foreign own ⊢
    constructor
    · rintro (named | held)
      · -- A method of another type does not have the name of the type under test.
        obtain same | root := own
        · exact absurd (named.symm.trans same) foreign.1
        · exact .inr ⟨root, by rw [← named, root]⟩
      · exact .inl held
    · rintro (held | ⟨root, named⟩)
      · exact .inr held
      · exact .inl (by rw [root, named])
  rw [DelegateTable.contains_bindCalls, CallMap.contains_empty, Bool.false_or]
  simp only [List.any_filter, List.any_eq_true, Method.covers, Bool.and_eq_true, decide_eq_true_eq]
  apply exists_congr
  intro bound
  apply and_congr_right'
  constructor
  · rintro ⟨foreign, chosen, ⟨named, reaches⟩, replaces⟩
    exact ⟨foreign, chosen, named, replaces, (reached bound foreign).mp reaches⟩
  · rintro ⟨foreign, chosen, named, replaces, above⟩
    exact ⟨foreign, chosen, ⟨named, (reached bound foreign).mpr above⟩, replaces⟩

/-- The hierarchy in which the type of `logMethod` is the base type of the type under test. -/
def derivedService : Hierarchy where
  base type := if type = serviceType then some logMethod.declaringType else none
  interfaces _ := []

/-- The type under test declares a method of the same name. -/
def ownLog : Method := { logMethod with declaringType := serviceType }

/-- A method that calls both. -/
def logCaller : Caller := { callerOf logMethod with intercepted := [logMethod, ownLog] }

private theorem external_logCaller :
    logCaller.intercepted.filter (isForeign serviceType) = [logMethod] := by
  decide

theorem contains_strict_own_log :
    isForeign serviceType ownLog = false ∧
      ∃ map, Yields (populate (strict serviceType logTable) logCaller)
        { hierarchy := derivedService } () map ∧ map.contains ownLog = true := by
  have done := yields_strict_log derivedService external_logCaller
  refine ⟨by decide, _, done, ?_⟩
  rw [contains_strict_own derivedService 0 logCaller serviceType logTable _ ownLog done (by decide)]
  exact ⟨logMethod, by decide, by decide, by decide, rfl, by decide, .inl (by decide)⟩

/-- It is not so that the calls of the type under test and of the root have no substitute. -/
theorem not_forall_own_is_left_alone :
    ¬ ∀ (h : Hierarchy) (id : Nat) (caller : Caller) (typeUnderTest : Ty) (table : DelegateTable)
      (map : CallMap),
      Yields (populate (strict typeUnderTest table) caller) { hierarchy := h, id } () map →
        ∀ call : Method, call.declaringType.typeName = typeUnderTest.typeName ∨
          call.declaringType = .object → map.contains call = false := by
  intro always
  have alone := always derivedService 0 logCaller serviceType logTable _
    (yields_strict_log derivedService external_logCaller) ownLog (.inl rfl)
  -- The entry for the method of the base type is for the method of the type under test as well.
  rw [DelegateTable.contains_bindCalls, CallMap.contains_empty] at alone
  revert alone
  decide

end Provider

end Interpose
