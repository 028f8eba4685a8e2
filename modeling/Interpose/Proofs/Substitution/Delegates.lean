import Interpose.Proofs.Module.Hierarchy
import Interpose.Proofs.Substitution.Filling
import Interpose.Proofs.Substitution.Instances

/-!
# What delegates are given

A delegate is bound to a call that it takes the arguments of, but the entry is for other calls as well:
for those that the bound method takes the arguments of.  If assignability is transitive, the delegate
takes their arguments too, so it never gets arguments that it did not declare.

## Main definitions

* `Substitute.Runs` — a substitute runs a delegate
* `Provider.BindsDelegates` — a provider binds methods to delegates one by one
* `CallEntry.Typed`, `CallMap.Typed` — the delegate of an entry takes the arguments of its method

## Main results

* `Method.Takes.trans` — what takes the arguments of a method takes what that takes
* `CallMap.Typed.populate` — such providers keep a call map typed
* `CallMap.Typed.populateEach` — so do any number of them
* `delegates_take_their_arguments` — a call map gives a call no delegate that does not take its arguments
-/

namespace Interpose

variable {h : Hierarchy} {map : CallMap}

namespace Method

/-- No parameter mentions a type parameter. -/
def IsClosed (m : Method) : Prop := ∀ type ∈ m.parameters, type.isOpen = false

instance (m : Method) : Decidable m.IsClosed := inferInstanceAs (Decidable (∀ type ∈ m.parameters, _))

/-- Type arguments do not change the parameters of a closed method. -/
theorem parameters_instantiate {m : Method} (closed : m.IsClosed) (arguments : List Ty) :
    (m.instantiate arguments).parameters = m.parameters := by
  calc m.parameters.map (Ty.instantiate [] arguments)
      = m.parameters.map id := List.map_congr_left fun type member =>
        Ty.instantiate_of_not_isOpen [] arguments type (closed type member)
    _ = m.parameters := List.map_id _

/-- A closed method takes the arguments of each call that it can stand in for. -/
theorem takes_of_canReplace {m call : Method} (closed : m.IsClosed)
    (replaces : m.canReplace h call = true) : m.Takes h call := by
  obtain ⟨instantiated, closes, takes, -⟩ := canReplace_iff.mp replaces
  obtain rfl | rfl := Requirements.eq_or_eq_of_close? closes
  · exact takes
  · rw [Takes, parameters_instantiate closed] at takes
    exact takes

/-- What takes the arguments of a method takes what that takes. -/
theorem Takes.trans (undefined : h.LeavesUndefined) (few : ∀ type, h.FewAbove type) {a b c : Method}
    (closedA : a.IsClosed) (closedB : b.IsClosed) (closedC : c.IsClosed) (ab : a.Takes h b)
    (bc : b.Takes h c) : a.Takes h c := by
  obtain ⟨lengthAB, positionsAB⟩ := List.forall₂_iff_get.mp ab
  obtain ⟨lengthBC, positionsBC⟩ := List.forall₂_iff_get.mp bc
  refine List.forall₂_iff_get.mpr ⟨lengthBC.trans lengthAB, ?_⟩
  intro i inC inA
  have inB : i < b.parameters.length := lengthBC ▸ inC
  exact Ty.assignableFrom_trans undefined few _ _ _ (closedA _ (List.get_mem ..))
    (closedB _ (List.get_mem ..)) (closedC _ (List.get_mem ..)) (positionsAB i inB inA)
    (positionsBC i inC inB)

end Method

namespace Substitute

/-- A substitute runs a delegate, whatever identifies it. -/
def Runs (s : Substitute) (d : Delegate) : Prop :=
  s = { d.toSubstitute with identity := s.identity }

theorem Runs.signature_eq {s : Substitute} {d : Delegate} (runs : s.Runs d) :
    s.signature = some d.signature := by
  rw [runs]
  rfl

end Substitute

/-- All delegates of a table are closed. -/
def DelegateTable.IsClosed (t : DelegateTable) : Prop :=
  (∀ entry ∈ t.methods, entry.2.signature.IsClosed) ∧
    (∀ entry ∈ t.staticMethods, entry.2.signature.IsClosed) ∧
    ∀ d ∈ t.constructors, d.signature.IsClosed

theorem DelegateTable.IsClosed.of_mem {t : DelegateTable} (closed : t.IsClosed) {method : Method}
    {d : Delegate} (member : d ∈ t.candidates method) : d.signature.IsClosed := by
  have listed {delegates : List (String × Delegate)}
      (named : d ∈ delegates.filterMap fun entry =>
        if entry.1 = method.name then some entry.2 else none) : ∃ entry ∈ delegates, entry.2 = d := by
    obtain ⟨entry, inside, found⟩ := List.mem_filterMap.mp named
    exact ⟨entry, inside, Option.some.inj (Option.ite_none_right_eq_some.mp found).2⟩
  unfold DelegateTable.candidates at member
  split at member
  · exact closed.2.2 d member
  · split at member
    · obtain ⟨entry, inside, rfl⟩ := listed member
      exact closed.2.1 entry inside
    · obtain ⟨entry, inside, rfl⟩ := listed member
      exact closed.1 entry inside

/-- A provider binds methods to closed delegates one by one. -/
def Provider.BindsDelegates : Provider → Prop
  | single _ substitute => ∃ d : Delegate, d.signature.IsClosed ∧ substitute.Runs d
  | .table contents => contents.IsClosed
  | _ => False

/-- An entry is for a closed method, and runs a closed delegate that takes its arguments. -/
def CallEntry.Typed (h : Hierarchy) (e : CallEntry) : Prop :=
  ∃ (bound : Method) (d : Delegate), e.target = .exact bound ∧ e.substitute.Runs d ∧
    bound.IsClosed ∧ d.signature.IsClosed ∧ d.signature.Takes h bound

/-- All entries of a call map are typed. -/
def CallMap.Typed (map : CallMap) : Prop := ∀ e ∈ map.entries.toList, e.Typed map.hierarchy

namespace CallMap.Typed

/-- A closed method is bound to a closed delegate that can stand in for it. -/
theorem bindMethod (typed : map.Typed) {method : Method} {substitute : Substitute} {d : Delegate}
    (runs : substitute.Runs d) (closedMethod : method.IsClosed) (closed : d.signature.IsClosed)
    (replaces : d.signature.canReplace map.hierarchy method = true) :
    (map.bindMethod method substitute).Typed := by
  intro e member
  have listed : e ∈ map.entries.toList ∨ e = ⟨.exact method, substitute⟩ := by
    simpa [CallMap.bindMethod, CallMap.add] using member
  obtain before | rfl := listed
  · exact typed e before
  · exact ⟨method, d, rfl, runs, closedMethod, closed, Method.takes_of_canReplace closed replaces⟩

/-- A table of closed delegates binds closed methods. -/
theorem bindCalls {t : DelegateTable} (closed : t.IsClosed) {called : List Method}
    (closedCalls : ∀ method ∈ called, method.IsClosed) (typed : map.Typed) :
    (t.bindCalls called map).Typed := by
  unfold DelegateTable.bindCalls
  induction called generalizing map with
  | nil => exact typed
  | cons method rest ih =>
    rw [List.foldl_cons]
    apply ih fun other member => closedCalls other (List.mem_cons_of_mem _ member)
    unfold DelegateTable.bindCall
    split
    next d chosen =>
      obtain ⟨candidate, replaces⟩ := DelegateTable.of_choose? chosen
      exact typed.bindMethod rfl (closedCalls method List.mem_cons_self) (closed.of_mem candidate)
        replaces
    next => exact typed

/-- A provider that binds methods to delegates one by one succeeds, and keeps a call map typed. -/
theorem populate {provider : Provider} {caller : Caller} (typed : map.Typed)
    (binds : provider.BindsDelegates) (closed : ∀ method ∈ caller.intercepted, method.IsClosed) :
    ∃ map', Yields (provider.populate caller) map () map' ∧ map'.hierarchy = map.hierarchy ∧
      map'.Typed := by
  cases provider with
  | single target substitute =>
    obtain ⟨d, closedDelegate, runs⟩ := binds
    refine ⟨_, Provider.run_populate_single map, ?_⟩
    cases found : Provider.bound? map.hierarchy target caller.intercepted with
    | none => exact ⟨rfl, typed⟩
    | some bound =>
      dsimp only
      split
      next fitting =>
        have closedBound := closed bound (Provider.of_bound? found).1
        rw [Provider.fits, runs.signature_eq] at fitting
        exact ⟨rfl, typed.bindMethod runs closedBound closedDelegate fitting⟩
      -- A rule whose delegate does not fit the call that it is for adds nothing.
      next => exact ⟨rfl, typed⟩
  | table contents =>
    refine ⟨_, Provider.yields_table.mpr rfl, ?_, typed.bindCalls binds closed⟩
    exact (contents.grows_bindCalls caller.intercepted map).hierarchy
  | filter | strict | composite => exact binds.elim

/-- So do any number of such providers, each for calls of its own. -/
theorem populateEach {steps : List (Provider × Caller)} (typed : map.Typed)
    (binds : ∀ step ∈ steps, step.1.BindsDelegates)
    (closed : ∀ step ∈ steps, ∀ method ∈ step.2.intercepted, method.IsClosed) :
    ∃ map', Yields (steps.forM fun step => step.1.populate step.2) map () map' ∧
      map'.hierarchy = map.hierarchy ∧ map'.Typed := by
  induction steps generalizing map with
  | nil => exact ⟨map, yields_pure.mpr ⟨rfl, rfl⟩, rfl, typed⟩
  | cons step rest ih =>
    obtain ⟨reached, first, kept, typedReached⟩ := typed.populate (binds step List.mem_cons_self)
      (closed step List.mem_cons_self)
    obtain ⟨map', others, keptToo, typed'⟩ := ih typedReached
      (fun other member => binds other (List.mem_cons_of_mem _ member))
      (fun other member => closed other (List.mem_cons_of_mem _ member))
    exact ⟨map', first.bind others, keptToo.trans kept, typed'⟩

/-- A typed call map gives a closed call a delegate that takes its arguments. -/
theorem takes_of_substitute? (undefined : map.hierarchy.LeavesUndefined)
    (few : ∀ type, map.hierarchy.FewAbove type) (typed : map.Typed) {call : Method}
    (closed : call.IsClosed) {substitute : Substitute}
    (found : map.substitute? call = some substitute) :
    ∃ d : Delegate, substitute.Runs d ∧ d.signature.Takes map.hierarchy call := by
  rw [CallMap.substitute?_eq] at found
  obtain ⟨e, first, rfl⟩ := Option.map_eq_some_iff.mp found
  obtain ⟨bound, d, exact, runs, closedBound, closedDelegate, takes⟩ :=
    typed e (List.mem_of_find?_eq_some first)
  -- The entry is exact, so it claims the call because its method covers it.
  have claims := List.find?_some first
  have covers : bound.covers map.hierarchy call = true := by
    rw [← CallEntry.claims_exact map.hierarchy bound call e.substitute, ← exact]
    exact claims
  have replaces : bound.canReplace map.hierarchy call = true := (Bool.and_eq_true_iff.mp covers).2
  exact ⟨d, runs, takes.trans undefined few closedDelegate closedBound closed
    (Method.takes_of_canReplace closedBound replaces)⟩

end CallMap.Typed

/-- In a module whose types have few types above them, no call map that is filled from rules and tables
of closed delegates gives a closed call a delegate that does not take its arguments. -/
theorem delegates_take_their_arguments (m : Module) (apart : m.NamesApart)
    (few : ∀ type, m.hierarchy.FewAbove type) (id : Nat) (steps : List (Provider × Caller))
    (binds : ∀ step ∈ steps, step.1.BindsDelegates)
    (closed : ∀ step ∈ steps, ∀ method ∈ step.2.intercepted, method.IsClosed) :
    ∃ map, Yields (steps.forM fun step => step.1.populate step.2) { hierarchy := m.hierarchy, id } ()
        map ∧
      ∀ (target : Method) (substitute : Substitute), target.IsClosed →
        map.substitute? target = some substitute →
        (∃ d, substitute.Runs d) ∧ ∀ d, substitute.Runs d → d.signature.Takes m.hierarchy target := by
  have start : CallMap.Typed { hierarchy := m.hierarchy, id } := by
    intro e member
    cases member
  obtain ⟨map, done, kept, typed⟩ := start.populateEach binds closed
  refine ⟨map, done, ?_⟩
  intro target substitute closedTarget found
  have hierarchy : map.hierarchy = m.hierarchy := kept
  obtain ⟨d, runs, takes⟩ := typed.takes_of_substitute? (hierarchy ▸ apart.hierarchy_leavesUndefined)
    (hierarchy ▸ few) closedTarget found
  rw [hierarchy] at takes
  refine ⟨⟨d, runs⟩, ?_⟩
  intro other runsOther
  -- A substitute says what it takes, so all delegates that it can run take the same.
  have same : some other.signature = some d.signature :=
    runsOther.signature_eq.symm.trans runs.signature_eq
  rw [Option.some.inj same]
  exact takes

/-- A class and one below it. -/
def greetingModule : Module where
  name := "Demo"
  types := #[.ofClass "Demo.Base", { name := "Demo.Derived", base := some (.classType "Demo.Base") }]

/-- A method of the base class. -/
def greetMethod : Method where
  declaringType := .classType "Demo.Base"
  name := "Greet"
  parameters := [.classType "Demo.Base"]

/-- A delegate for it that takes any object. -/
def greeter : Delegate where
  signature := Delegate.shape [.object] .void
  body _ _ := return .null

/-- A method of the class below, with an argument of that class. -/
def greetDerived : Method where
  declaringType := .classType "Demo.Derived"
  name := "Greet"
  parameters := [.classType "Demo.Derived"]

theorem delegates_take_their_arguments_greeting : ∃ map,
    Yields (List.forM
      [(Provider.single greetMethod greeter.toSubstitute, Provider.callerOf greetMethod)]
      fun step => step.1.populate step.2)
      { hierarchy := greetingModule.hierarchy } () map ∧
    map.substitute? greetDerived = some greeter.toSubstitute ∧
    greeter.signature.Takes greetingModule.hierarchy greetDerived := by
  have apart : greetingModule.NamesApart := by decide
  have few : ∀ type, greetingModule.hierarchy.FewAbove type :=
    Module.fewAbove_of_named [.object, .classType "Demo.Base"] (by decide) (by decide) (by decide)
      (by decide)
  obtain ⟨map, done, gives⟩ := delegates_take_their_arguments greetingModule apart few 0
    [(.single greetMethod greeter.toSubstitute, Provider.callerOf greetMethod)]
    (by
      intro step member
      rw [List.mem_singleton.mp member]
      exact ⟨greeter, by decide, rfl⟩)
    (by
      intro step member
      rw [List.mem_singleton.mp member]
      decide)
  have alone : Yields (Provider.populate (.single greetMethod greeter.toSubstitute)
      (Provider.callerOf greetMethod)) { hierarchy := greetingModule.hierarchy } () map := by
    obtain ⟨⟨⟩, map', first, rest⟩ := yields_bind.mp done
    obtain ⟨-, rfl⟩ := yields_pure.mp rest
    exact first
  have found : map.substitute? greetDerived = some greeter.toSubstitute := by
    rw [Provider.substitute?_single alone]
    exact ⟨greetMethod, by decide, by decide, by decide⟩
  exact ⟨map, done, found, (gives greetDerived _ (by decide) found).2 greeter rfl⟩

end Interpose
