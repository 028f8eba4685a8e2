import Interpose.Proofs.Substitution.CallMap
import Interpose.Substitution.Provider

/-!
# Which calls an entry is for

An exact entry of a call map is for more calls than the one it was made for: it is also for the calls of
its name that it can stand in for and that belong to its type or to a type that can be held as its type.

## Main definitions

* `Method.covers` — a call is one of those that the entry for a method is for
* `Method.Takes` — a method has parameters for the arguments of another one

## Main results

* `CallEntry.claims_exact` — an exact entry claims the calls that its method covers
* `CallMap.contains_bindMethod` — one more entry adds the calls that its method covers
* `DelegateTable.contains_bindCalls` — a table adds what is covered by the methods it has delegates for
* `Provider.of_bound?` — the call that a rule binds is one that its target reaches and may stand for
-/

namespace Interpose

namespace Method

variable {h : Hierarchy} {bound call : Method}

/-- Whether the entry for a method is for a call. -/
def covers (h : Hierarchy) (bound call : Method) : Bool :=
  bound.name = call.name && Provider.reaches h bound call && bound.canReplace h call

/-- A method has as many parameters as another one, and each can hold the argument at its position. -/
def Takes (h : Hierarchy) (m call : Method) : Prop :=
  List.Forall₂ (fun argument parameter => parameter.assignableFrom h argument = true)
    call.parameters m.parameters

/-- A method that can stand in for a call takes its arguments once it has the type arguments of the call,
and its result can hold what is expected. -/
theorem canReplace_iff : bound.canReplace h call = true ↔
    ∃ closed, (Requirements.ofMethod call).close? bound = some closed ∧ closed.Takes h call ∧
      (closed.resultType = call.resultType ∨
        closed.resultType.assignableFrom h call.resultType = true) := by
  rw [canReplace_eq_meets, Requirements.meets, Option.any_eq_true]
  apply exists_congr
  intro closed
  rw [Requirements.accepts, Bool.and_eq_true]
  apply and_congr_right'
  apply and_congr
  · exact Requirements.acceptsParameters_iff
  · simp [Requirements.acceptsResult, Requirements.ofMethod]

/-- What stands in for a call takes as many arguments. -/
theorem length_of_canReplace (replaces : bound.canReplace h call = true) :
    bound.parameters.length = call.parameters.length := by
  obtain ⟨closed, closes, takes, -⟩ := canReplace_iff.mp replaces
  have count : call.parameters.length = closed.parameters.length := takes.length_eq
  rw [count]
  obtain rfl | rfl := Requirements.eq_or_eq_of_close? closes
  · rfl
  · exact (List.length_map _).symm

end Method

namespace CallEntry

/-- An exact entry claims the calls that its method covers. -/
theorem claims_exact (h : Hierarchy) (method call : Method) (substitute : Substitute) :
    (CallEntry.mk (.exact method) substitute).claims h call = method.covers h call := by
  unfold claims Method.covers Provider.reaches
  -- What can stand in for the call has its number of parameters, so only names and types are left.
  by_cases replaces : method.canReplace h call = true
  · have count := Method.length_of_canReplace replaces
    by_cases same : method.declaringType = call.declaringType
    · simp [same, count]
    · simp [same, count, eq_comm]
  · simp [replaces]

end CallEntry

namespace CallMap

variable (m : CallMap) (method call : Method)

/-- A call has a substitute just if an entry claims it. -/
theorem contains_eq_any : m.contains call = m.entries.toList.any (·.claims m.hierarchy call) := by
  rw [contains, substitute?_eq, Option.isSome_map, List.isSome_find?]

@[simp] theorem contains_empty (h : Hierarchy) (id : Nat) (call : Method) :
    ({ hierarchy := h, id } : CallMap).contains call = false := by
  rw [contains_eq_any]
  rfl

/-- One more entry adds the calls that it claims. -/
theorem contains_add (target : CallPattern) (substitute : Substitute) :
    (m.add target substitute).contains call =
      (m.contains call || (CallEntry.mk target substitute).claims m.hierarchy call) := by
  simp [contains_eq_any, add]

/-- One more exact entry adds the calls that its method covers. -/
theorem contains_bindMethod (substitute : Substitute) :
    (m.bindMethod method substitute).contains call =
      (m.contains call || method.covers m.hierarchy call) := by
  rw [bindMethod, contains_add, CallEntry.claims_exact]

end CallMap

namespace DelegateTable

variable {h : Hierarchy} {t : DelegateTable}

/-- The delegate that a table chooses for a method can stand in for it. -/
theorem of_choose? {method : Method} {delegate : Delegate}
    (chosen : t.choose? h method = some delegate) :
    delegate ∈ t.candidates method ∧ delegate.signature.canReplace h method = true := by
  obtain ⟨best, wins, place⟩ := Option.bind_eq_some_iff.mp chosen
  obtain ⟨candidate, meets⟩ := Requirements.of_best?_eq_some wins
  rw [List.getElem?_map, place] at candidate
  have signature : delegate.signature = best.candidate := Option.some.inj candidate
  rw [Method.canReplace_eq_meets, signature]
  -- The name is not among the requirements, it only counts in favour.
  exact ⟨List.mem_of_getElem? place, meets⟩

@[simp] theorem hierarchy_bindCall (map : CallMap) (method : Method) :
    (t.bindCall map method).hierarchy = map.hierarchy := by
  unfold bindCall
  split <;> rfl

/-- Each method that a table has a delegate for adds the calls that it covers. -/
theorem contains_bindCalls (called : List Method) (map : CallMap) (call : Method) :
    (t.bindCalls called map).contains call = (map.contains call ||
      called.any fun method =>
        (t.choose? map.hierarchy method).isSome && method.covers map.hierarchy call) := by
  unfold bindCalls
  induction called generalizing map with
  | nil => simp
  | cons method rest ih =>
    -- The map grows from method to method, but what covers a call depends on the hierarchy alone.
    rw [List.foldl_cons, ih, hierarchy_bindCall, List.any_cons, ← Bool.or_assoc]
    congr 1
    unfold bindCall
    cases t.choose? map.hierarchy method with
    | none => simp
    | some delegate => simp [CallMap.bindDelegate, CallMap.contains_bindMethod]

end DelegateTable

namespace Provider

/-- The call that a rule binds is one of those its target reaches, and it meets what a call of the
target asks of a candidate. -/
theorem of_bound? {h : Hierarchy} {target bound : Method} {intercepted : List Method}
    (found : bound? h target intercepted = some bound) :
    bound ∈ intercepted ∧ reaches h target bound = true ∧ bound.canReplace h target = true := by
  obtain ⟨winner, wins, rfl⟩ := Option.map_eq_some_iff.mp found
  obtain ⟨place, meets⟩ := Requirements.of_best?_eq_some wins
  obtain ⟨member, reached⟩ := List.mem_filter.mp (List.mem_of_getElem? place)
  rw [Method.canReplace_eq_meets]
  exact ⟨member, reached, meets⟩

end Provider

end Interpose
