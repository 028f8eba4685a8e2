import Interpose.Proofs.Substitution.Targets

/-!
# What a table of delegates gives

A table chooses a delegate for each call of a caller on its own: the first one of its kind and name that
fits.  The call map then holds an entry for each call with a delegate, and a call is looked up among
these entries without regard to what was chosen for it.  So a call gets the delegate of the first call
that covers it, and that may be an earlier overload, or a method of the same name of another kind or of
a type above.

## Main definitions

* `CallMap.Gives` — a call map gives a call a delegate, or none
* `DelegateTable.serves` — a call has a delegate, and its entry is for another call as well

## Main results

* `DelegateTable.choose?_eq` — a table chooses the first delegate that fits
* `DelegateTable.gives_bindCalls` — what a table adds gives a call the delegate of the first call that
  serves it
* `Provider.table_gives_choice_iff` — when a call gets the delegate that was chosen for it
* `Provider.not_forall_table_gives_choice` — it does not always
-/

namespace Interpose

/-- The substitute, whatever identifies it. -/
def Substitute.unidentified (s : Substitute) : Substitute := { s with identity := .registered 0 }

/-- What runs a delegate is the substitute that runs it, whatever identifies it. -/
@[simp] theorem Delegate.unidentified_toSubstitute (d : Delegate) (identity : SubstituteId) :
    Substitute.unidentified { d.toSubstitute with identity } = d.toSubstitute := rfl

/-- The call map gives the call the delegate, or no substitute if there is no delegate. -/
def CallMap.Gives (map : CallMap) (call : Method) (delegate : Option Delegate) : Prop :=
  (map.substitute? call).map Substitute.unidentified = delegate.map Delegate.toSubstitute

namespace CallMap

@[simp] theorem substitute?_empty (h : Hierarchy) (id : Nat) (call : Method) :
    ({ hierarchy := h, id } : CallMap).substitute? call = none := by
  rw [substitute?_eq]
  rfl

/-- One more entry gives its substitute to the calls that it claims, unless they have one. -/
theorem substitute?_add (map : CallMap) (target : CallPattern) (substitute : Substitute)
    (call : Method) : (map.add target substitute).substitute? call = (map.substitute? call).or
      (if (CallEntry.mk target substitute).claims map.hierarchy call then some substitute
        else none) := by
  rw [substitute?_eq, substitute?_eq, add, Array.toList_push, List.find?_append, Option.map_or]
  congr 1
  rw [List.find?_singleton, apply_ite (Option.map _)]
  rfl

end CallMap

namespace DelegateTable

variable {h : Hierarchy} {t : DelegateTable} {map : CallMap} {called : List Method}
  {bound call : Method}

/-- A table chooses the first of the delegates of the kind and the name of a method that fits it. -/
theorem choose?_eq (h : Hierarchy) (t : DelegateTable) (call : Method) :
    t.choose? h call = (t.candidates call).find? fun d => d.signature.canReplace h call := by
  let r := { Requirements.ofMethod call with name := none }
  have fits : r.meets h = fun signature => signature.canReplace h call := by
    funext signature
    -- The name is not among the requirements, it only counts in favour.
    exact (Method.canReplace_eq_meets h signature call).symm
  have first : (r.best? h ((t.candidates call).map (·.signature))).map (·.index) =
      (t.candidates call).findIdx? fun d => d.signature.canReplace h call := by
    rw [Requirements.index_best?_of_unnamed rfl, fits, List.findIdx?_map]
    rfl
  calc t.choose? h call
      = (r.best? h ((t.candidates call).map (·.signature))).bind
          fun best => (t.candidates call)[best.index]? := rfl
    _ = ((r.best? h ((t.candidates call).map (·.signature))).map (·.index)).bind
          ((t.candidates call)[·]?) := by rw [Option.bind_map]; rfl
    _ = (t.candidates call).find? fun d => d.signature.canReplace h call := by
        rw [first, List.find?_eq_bind_findIdx?_getElem?]

/-- Whether a call has a delegate and covers another one, so that its entry is for that as well. -/
def serves (t : DelegateTable) (h : Hierarchy) (bound call : Method) : Bool :=
  (t.choose? h bound).isSome && bound.covers h call

/-- The entries of a table give a call that has no substitute yet the delegate of the first call that
serves it. -/
theorem gives_bindCalls (t : DelegateTable) (called : List Method) (map : CallMap) (call : Method) :
    ((t.bindCalls called map).substitute? call).map Substitute.unidentified =
      ((map.substitute? call).map Substitute.unidentified).or
        (((called.find? fun bound => t.serves map.hierarchy bound call).bind
          (t.choose? map.hierarchy)).map Delegate.toSubstitute) := by
  unfold bindCalls
  induction called generalizing map with
  | nil => simp
  | cons bound rest ih =>
    -- The map grows from call to call, but which calls serve depends on the hierarchy alone.
    rw [List.foldl_cons, ih, hierarchy_bindCall, List.find?_cons]
    unfold bindCall serves
    cases chosen : t.choose? map.hierarchy bound with
    | none => simp
    | some delegate =>
      simp only [CallMap.bindDelegate, CallMap.bindMethod, CallMap.substitute?_add,
        CallEntry.claims_exact, Option.isSome_some, Bool.true_and]
      cases bound.covers map.hierarchy call with
      | false => simp
      | true =>
        -- This call serves, so its delegate is given unless there is a substitute already.
        cases map.substitute? call <;> simp [chosen]

end DelegateTable

namespace Provider

/-- After a table alone has filled the call map of a method, a call has the delegate of the first call of
this method that serves it, and no substitute if there is no such call.  So it has the delegate that the
table chooses for it just if this first call has the same one, or if there is no such call and none was
chosen. -/
theorem table_gives_choice_iff (h : Hierarchy) (id : Nat) (t : DelegateTable) (caller : Caller) :
    ∃ map, Yields (populate (.table t) caller) { hierarchy := h, id } () map ∧ ∀ call,
      let first := caller.intercepted.find? fun bound => t.serves h bound call
      map.Gives call (first.bind (t.choose? h)) ∧
      (map.Gives call (t.choose? h call) ↔
        (∀ bound, first = some bound →
          (t.choose? h bound).map Delegate.toSubstitute =
            (t.choose? h call).map Delegate.toSubstitute) ∧
        (first = none → t.choose? h call = none)) := by
  refine ⟨_, yields_table.mpr rfl, ?_⟩
  intro call first
  have gives : (t.bindCalls caller.intercepted { hierarchy := h, id }).Gives call
      (first.bind (t.choose? h)) := by
    rw [CallMap.Gives, DelegateTable.gives_bindCalls, CallMap.substitute?_empty, Option.map_none,
      Option.none_or]
  refine ⟨gives, ?_⟩
  -- The substitute is known, so it is left to compare the two choices.
  unfold CallMap.Gives at gives ⊢
  rw [gives]
  cases first with
  | none => cases t.choose? h call <;> simp
  | some bound => simp

/-- A delegate without result for the given parameters. -/
def sinkFor (parameters : List Ty) : Delegate where
  signature := Delegate.shape parameters .void
  body _ _ := return .void

/-- A table with one delegate for texts and one for all objects. -/
def sinkTable : DelegateTable where
  staticMethods := [("Write", sinkFor [.string]), ("Write", sinkFor [.object])]

/-- It is not so that each call of a caller has the delegate that the table chooses for it. -/
theorem not_forall_table_gives_choice :
    ¬ ∀ (h : Hierarchy) (id : Nat) (t : DelegateTable) (caller : Caller) (map : CallMap),
      Yields (populate (.table t) caller) { hierarchy := h, id } () map →
        ∀ call ∈ caller.intercepted, map.Gives call (t.choose? h call) := by
  intro always
  -- The entry for the overload that takes any object is found for the overload for texts as well.
  have gives := always .unknown 0 sinkTable
    { callerOf writeObject with intercepted := [writeObject, writeText] } _ (yields_table.mpr rfl)
    writeText (by decide)
  rw [CallMap.Gives, DelegateTable.gives_bindCalls, CallMap.substitute?_empty, Option.map_none,
    Option.none_or] at gives
  have signatures := congrArg (Option.map (·.signature)) gives
  revert signatures
  decide

end Provider

end Interpose
