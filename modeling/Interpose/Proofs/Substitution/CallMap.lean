import Interpose.Proofs.Substitution.Matching
import Interpose.Substitution.CallMap

/-!
# Look-up in call maps

A call map looks for the entry of a call in three ways, each of which ranks what it finds, and takes
the first one registered.  All that is the same as to go through the entries in the order of their
registration and to take the first one that claims the call.

## Main definitions

* `CallEntry.claims` — an entry is for a call
* `CallMap.register` — a map with more entries

## Main results

* `direct?_eq`, `inherited?_eq` — the best match among exact entries is the first one that claims the
  call
* `find?_eq` — the entry for a call is the first one that claims it
* `substitute?_register` — the substitute for a call comes from the first entry that claims the call,
  so later entries never change it
-/

namespace Interpose

/-- Of three searches through a list, the one that stops first stops where anything that is searched
for is found. -/
theorem min?_findIdx? {α : Type} (p q r : α → Bool) (list : List α) :
    ([list.findIdx? p, list.findIdx? q, list.findIdx? r].filterMap fun found => found).min? =
      list.findIdx? fun x => p x || q x || r x := by
  induction list with
  | nil => rfl
  | cons x rest ih =>
    rw [List.findIdx?_cons, List.findIdx?_cons, List.findIdx?_cons, List.findIdx?_cons, ← ih]
    cases p x <;> cases q x <;> cases r x <;>
      cases rest.findIdx? p <;> cases rest.findIdx? q <;> cases rest.findIdx? r <;>
      simp

namespace CallEntry

/-- Whether an entry is for a call.  A filter says so itself.  An exact method has the name of the
call, and belongs to the same type and takes as many parameters, or belongs to a type that the type
of the call inherits from; and it can stand in for the call. -/
def claims (h : Hierarchy) (e : CallEntry) (target : Method) : Bool :=
  match e.target with
  | .filter selects => selects target
  | .exact method =>
    method.name = target.name &&
      ((method.declaringType.typeName = target.declaringType.typeName &&
          method.parameters.length = target.parameters.length) ||
        (method.declaringType ≠ target.declaringType &&
          method.declaringType.assignableFrom h target.declaringType)) &&
      method.canReplace h target

end CallEntry

namespace CallMap

variable {m : CallMap} {target : Method}

/-- The map with more entries, registered one after the other. -/
def register (m : CallMap) : List CallEntry → CallMap
  | [] => m
  | e :: rest =>
    match e.target with
    | .exact method => (m.bindMethod method e.substitute).register rest
    | .filter selects => (m.bindMatching selects e.substitute).register rest

@[simp] theorem register_hierarchy (m : CallMap) (entries : List CallEntry) :
    (m.register entries).hierarchy = m.hierarchy := by
  induction entries generalizing m with
  | nil => rfl
  | cons e rest ih =>
    unfold register
    split <;> exact ih _

@[simp] theorem entries_register (m : CallMap) (entries : List CallEntry) :
    (m.register entries).entries.toList = m.entries.toList ++ entries := by
  induction entries generalizing m with
  | nil => simp [register]
  | cons e rest ih =>
    obtain ⟨target, substitute⟩ := e
    cases target <;> simp [register, bindMethod, bindMatching, add, ih]

/-- A search among the exact entries is one among all entries. -/
theorem find?_exactEntries (m : CallMap) (p : Method → Bool) :
    (m.exactEntries.find? fun entry => p entry.1).map Prod.snd =
      m.entries.toList.findIdx? fun e => e.exactMethod?.any p := by
  -- The positions in a list go on from some number; for the whole list that is zero.
  have go (list : List CallEntry) (start : Nat) :
      (((list.zipIdx start).filterMap fun entry =>
        entry.1.exactMethod?.map fun method => (method, entry.2)).find? fun entry => p entry.1).map
          Prod.snd = (list.findIdx? fun e => e.exactMethod?.any p).map (· + start) := by
    induction list generalizing start with
    | nil => rfl
    | cons e rest ih =>
      rw [List.zipIdx_cons, List.findIdx?_cons]
      cases exact : e.exactMethod? with
      | none =>
        rw [List.filterMap_cons_none (by simp [exact]), ih]
        simp [Function.comp_def, Nat.add_comm, Nat.add_left_comm]
      | some method =>
        rw [List.filterMap_cons_some (by simp [exact]; rfl), List.find?_cons]
        cases holds : p method with
        | true => simp [holds]
        | false =>
          simp only [ih, Option.any_some, holds]
          simp [Function.comp_def, Nat.add_comm, Nat.add_left_comm]
  calc (m.exactEntries.find? fun entry => p entry.1).map Prod.snd
      = (m.entries.toList.findIdx? fun e => e.exactMethod?.any p).map (· + 0) :=
        go m.entries.toList 0
    _ = m.entries.toList.findIdx? fun e => e.exactMethod?.any p := by simp

/-- The best match among entries of the name of the call is the first of them that can stand in for
the call. -/
theorem closest?_of_sameName {entries : List (Method × Nat)}
    (named : ∀ entry ∈ entries, entry.1.name = target.name) :
    m.closest? entries target =
      (entries.find? fun entry => entry.1.canReplace m.hierarchy target).map Prod.snd := by
  let r := Requirements.ofMethod target
  have replaces : (entries.map Prod.fst).findIdx? (r.meets m.hierarchy) =
      entries.findIdx? fun entry => entry.1.canReplace m.hierarchy target := by
    simp only [List.findIdx?_map, Function.comp_def, Method.canReplace_eq_meets, r]
  -- All of them have the name that is asked for, so the first that can stand in wins.
  have first : (r.best? m.hierarchy (entries.map Prod.fst)).map (·.index) =
      entries.findIdx? fun entry => entry.1.canReplace m.hierarchy target := by
    rw [← replaces]
    apply Requirements.index_best?_of_sameName
    intro method member
    obtain ⟨entry, inside, rfl⟩ := List.mem_map.mp member
    exact congrArg some (named entry inside).symm
  calc m.closest? entries target
      = ((r.best? m.hierarchy (entries.map Prod.fst)).map (·.index)).bind
          fun index => entries[index]?.map Prod.snd := by
        unfold closest?
        cases r.best? m.hierarchy (entries.map Prod.fst) with
        | none => rfl
        | some winner => cases found : entries[winner.index]? <;> simp [found]
    _ = (entries.find? fun entry => entry.1.canReplace m.hierarchy target).map Prod.snd := by
        rw [first, List.find?_eq_bind_findIdx?_getElem?, Option.map_bind]
        rfl

/-- The best match among the entries that a search selects is the first of them that can stand in for
the call. -/
private theorem closest?_filter {p : Method → Bool}
    (named : ∀ method, p method = true → method.name = target.name) :
    m.closest? (m.exactEntries.filter fun entry => p entry.1) target =
      m.entries.toList.findIdx? fun e => e.exactMethod?.any fun method =>
        p method && method.canReplace m.hierarchy target := by
  rw [closest?_of_sameName, List.find?_filter, ← find?_exactEntries]
  · simp only [Bool.decide_and, Bool.decide_eq_true]
  · intro entry member
    exact named entry.1 (List.mem_filter.mp member).2

/-- The entry of the same type, name and number of parameters. -/
theorem direct?_eq (m : CallMap) (target : Method) :
    m.direct? target = m.entries.toList.findIdx? fun e => e.exactMethod?.any fun method =>
      decide (method.key = target.key) && method.canReplace m.hierarchy target := by
  refine closest?_filter (p := fun method => decide (method.key = target.key)) ?_
  intro method same
  exact congrArg (fun key => key.2.1) (of_decide_eq_true same)

/-- The entry of a type that the type of the call inherits from. -/
theorem inherited?_eq (m : CallMap) (target : Method) :
    m.inherited? target = m.entries.toList.findIdx? fun e => e.exactMethod?.any fun method =>
      m.inherits method target && method.canReplace m.hierarchy target := by
  refine closest?_filter (p := fun method => m.inherits method target) ?_
  intro method inherits
  simp only [CallMap.inherits, Bool.and_eq_true, decide_eq_true_eq] at inherits
  exact inherits.1.1

/-- The entry for a call is the first one that claims it. -/
theorem find?_eq (m : CallMap) (target : Method) :
    m.find? target = m.entries.toList.findIdx? (·.claims m.hierarchy target) := by
  have filtered : m.filtered? target = m.entries.toList.findIdx? (·.filters target) :=
    List.findIdx?_toArray _ m.entries.toList
  unfold find?
  rw [direct?_eq, inherited?_eq, filtered, min?_findIdx?]
  congr 1
  funext e
  obtain ⟨pattern, substitute⟩ := e
  cases pattern with
  | filter selects => simp [CallEntry.exactMethod?, CallEntry.filters, CallEntry.claims]
  | exact method =>
    by_cases named : method.name = target.name <;>
      by_cases replaces : method.canReplace m.hierarchy target <;>
        simp [CallEntry.exactMethod?, CallEntry.filters, CallEntry.claims, CallMap.inherits,
          Method.key, named, replaces]

/-- The substitute for a call is that of the first entry that claims it. -/
theorem substitute?_eq (m : CallMap) (target : Method) :
    m.substitute? target =
      (m.entries.toList.find? (·.claims m.hierarchy target)).map (·.substitute) := by
  unfold substitute?
  rw [find?_eq, List.find?_eq_bind_findIdx?_getElem?, Option.map_bind]
  cases found : m.entries.toList.findIdx? (·.claims m.hierarchy target) with
  | none => rfl
  | some position =>
    cases entry : m.entries[position]? <;> simp [entry]

/-- A call map that was filled by a sequence of registrations gives a call the substitute of the first
entry that claims the call, and contains a mapping just if there is one; whatever is registered later
only decides about calls that have no substitute yet. -/
theorem substitute?_register (hierarchy : Hierarchy) (id : Nat) (registered later : List CallEntry)
    (target : Method) :
    let map := ({ hierarchy, id } : CallMap).register registered
    map.substitute? target =
        (registered.find? (·.claims hierarchy target)).map (·.substitute) ∧
      map.contains target = (registered.any (·.claims hierarchy target)) ∧
      (map.register later).substitute? target = (map.substitute? target).or
        ((later.find? (·.claims hierarchy target)).map (·.substitute)) := by
  intro map
  have entries : map.entries.toList = registered := by simp [map]
  have filled : map.substitute? target =
      (registered.find? (·.claims hierarchy target)).map (·.substitute) := by
    rw [substitute?_eq, entries, register_hierarchy]
  refine ⟨filled, ?_, ?_⟩
  · rw [contains, filled, Option.isSome_map, List.isSome_find?]
  · rw [substitute?_eq, entries_register, entries, register_hierarchy, register_hierarchy, filled,
      List.find?_append, Option.map_or]

end CallMap

end Interpose
