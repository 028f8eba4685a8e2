import Interpose.Proofs.Ty.Assignability
import Interpose.Substitution.Matching
import Mathlib.Data.List.Forall2
import Mathlib.Data.List.Induction

/-!
# What the matching of methods finds

A candidate either meets the requirements or it does not, whatever the other candidates are.  Of those
that do, the first one of the name that is asked for wins, and without such a one the first one.

## Main definitions

* `Requirements.meets` — a candidate meets the requirements once it has the type arguments of the call
* `Requirements.favours` — it also has the name that is asked for

## Main results

* `acceptsParameters_iff` — each parameter has to be able to take the argument at its position
* `best?_concat` — one more candidate can only improve the winner so far
* `of_best?_eq_some` — the winner is one of the candidates, and it meets the requirements
* `best?_eq`, `candidate_best?` — the first candidate of the name that meets the requirements wins, or
  else the first one that meets them
* `canReplace_eq_meets` — a method can stand in for another if it meets its requirements
* `index_best?_of_sameName` — among candidates of one name, the first that meets the requirements wins
* `index_best?_of_unnamed` — so does it if no name is asked for
* `canReplace_self` — a method with all of its type arguments can stand in for itself
-/

namespace Interpose

namespace Requirements

variable {h : Hierarchy} {r : Requirements} {candidates : List Method} {c : Method}

/-- Whether a candidate, closed over the type arguments of the call, meets every requirement. -/
def meets (h : Hierarchy) (r : Requirements) (c : Method) : Bool := (r.close? c).any (r.accepts h)

/-- Whether a candidate meets every requirement and has the name that is asked for. -/
def favours (h : Hierarchy) (r : Requirements) (c : Method) : Bool :=
  r.name = some c.name && r.meets h c

/-- Each parameter has to be able to take the argument at its position. -/
theorem acceptsParameters_iff {arguments parameters : List Ty} :
    acceptsParameters h (arguments.map some) parameters = true ↔
      List.Forall₂ (fun argument parameter => parameter.assignableFrom h argument = true)
        arguments parameters := by
  induction arguments generalizing parameters with
  | nil => cases parameters <;> simp [acceptsParameters]
  | cons argument arguments ih => cases parameters <;> simp [acceptsParameters, ih]

@[simp] theorem best?_nil : r.best? h [] = none := rfl

/-- One more candidate at the end can only improve the winner so far. -/
theorem best?_concat :
    r.best? h (candidates ++ [c]) = r.improve h (r.best? h candidates) c candidates.length := by
  unfold best?
  rw [List.zipIdx_append, List.foldl_append]
  simp

/-- A candidate that does not meet the requirements changes nothing. -/
theorem improve_of_not_meets {best : Option Match} {index : Nat} (fails : r.meets h c = false) :
    r.improve h best c index = best := by
  unfold improve
  unfold meets at fails
  cases closed : r.close? c with
  | none => rfl
  | some method =>
    rw [closed] at fails
    have refused : r.accepts h method = false := by simpa using fails
    simp [refused]

/-- The first candidate that meets the requirements is a winner so far. -/
theorem improve_none_of_meets (index : Nat) (does : r.meets h c = true) :
    ∃ method, r.close? c = some method ∧
      r.improve h none c index = some ⟨index, c, method, r.score method⟩ := by
  unfold meets at does
  cases closed : r.close? c with
  | none => simp [closed] at does
  | some method =>
    have accepted : r.accepts h method = true := by simpa [closed] using does
    exact ⟨method, rfl, by simp [improve, closed, accepted]⟩

/-- A later one displaces the winner so far just if its score is higher. -/
theorem improve_some_of_meets (winner : Match) (index : Nat) (does : r.meets h c = true) :
    ∃ method, r.close? c = some method ∧ r.improve h (some winner) c index =
      if winner.score < r.score method then some ⟨index, c, method, r.score method⟩
      else some winner := by
  unfold meets at does
  cases closed : r.close? c with
  | none => simp [closed] at does
  | some method =>
    have accepted : r.accepts h method = true := by simpa [closed] using does
    exact ⟨method, rfl, by simp [improve, closed, accepted]⟩

/-- Type arguments do not change the name of a method. -/
theorem name_of_close? {method : Method} (closed : r.close? c = some method) :
    method.name = c.name := by
  unfold close? at closed
  split at closed
  · cases closed; rfl
  · split at closed
    · cases closed
    · split at closed
      · cases closed; rfl
      · split at closed
        · cases closed; rfl
        · cases closed

/-- The winner so far is still the one before, or it is the new candidate. -/
theorem of_improve_eq_some {best : Option Match} {index : Nat} {winner : Match}
    (found : r.improve h best c index = some winner) :
    best = some winner ∨ winner.index = index ∧ winner.candidate = c ∧ r.meets h c = true := by
  cases does : r.meets h c with
  | false =>
    rw [improve_of_not_meets does] at found
    exact .inl found
  | true =>
    cases best with
    | none =>
      obtain ⟨method, -, improved⟩ := improve_none_of_meets index does
      rw [improved] at found
      cases found
      exact .inr ⟨rfl, rfl, rfl⟩
    | some current =>
      unfold improve at found
      split at found
      · exact .inl found
      · split at found
        · exact .inl found
        · dsimp only at found
          split at found
          · cases found
            exact .inr ⟨rfl, rfl, rfl⟩
          · exact .inl found

/-- The winner is one of the candidates, and it meets the requirements. -/
theorem of_best?_eq_some {winner : Match} (found : r.best? h candidates = some winner) :
    candidates[winner.index]? = some winner.candidate ∧ r.meets h winner.candidate = true := by
  induction candidates using List.reverseRecOn with
  | nil => cases found
  | append_singleton front c ih =>
    rw [best?_concat] at found
    obtain earlier | ⟨last, rfl, meets⟩ := of_improve_eq_some found
    · obtain ⟨place, meets⟩ := ih earlier
      have inside : winner.index < front.length := (List.getElem?_eq_some_iff.mp place).1
      exact ⟨(List.getElem?_append_left inside).trans place, meets⟩
    · exact ⟨by simp [last], meets⟩

/-- Type arguments are filled in, or the candidate has them already. -/
theorem eq_or_eq_of_close? {method : Method} (closed : r.close? c = some method) :
    method = c ∨ method = c.instantiate r.typeArguments := by
  unfold close? at closed
  grind

/-- The name alone decides about the score. -/
theorem score_of_close? {method : Method} (closed : r.close? c = some method) :
    r.score method = if r.name = some c.name then 1 else 0 := by
  rw [score, name_of_close? closed]

/-- The first candidate of the name that is asked for wins among those that meet the requirements; if
there is none, the first of them wins. -/
theorem best?_eq : (r.best? h candidates).map (·.index) =
      (candidates.findIdx? (r.favours h)).or (candidates.findIdx? (r.meets h)) ∧
    ∀ winner, r.best? h candidates = some winner →
      winner.score = if candidates.any (r.favours h) then 1 else 0 := by
  -- Candidates are compared from the first one on, so the induction is on the last one.
  induction candidates using List.reverseRecOn with
  | nil => exact ⟨rfl, fun winner found => nomatch found⟩
  | append_singleton front c ih =>
    obtain ⟨first, scored⟩ := ih
    rw [best?_concat, List.findIdx?_append, List.findIdx?_append, List.any_append, List.any_cons,
      List.any_nil, Bool.or_false, List.findIdx?_singleton, List.findIdx?_singleton]
    cases does : r.meets h c with
    | false =>
      have unfavoured : r.favours h c = false := by rw [favours, does, Bool.and_false]
      rw [improve_of_not_meets does, unfavoured]
      simpa only [Bool.or_false, Bool.false_eq_true, if_false, Option.map_none, Option.or_none]
        using ⟨first, scored⟩
    | true =>
      have favoured : r.favours h c = decide (r.name = some c.name) := by
        rw [favours, does, Bool.and_true]
      cases best : r.best? h front with
      | none =>
        rw [best, Option.map_none, eq_comm, Option.or_eq_none_iff] at first
        have none : front.any (r.favours h) = false := by
          rw [← List.findIdx?_isSome, first.1]
          rfl
        obtain ⟨method, closed, improved⟩ := improve_none_of_meets front.length does
        rw [improved, first.1, first.2, none, favoured, Bool.false_or]
        refine ⟨?_, ?_⟩
        · cases decide (r.name = some c.name) <;> simp
        · rintro winner ⟨⟩
          simp [score_of_close? closed]
      | some winner =>
        have before := scored winner best
        rw [best] at first
        obtain ⟨method, closed, improved⟩ := improve_some_of_meets winner front.length does
        rw [improved, before, score_of_close? closed, favoured, ← List.findIdx?_isSome]
        rw [← List.findIdx?_isSome] at before
        cases found : front.findIdx? (r.favours h) with
        | some index =>
          -- No score is higher than that of a candidate of the name.
          rw [found] at first before
          have place : winner.index = index := by simpa using first
          have one : winner.score = 1 := by simpa using before
          have stays : ¬ 1 < if r.name = some c.name then 1 else 0 := by split <;> omega
          simpa [stays] using ⟨place, one⟩
        | none =>
          rw [found, Option.none_or] at first
          rw [found] at before
          by_cases named : r.name = some c.name
          · simp [named]
          · simpa [named, ← first] using before

/-- So the winner is the first candidate of the name that meets the requirements, or else the first one
that does. -/
theorem candidate_best? : (r.best? h candidates).map (·.candidate) =
    (candidates.find? (r.favours h)).or (candidates.find? (r.meets h)) := by
  have place : (r.best? h candidates).map (·.candidate) =
      ((r.best? h candidates).map (·.index)).bind (candidates[·]?) := by
    cases found : r.best? h candidates with
    | none => rfl
    | some winner => exact (of_best?_eq_some found).1.symm
  rw [place, best?_eq.1, List.find?_eq_bind_findIdx?_getElem?, List.find?_eq_bind_findIdx?_getElem?]
  cases first : candidates.findIdx? (r.favours h) with
  | none => rfl
  | some index =>
    have inside : index < candidates.length := (List.findIdx?_eq_some_iff_getElem.mp first).1
    simp [inside]

/-- Among candidates of the name that is asked for, the first that meets the requirements wins. -/
theorem index_best?_of_sameName (named : ∀ c ∈ candidates, r.name = some c.name) :
    (r.best? h candidates).map (·.index) = candidates.findIdx? (r.meets h) := by
  have same : candidates.findIdx? (r.favours h) = candidates.findIdx? (r.meets h) := by
    induction candidates with
    | nil => rfl
    | cons c rest ih =>
      obtain ⟨own, others⟩ := List.forall_mem_cons.mp named
      have alike : r.favours h c = r.meets h c := by simp [favours, own]
      rw [List.findIdx?_cons, List.findIdx?_cons, ih others, alike]
  rw [best?_eq.1, same, Option.or_self]

/-- If no name is asked for, no candidate has it. -/
theorem favours_of_unnamed (unnamed : r.name = none) : r.favours h c = false := by
  simp [favours, unnamed]

/-- If no name is asked for, the first candidate that meets the requirements wins. -/
theorem index_best?_of_unnamed (unnamed : r.name = none) :
    (r.best? h candidates).map (·.index) = candidates.findIdx? (r.meets h) := by
  have nothing : candidates.findIdx? (r.favours h) = none :=
    List.findIdx?_eq_none_iff.mpr fun _ _ => favours_of_unnamed unnamed
  rw [best?_eq.1, nothing, Option.none_or]

theorem candidate_best?_of_unnamed (unnamed : r.name = none) :
    (r.best? h candidates).map (·.candidate) = candidates.find? (r.meets h) := by
  have nothing : candidates.find? (r.favours h) = none := by
    rw [List.find?_eq_none]
    intro c _
    simp [favours_of_unnamed unnamed]
  rw [candidate_best?, nothing, Option.none_or]

/-- A single candidate wins just if it meets the requirements. -/
theorem best?_singleton : (r.best? h [c]).map (·.candidate) = if r.meets h c then some c else none := by
  rw [← List.nil_append [c], best?_concat, best?_nil]
  cases does : r.meets h c with
  | false =>
    rw [improve_of_not_meets does]
    rfl
  | true =>
    obtain ⟨method, -, improved⟩ := improve_none_of_meets ([] : List Method).length does
    rw [improved, if_pos rfl]
    rfl

end Requirements

/-- A method can stand in for another one just if it meets its requirements. -/
theorem Method.canReplace_eq_meets (h : Hierarchy) (candidate target : Method) :
    candidate.canReplace h target = (Requirements.ofMethod target).meets h candidate := by
  have single := Requirements.best?_singleton (h := h) (r := .ofMethod target) (c := candidate)
  unfold Method.canReplace
  rw [← Option.isSome_map (f := (·.candidate)), single]
  cases (Requirements.ofMethod target).meets h candidate <;> rfl

namespace Method

/-- A call is closed to itself, unless it is of a generic method that was given no type arguments. -/
theorem close?_self {m : Method} (closed : m.genericArity.toNat = m.typeArguments.length) :
    (Requirements.ofMethod m).close? m = some m := by
  unfold Requirements.close? Requirements.ofMethod isGenericDefinition
  cases given : m.typeArguments with
  | nil => rfl
  | cons type rest => simp [closed, given]

/-- A call can stand in for itself. -/
theorem canReplace_self (h : Hierarchy) {m : Method}
    (closed : m.genericArity.toNat = m.typeArguments.length) : m.canReplace h m = true := by
  have takes : Requirements.acceptsParameters h (m.parameters.map some) m.parameters = true := by
    apply Requirements.acceptsParameters_iff.mpr
    apply List.forall₂_same.mpr
    exact fun type _ => type.assignableFrom_self h
  rw [canReplace_eq_meets, Requirements.meets, close?_self closed]
  simp [Requirements.accepts, Requirements.acceptsResult, Requirements.ofMethod, takes]

end Method

end Interpose
