import Interpose.Ty.Assignability
import Mathlib.Data.List.Nodup
import Mathlib.Data.List.Perm.Subperm
import Mathlib.Logic.Relation

/-!
# What a walk up the hierarchy finds

A walk starts at a type and goes on to the types directly above those it has met.  It gives up when it
has found too many types, so what it finds is above the type it started from, and it is all that is
above it if there are few enough such types.

## Main definitions

* `Hierarchy.Above` — a chain of base types and interfaces leads from one type to another
* `Hierarchy.FewAbove` — no more types are above a type than a walk may find
* `Hierarchy.Walking` — what holds of a walk at every visit

## Main results

* `Walking.next` — every visit keeps it
* `above_of_mem_ancestors` — a walk finds nothing but types above the one it started from
* `mem_ancestors_of_mem_parents` — it finds at least the types directly above it
* `mem_ancestors_iff` — it finds all of them if they are few
-/

namespace Interpose.Hierarchy

variable {h : Hierarchy} {start type above : Ty} {found pending : List Ty}

/-- A chain of steps to base types and interfaces leads from one type to another. -/
def Above (h : Hierarchy) : Ty → Ty → Prop :=
  Relation.TransGen fun type parent => parent ∈ h.parents type

theorem not_above_of_parents_eq_nil (none : h.parents type = []) : ¬ h.Above type above := by
  intro chain
  obtain ⟨parent, step, -⟩ := Relation.TransGen.head'_iff.mp chain
  rw [none] at step
  cases step

/-- No more types are above a type than a walk may find. -/
def FewAbove (h : Hierarchy) (type : Ty) : Prop :=
  ∃ types : List Ty, types.length ≤ ancestorLimit ∧ ∀ above, h.Above type above → above ∈ types

/-- There are few types above another one if few types are parents at all. -/
theorem fewAbove_of_parents {types : List Ty} (short : types.length ≤ ancestorLimit)
    (parents : ∀ type, ∀ parent ∈ h.parents type, parent ∈ types) (type : Ty) : h.FewAbove type := by
  refine ⟨types, short, ?_⟩
  intro above chain
  obtain ⟨below, -, step⟩ := Relation.TransGen.tail'_iff.mp chain
  exact parents below above step

/-- There are few types above another one if its parents are among few types whose parents are too. -/
theorem fewAbove_of_closed (types : List Ty) (short : types.length ≤ ancestorLimit)
    (begins : ∀ parent ∈ h.parents type, parent ∈ types)
    (closed : ∀ other ∈ types, ∀ parent ∈ h.parents other, parent ∈ types) : h.FewAbove type := by
  refine ⟨types, short, fun above chain => ?_⟩
  induction chain with
  | single step => exact begins _ step
  | tail _ step ih => exact closed _ ih _ step

/-- A visit notes the parents that were not found before, the last one on top. -/
theorem foldl_visit (parents found pending : List Ty) :
    ∃ fresh, parents.foldl visit (found, pending) = (found ++ fresh, fresh.reverse ++ pending) ∧
      (found.Nodup → (found ++ fresh).Nodup) ∧ (∀ type ∈ fresh, type ∈ parents) ∧
        ∀ type ∈ parents, type ∈ found ++ fresh := by
  induction parents generalizing found pending with
  | nil => exact ⟨[], by simp, by simp, by simp, by simp⟩
  | cons parent rest ih =>
    rw [List.foldl_cons]
    -- A parent that is known changes nothing, and a new one is noted and becomes pending.
    by_cases known : parent ∈ found
    · obtain ⟨fresh, folded, distinct, among, covers⟩ := ih found pending
      have stays : visit (found, pending) parent = (found, pending) := if_pos known
      refine ⟨fresh, ?_, distinct, ?_, ?_⟩
      · rw [stays, folded]
      · exact fun type member => List.mem_cons_of_mem _ (among type member)
      · intro type member
        obtain rfl | later := List.mem_cons.mp member
        · exact List.mem_append_left _ known
        · exact covers type later
    · obtain ⟨fresh, folded, distinct, among, covers⟩ := ih (found ++ [parent]) (parent :: pending)
      have noted : visit (found, pending) parent = (found ++ [parent], parent :: pending) :=
        if_neg known
      refine ⟨parent :: fresh, ?_, ?_, ?_, ?_⟩
      · rw [noted, folded]
        simp
      · intro nodup
        have extended : (found ++ [parent]).Nodup :=
          List.nodup_append.mpr ⟨nodup, List.nodup_singleton _, by
            rintro type member other new rfl
            exact known (List.mem_singleton.mp new ▸ member)⟩
        simpa using distinct extended
      · intro type member
        obtain rfl | later := List.mem_cons.mp member
        · exact List.mem_cons_self
        · exact List.mem_cons_of_mem _ (among type later)
      · intro type member
        obtain rfl | later := List.mem_cons.mp member
        · simp
        · simpa using covers type later

/-- Nothing that was found is lost. -/
theorem mem_walk_of_mem (fuel : Nat) (member : above ∈ found) : above ∈ h.walk fuel found pending := by
  induction fuel generalizing found pending with
  | zero => exact member
  | succ fuel ih =>
    cases pending with
    | nil => exact member
    | cons type pending =>
      unfold walk
      split
      · exact member
      · obtain ⟨fresh, visited, -⟩ := foldl_visit (h.parents type) found pending
        rw [visited]
        exact ih (List.mem_append_left _ member)

/-- A walk finds the parents of its start, however many types are above it. -/
theorem mem_ancestors_of_mem_parents (step : above ∈ h.parents type) : above ∈ h.ancestors type := by
  -- The walk visits its start first, before it can give up.
  obtain ⟨fresh, visited, -, -, covers⟩ := foldl_visit (h.parents type) [] []
  unfold ancestors walk
  rw [if_neg (by simp), visited]
  exact mem_walk_of_mem _ (covers above step)

/-- What holds of a walk at every visit.  Found types are above the start, each is found once, and of
a type that was met and is not pending any more all parents have been found. -/
structure Walking (h : Hierarchy) (start : Ty) (found pending : List Ty) : Prop where
  nodup : found.Nodup
  above : ∀ type ∈ found, h.Above start type
  met : ∀ type ∈ pending, type = start ∨ type ∈ found
  closed : ∀ type, type = start ∨ type ∈ found →
    type ∈ pending ∨ ∀ parent ∈ h.parents type, parent ∈ found

namespace Walking

theorem begin (h : Hierarchy) (start : Ty) : h.Walking start [] [start] where
  nodup := List.nodup_nil
  above := by simp
  met := by simp
  closed := by simp

/-- Every visit keeps the invariant, and whatever it finds is pending afterwards. -/
theorem next (walking : h.Walking start found (type :: pending)) :
    let after := (h.parents type).foldl visit (found, pending)
    h.Walking start after.1 after.2 ∧
      after.1.length + pending.length = found.length + after.2.length := by
  intro after
  obtain ⟨fresh, folded, distinct, among, covers⟩ := foldl_visit (h.parents type) found pending
  have visited : after = (found ++ fresh, fresh.reverse ++ pending) := folded
  rw [visited]
  have reached : ∀ parent ∈ h.parents type, h.Above start parent := by
    intro parent step
    obtain rfl | member := walking.met type List.mem_cons_self
    · exact .single step
    · exact .tail (walking.above type member) step
  constructor
  · constructor
    case nodup => exact distinct walking.nodup
    case above =>
      intro other member
      obtain old | new := List.mem_append.mp member
      · exact walking.above other old
      · exact reached other (among other new)
    case met =>
      intro other member
      obtain new | old := List.mem_append.mp member
      · exact .inr (List.mem_append_right _ (List.mem_reverse.mp new))
      · obtain rfl | member := walking.met other (List.mem_cons_of_mem _ old)
        · exact .inl rfl
        · exact .inr (List.mem_append_left _ member)
    case closed =>
      intro other met
      by_cases new : other ∈ fresh
      · exact .inl (List.mem_append_left _ (List.mem_reverse.mpr new))
      -- Whatever is not new was met before; either it is the visited type, or nothing has changed.
      have before : other = start ∨ other ∈ found := by
        obtain same | member := met
        · exact .inl same
        · exact .inr ((List.mem_append.mp member).resolve_right new)
      obtain waits | done := walking.closed other before
      · obtain rfl | waits := List.mem_cons.mp waits
        · exact .inr covers
        · exact .inl (List.mem_append_right _ waits)
      · exact .inr fun parent step => List.mem_append_left _ (done parent step)
  · simp
    omega

/-- Where nothing is pending, everything above the start has been found. -/
theorem mem_of_above (walking : h.Walking start found []) (chain : h.Above start above) :
    above ∈ found := by
  have closed : ∀ type, type = start ∨ type ∈ found → ∀ parent ∈ h.parents type, parent ∈ found :=
    fun type met => (walking.closed type met).resolve_left List.not_mem_nil
  induction chain with
  | single step => exact closed start (.inl rfl) _ step
  | tail _ step ih => exact closed _ (.inr ih) _ step

/-- A walk finds nothing but types above its start. -/
theorem above_of_mem_walk (walking : h.Walking start found pending) (fuel : Nat)
    (member : above ∈ h.walk fuel found pending) : h.Above start above := by
  induction fuel generalizing found pending with
  | zero => exact walking.above above member
  | succ fuel ih =>
    cases pending with
    | nil => exact walking.above above member
    | cons type pending =>
      unfold walk at member
      split at member
      · exact walking.above above member
      · exact ih walking.next.1 member

/-- A walk never finds more types than there are above its start. -/
theorem length_le (walking : h.Walking start found pending) (few : h.FewAbove start) :
    found.length ≤ ancestorLimit := by
  obtain ⟨types, short, all⟩ := few
  have inside : found ⊆ types := fun type member => all type (walking.above type member)
  exact Nat.le_trans (List.subperm_of_subset walking.nodup inside).length_le short

/-- A walk with enough fuel finds everything above its start, if the limit does not end it. -/
theorem mem_walk_of_above (walking : h.Walking start found pending) (few : h.FewAbove start)
    {fuel : Nat} (fueled : fuel + found.length = ancestorLimit + 1 + pending.length)
    (chain : h.Above start above) : above ∈ h.walk fuel found pending := by
  induction fuel generalizing found pending with
  | zero =>
    -- Fuel runs out only after more visits than there are types to visit.
    have within := walking.length_le few
    omega
  | succ fuel ih =>
    have within := walking.length_le few
    cases pending with
    | nil => exact walking.mem_of_above chain
    | cons type pending =>
      unfold walk
      rw [if_neg (by omega)]
      obtain ⟨walks, balanced⟩ := walking.next
      apply ih walks
      simp only [List.length_cons] at fueled
      omega

end Walking

/-- A walk finds nothing but types above the one it started from. -/
theorem above_of_mem_ancestors (member : above ∈ h.ancestors type) : h.Above type above :=
  (Walking.begin h type).above_of_mem_walk _ member

/-- It finds all of them if they are few. -/
theorem mem_ancestors_iff (few : h.FewAbove type) : above ∈ h.ancestors type ↔ h.Above type above :=
  ⟨above_of_mem_ancestors, (Walking.begin h type).mem_walk_of_above few rfl⟩

end Interpose.Hierarchy
