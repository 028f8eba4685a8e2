import Interpose.Proofs.Module.Conformance
import Mathlib.Data.List.Chain

/-!
# How far a walk up the hierarchy reaches

The limit of a walk is on the number of types that it has found, and not on how far up it has come.  So
a type may be missed although it is only two steps away: it is enough that there are many types above
the start, and that the walk meets them first.  The order of the visits decides what is missed, and it is
the order in which a walk without a limit makes them.

## Main definitions

* `Hierarchy.Unlimited` — where a walk without a limit has got to after a number of visits
* `Hierarchy.VisitedEarly` — such a walk visits a type while it has found few types

## Main results

* `Unlimited.ancestors_eq` — the limit changes nothing as long as few types have been found
* `exists_stop` — every walk stops after few visits
* `mem_ancestors_iff_visited` — what a walk finds
* `exists_others_of_not_mem_ancestors` — a walk misses a type only if there are many others
* `Ty.assignableFrom_iff_visited` — what a value can be held as, for every hierarchy
* `Module.not_forall_near_assignable` — that need not be so two steps up
-/

namespace Interpose

namespace Hierarchy

variable {h : Hierarchy} {start type above : Ty} {visits fuel : Nat} {found pending : List Ty}

/-- After so many visits a walk from a type that no limit ends has found some types, and has some of them
left to visit. -/
inductive Unlimited (h : Hierarchy) (start : Ty) : (visits : Nat) → (found pending : List Ty) → Prop
  | begin : Unlimited h start 0 [] [start]
  | next {visits : Nat} {found pending : List Ty} {type : Ty}
    (before : Unlimited h start visits found (type :: pending)) :
    Unlimited h start (visits + 1) ((h.parents type).foldl visit (found, pending)).1
      ((h.parents type).foldl visit (found, pending)).2

namespace Unlimited

theorem walking (walk : h.Unlimited start visits found pending) : h.Walking start found pending := by
  induction walk with
  | begin => exact .begin h start
  | next _ ih => exact ih.next.1

/-- Every type but the first is found before it is visited. -/
theorem balanced (walk : h.Unlimited start visits found pending) :
    visits + pending.length = found.length + 1 := by
  induction walk with
  | begin => rfl
  | next before ih =>
    have visited := before.walking.next.2
    rw [List.length_cons] at ih
    omega

/-- As long as few types have been found, the walk with the limit has made the same visits. -/
theorem ancestors_eq (walk : h.Unlimited start visits found pending)
    (within : found.length ≤ ancestorLimit) :
    ∃ fuel, fuel + visits = ancestorLimit + 2 ∧ h.ancestors start = h.walk fuel found pending := by
  induction walk with
  | begin => exact ⟨ancestorLimit + 2, rfl, rfl⟩
  | @next visits found pending type before ih =>
    obtain ⟨fresh, folded, -⟩ := foldl_visit (h.parents type) found pending
    have grows : found.length ≤ ((h.parents type).foldl visit (found, pending)).1.length := by
      rw [folded, List.length_append]
      exact Nat.le_add_right _ _
    have before_within := Nat.le_trans grows within
    obtain ⟨fuel, fueled, same⟩ := ih before_within
    have balanced := before.balanced
    rw [List.length_cons] at balanced
    obtain ⟨fuel, rfl⟩ : ∃ rest, fuel = rest + 1 := ⟨fuel - 1, by omega⟩
    refine ⟨fuel, by omega, ?_⟩
    rw [same, walk, if_neg (Nat.not_lt.mpr before_within)]

/-- A walk stops, since it has nothing left to visit or has found too much.  It has made no more visits
than there may be types found, and one. -/
theorem exists_stop (walk : h.Unlimited start visits found pending)
    (fueled : fuel + visits = ancestorLimit + 2) (early : visits ≤ ancestorLimit + 1) :
    ∃ visits' found' pending', visits' ≤ ancestorLimit + 1 ∧
      h.Unlimited start visits' found' pending' ∧
      (pending' = [] ∨ ancestorLimit < found'.length) ∧ h.walk fuel found pending = found' := by
  induction fuel generalizing visits found pending with
  | zero => omega
  | succ fuel ih =>
    cases pending with
    | nil => exact ⟨visits, found, [], early, walk, .inl rfl, rfl⟩
    | cons type pending =>
      by_cases full : ancestorLimit < found.length
      · exact ⟨visits, found, type :: pending, early, walk, .inr full, by rw [Hierarchy.walk, if_pos full]⟩
      · have balanced := walk.balanced
        rw [List.length_cons] at balanced
        obtain ⟨visits', found', pending', few, stopped, stops, same⟩ :=
          ih walk.next (by omega) (by omega)
        refine ⟨visits', found', pending', few, stopped, stops, ?_⟩
        rw [Hierarchy.walk, if_neg full, same]

end Unlimited

/-- Every walk stops after few visits, whatever the hierarchy is like, and what it has found by then is
its result. -/
theorem exists_stop (h : Hierarchy) (start : Ty) :
    ∃ visits pending, visits ≤ ancestorLimit + 1 ∧
      h.Unlimited start visits (h.ancestors start) pending ∧
      (pending = [] ∨ ancestorLimit < (h.ancestors start).length) := by
  obtain ⟨visits, found, pending, few, stopped, stops, same⟩ :=
    Unlimited.exists_stop (.begin : h.Unlimited start 0 [] [start]) rfl (Nat.zero_le _)
  have result : h.ancestors start = found := same
  rw [result]
  exact ⟨visits, pending, few, stopped, stops⟩

/-- A type is visited by a walk without a limit, at a time when few types have been found. -/
def VisitedEarly (h : Hierarchy) (start type : Ty) : Prop :=
  ∃ visits found pending, h.Unlimited start visits found (type :: pending) ∧
    found.length ≤ ancestorLimit

/-- Whatever a walk adds is directly above a type that it visits. -/
theorem exists_visitedEarly_of_mem_walk (walk : h.Unlimited start visits found pending)
    (known : ∀ above ∈ found, ∃ type, h.VisitedEarly start type ∧ above ∈ h.parents type)
    (member : above ∈ h.walk fuel found pending) :
    ∃ type, h.VisitedEarly start type ∧ above ∈ h.parents type := by
  induction fuel generalizing visits found pending with
  | zero => exact known above member
  | succ fuel ih =>
    cases pending with
    | nil => exact known above member
    | cons type pending =>
      unfold Hierarchy.walk at member
      split at member
      case isTrue => exact known above member
      case isFalse within =>
        refine ih walk.next ?_ member
        obtain ⟨fresh, folded, -, among, -⟩ := foldl_visit (h.parents type) found pending
        rw [folded]
        intro other later
        obtain old | new := List.mem_append.mp later
        · exact known other old
        · exact ⟨type, ⟨visits, found, pending, walk, Nat.not_lt.mp within⟩, among other new⟩

/-- A walk finds the types directly above those that it visits before it has found too much. -/
theorem mem_ancestors_iff_visited : above ∈ h.ancestors start ↔
    ∃ type, h.VisitedEarly start type ∧ above ∈ h.parents type := by
  constructor
  · exact exists_visitedEarly_of_mem_walk .begin (by simp)
  · rintro ⟨type, ⟨visits, found, pending, walk, within⟩, step⟩
    obtain ⟨fuel, fueled, same⟩ := walk.ancestors_eq within
    have balanced := walk.balanced
    rw [List.length_cons] at balanced
    obtain ⟨fuel, rfl⟩ : ∃ rest, fuel = rest + 1 := ⟨fuel - 1, by omega⟩
    obtain ⟨fresh, folded, -, -, covers⟩ := foldl_visit (h.parents type) found pending
    rw [same, Hierarchy.walk, if_neg (Nat.not_lt.mpr within), folded]
    exact mem_walk_of_mem fuel (covers above step)

/-- A walk misses a type that is above its start only if there are many other types above it, however
far up the type is. -/
theorem exists_others_of_not_mem_ancestors (chain : h.Above start above)
    (missed : above ∉ h.ancestors start) :
    ∃ others : List Ty, others.Nodup ∧ ancestorLimit < others.length ∧ above ∉ others ∧
      ∀ other ∈ others, h.Above start other := by
  obtain ⟨visits, pending, -, stopped, stops⟩ := exists_stop h start
  refine ⟨h.ancestors start, stopped.walking.nodup, ?_, missed, stopped.walking.above⟩
  obtain rfl | full := stops
  · exact absurd (stopped.walking.mem_of_above chain) missed
  · exact full

end Hierarchy

namespace Ty

variable {a c : Ty}

/-- A type whose values are references can hold the values of another one just if a walk finds it. -/
theorem assignableFrom_iff_mem_ancestors (h : Hierarchy) (isReference : a.isReference = true)
    (reference : c.isValueType = false) (definite : c.isGenericParameter = false) :
    a.assignableFrom h c = true ↔ a = c ∨ a ∈ h.ancestors c := by
  obtain ⟨nominal, targetReference⟩ := Bool.and_eq_true_iff.mp isReference
  rw [Bool.not_eq_true'] at targetReference
  by_cases same : a = c
  · rw [same]
    exact iff_of_true (assignableFrom_self h c) (.inl rfl)
  · rw [assignableFrom_of_nominal nominal same, definite, targetReference, reference, or_iff_right same]
    simp

/-- A type can hold the values of another one just if it is the same, or directly above a type that a walk
without a limit visits while it has found few types.  So it holds only values of types below it; it fails
to hold those of a type below it only if there are many others above that; and it is decided after few
visits. -/
theorem assignableFrom_iff_visited (h : Hierarchy) (a c : Ty) (isReference : a.isReference = true)
    (reference : c.isValueType = false) (definite : c.isGenericParameter = false) :
    (a.assignableFrom h c = true ↔ a = c ∨ ∃ type, h.VisitedEarly c type ∧ a ∈ h.parents type) ∧
    (a ≠ c → ¬ h.Above c a → a.assignableFrom h c = false) ∧
    (h.Above c a → a.assignableFrom h c = false →
      ∃ others : List Ty, others.Nodup ∧ Hierarchy.ancestorLimit < others.length ∧ a ∉ others ∧
        ∀ other ∈ others, h.Above c other) ∧
    ∃ visits pending, visits ≤ Hierarchy.ancestorLimit + 1 ∧
      h.Unlimited c visits (h.ancestors c) pending ∧
      (pending = [] ∨ Hierarchy.ancestorLimit < (h.ancestors c).length) := by
  have decides := assignableFrom_iff_mem_ancestors h isReference reference definite
  refine ⟨?_, ?_, ?_, h.exists_stop c⟩
  · rw [decides, Hierarchy.mem_ancestors_iff_visited]
  · intro differ apart
    rw [← Bool.not_eq_true, decides, not_or]
    exact ⟨differ, fun found => apart (Hierarchy.above_of_mem_ancestors found)⟩
  · intro chain fails
    rw [← Bool.not_eq_true, decides, not_or] at fails
    exact Hierarchy.exists_others_of_not_mem_ancestors chain fails.2

end Ty

namespace Module

/-- The names of many interfaces. -/
def interfaceNames : List String := (List.range 64).map fun n => "Demo.I" ++ toString n

/-- A class with a base type, which has one itself, and with many interfaces. -/
def wideModule : Module where
  name := "Demo"
  types := interfaceNames.toArray.map .ofInterface ++
    #[.ofClass "Demo.Top", { name := "Demo.Middle", base := some (.classType "Demo.Top") },
      { name := "Demo.Wide"
        base := some (.classType "Demo.Middle")
        interfaces := interfaceNames.map .classType }]

/-- A walk that begins at the class stops after its first visit. -/
theorem assignableFrom_wide :
    (Ty.classType "Demo.Top").assignableFrom wideModule.hierarchy (.classType "Demo.Wide") = false := by
  decide +kernel

theorem assignableFrom_iff_visited_wide :
    (Ty.classType "Demo.Middle").assignableFrom wideModule.hierarchy (.classType "Demo.Wide") = true ∧
    (Ty.classType "Demo.Top").assignableFrom wideModule.hierarchy (.classType "Demo.Wide") = false ∧
    ∃ others : List Ty, others.Nodup ∧ Hierarchy.ancestorLimit < others.length ∧
      Ty.classType "Demo.Top" ∉ others ∧
      ∀ other ∈ others, wideModule.hierarchy.Above (.classType "Demo.Wide") other := by
  have first : Ty.classType "Demo.Middle" ∈ wideModule.hierarchy.parents (.classType "Demo.Wide") := by
    decide +kernel
  have second : Ty.classType "Demo.Top" ∈ wideModule.hierarchy.parents (.classType "Demo.Middle") := by
    decide +kernel
  obtain ⟨near, -⟩ := Ty.assignableFrom_iff_visited wideModule.hierarchy (.classType "Demo.Middle")
    (.classType "Demo.Wide") rfl rfl rfl
  obtain ⟨-, -, far, -⟩ := Ty.assignableFrom_iff_visited wideModule.hierarchy (.classType "Demo.Top")
    (.classType "Demo.Wide") rfl rfl rfl
  -- The class itself is visited before anything is found, and its base type is directly above it.
  exact ⟨near.mpr (.inr ⟨_, ⟨0, [], [], .begin, Nat.zero_le _⟩, first⟩), assignableFrom_wide,
    far (.tail (.single first) second) assignableFrom_wide⟩

/-- A type need not hold the values of a type that a short chain leads up from. -/
theorem not_forall_near_assignable : ¬ ∀ (m : Module) (a c : Ty) (chain : List Ty),
    a.isReference = true → c.isReference = true →
    List.IsChain (fun type parent => parent ∈ m.hierarchy.parents type) (c :: chain) →
    chain.getLast? = some a → chain.length ≤ Hierarchy.ancestorLimit →
    a.assignableFrom m.hierarchy c = true := by
  intro claimed
  have holds := claimed wideModule (.classType "Demo.Top") (.classType "Demo.Wide")
    [.classType "Demo.Middle", .classType "Demo.Top"] rfl rfl (by decide +kernel) rfl (by decide)
  rw [assignableFrom_wide] at holds
  cases holds

end Module

end Interpose
