import Interpose.Proofs.Substitution.Publication
import Mathlib.Data.List.Induction

/-!
# The first call map of a method

The call map of a method is made once.  Whoever asks for it later gets the same one, until all maps are
forgotten; what is offered in its place is not even made.  A map that cannot be made is as if nobody had
asked for it, so the next one to ask has a try.

## Main definitions

* `Publication.Operation`, `Publication.after` — what is published after a history of operations
* `Publication.FirstSince` — a map of a method was made first since all maps were forgotten
* `Publication.NoneSince` — no map of a method was made since then

## Main results

* `Publication.firstSince_or_noneSince` — every history made a first map of a method, or none
* `Publication.get?_of_firstSince`, `Publication.get?_of_noneSince` — the map that a method has is that one
* `Publication.first_population_is_seen` — everybody sees the map that was made first
-/

namespace Interpose

namespace Publication

/-- What somebody does with the published maps. -/
inductive Operation where
  | publish (host : Method) (populate : Nat → Except Error CallMap)
  | get (host : Method)
  | contains (host : Method)
  | size
  | clear

/-- What is published after an operation. -/
def Operation.perform (p : Publication) : Operation → Publication
  | .publish host populate => (p.publish host populate).2
  | .get _ | .contains _ | .size => p
  | .clear => p.clear

/-- What is published after a history of operations. -/
def after (history : List Operation) : Publication := history.foldl Operation.perform {}

/-- The part of a history since all maps were forgotten, or since the beginning. -/
structure SinceClear (history old recent : List Operation) : Prop where
  eq : history = old ++ recent
  cleared : old = [] ∨ ∃ before, old = before ++ [.clear]
  kept : .clear ∉ recent

/-- Whoever has asked for the map of a method recently got an error.  A map is made from the number that
it would have. -/
def AllFail (host : Method) (old recent : List Operation) : Prop :=
  ∀ before populate later, recent = before ++ .publish host populate :: later →
    ∃ e, populate (after (old ++ before)).maps.size = .error e

/-- The map that was the first one to be made for a method since all maps were forgotten, with its
number. -/
inductive FirstSince (history : List Operation) (host : Method) (id : Nat) (map : CallMap) : Prop
  | intro {old tried later : List Operation} {populate : Nat → Except Error CallMap}
    (split : SinceClear history old (tried ++ .publish host populate :: later))
    (failed : AllFail host old tried) (number : (after (old ++ tried)).maps.size = id)
    (made : populate id = .ok map)

/-- No map was made for a method since all maps were forgotten. -/
inductive NoneSince (history : List Operation) (host : Method) : Prop
  | intro {old recent : List Operation} (split : SinceClear history old recent)
    (failed : AllFail host old recent)

variable {p : Publication} {host : Method} {id : Nat} {map : CallMap} {e : Error}
  {populate : Nat → Except Error CallMap} {history old recent : List Operation} {operation : Operation}

theorem after_concat (history : List Operation) (operation : Operation) :
    after (history ++ [operation]) = operation.perform (after history) := by
  rw [after, List.foldl_append]
  rfl

/-! ## What a history has made -/

theorem SinceClear.concat (split : SinceClear history old recent) (kept : operation ≠ .clear) :
    SinceClear (history ++ [operation]) old (recent ++ [operation]) where
  eq := by rw [split.eq, List.append_assoc]
  cleared := split.cleared
  kept := by
    rw [List.mem_append, List.mem_singleton]
    exact not_or.mpr ⟨split.kept, kept.symm⟩

theorem AllFail.nil (host : Method) (old : List Operation) : AllFail host old [] := by
  intro before populate later parts
  simp at parts

theorem AllFail.of_concat (failed : AllFail host old (recent ++ [operation])) :
    AllFail host old recent := by
  rintro before populate later rfl
  exact failed before populate (later ++ [operation]) (by simp)

theorem AllFail.concat (failed : AllFail host old recent)
    (fails : ∀ populate, operation = .publish host populate →
      ∃ e, populate (after (old ++ recent)).maps.size = .error e) :
    AllFail host old (recent ++ [operation]) := by
  intro before populate later parts
  -- It is the operation at the end that asks for the map, or one before it.
  obtain rfl | ⟨later, last, rfl⟩ := List.eq_nil_or_concat later
  · obtain ⟨rfl, same⟩ := List.append_inj' parts rfl
    exact fails populate (List.singleton_inj.mp same)
  · rw [List.concat_eq_append, ← List.cons_append, ← List.append_assoc] at parts
    exact failed before populate later (List.append_inj' parts rfl).1

theorem FirstSince.concat (first : FirstSince history host id map) (kept : operation ≠ .clear) :
    FirstSince (history ++ [operation]) host id map := by
  obtain ⟨split, failed, number, made⟩ := first
  have extended := split.concat kept
  rw [List.append_assoc, List.cons_append] at extended
  exact ⟨extended, failed, number, made⟩

/-- The first map since all maps were forgotten is one that nobody else had made before. -/
theorem NoneSince.firstSince (absent : NoneSince history host)
    (made : populate (after history).maps.size = .ok map) :
    FirstSince (history ++ [.publish host populate]) host (after history).maps.size map := by
  obtain ⟨split, failed⟩ := absent
  refine ⟨split.concat nofun, failed, ?_, made⟩
  rw [split.eq]

theorem NoneSince.concat (absent : NoneSince history host) (kept : operation ≠ .clear)
    (fails : ∀ populate, operation = .publish host populate →
      ∃ e, populate (after history).maps.size = .error e) :
    NoneSince (history ++ [operation]) host := by
  obtain ⟨split, failed⟩ := absent
  refine ⟨split.concat kept, failed.concat fun populate same => ?_⟩
  rw [← split.eq]
  exact fails populate same

theorem noneSince_nil (host : Method) : NoneSince [] host :=
  ⟨⟨rfl, .inl rfl, List.not_mem_nil⟩, .nil host []⟩

theorem noneSince_clear (history : List Operation) (host : Method) :
    NoneSince (history ++ [.clear]) host :=
  ⟨⟨(List.append_nil _).symm, .inr ⟨history, rfl⟩, List.not_mem_nil⟩, .nil host _⟩

/-- Every history has made a first map of a method since all maps were forgotten, or none. -/
theorem firstSince_or_noneSince (history : List Operation) (host : Method) :
    (∃ id map, FirstSince history host id map) ∨ NoneSince history host := by
  induction history using List.reverseRecOn with
  | nil => exact .inr (noneSince_nil host)
  | append_singleton history operation ih =>
    -- The last operation forgets all maps, makes the first one of the method, or does neither.
    by_cases cleared : operation = .clear
    · exact .inr (cleared ▸ noneSince_clear history host)
    · obtain ⟨id, map, first⟩ | absent := ih
      · exact .inl ⟨id, map, first.concat cleared⟩
      · by_cases fails : ∀ populate, operation = .publish host populate →
            ∃ e, populate (after history).maps.size = .error e
        · exact .inr (absent.concat cleared fails)
        · push Not at fails
          obtain ⟨populate, rfl, succeeds⟩ := fails
          cases made : populate (after history).maps.size with
          | ok map => exact .inl ⟨_, map, absent.firstSince made⟩
          | error e => exact absurd made (succeeds e)

/-! ## What everybody sees -/

/-- No operation but that of forgetting them takes a map from its method. -/
theorem perform_of_get? (kept : operation ≠ .clear) (published : p.get? host = some id)
    (held : p.maps[id]? = some map) :
    (operation.perform p).get? host = some id ∧ (operation.perform p).maps[id]? = some map := by
  cases operation with
  | publish other populate =>
    exact ⟨get?_publish published other populate, getElem?_publish held other populate⟩
  | clear => exact absurd rfl kept
  | get _ | contains _ | size => exact ⟨published, held⟩

/-- No operation but that of making one gives a map to a method. -/
theorem get?_perform_of_none (unpublished : p.get? host = none)
    (fails : ∀ populate, operation = .publish host populate → ∃ e, populate p.maps.size = .error e) :
    (operation.perform p).get? host = none := by
  cases operation with
  | publish other populate =>
    change (p.publish other populate).2.get? host = none
    rcases p.publish_cases other populate with ⟨id, -, result⟩ |
      ⟨missing, ⟨map, made, result⟩ | ⟨e, -, result⟩⟩
    · rwa [result]
    · rw [result]
      -- A map was made, so it is not for this method, for which none can be made.
      have differ : host ≠ other := by
        rintro rfl
        obtain ⟨e, failed⟩ := fails populate rfl
        cases made.symm.trans failed
      exact (get?_add_of_ne missing differ).trans unpublished
    · rwa [result]
  | clear => rfl
  | get _ | contains _ | size => exact unpublished

/-- As long as maps are not forgotten, a method keeps the map that it has. -/
theorem after_append_of_get? (kept : .clear ∉ recent) (published : (after old).get? host = some id)
    (held : (after old).maps[id]? = some map) :
    (after (old ++ recent)).get? host = some id ∧ (after (old ++ recent)).maps[id]? = some map := by
  induction recent using List.reverseRecOn with
  | nil => exact ⟨by rwa [List.append_nil], by rwa [List.append_nil]⟩
  | append_singleton recent operation ih =>
    rw [List.mem_append, List.mem_singleton, not_or] at kept
    obtain ⟨published, held⟩ := ih kept.1
    rw [← List.append_assoc, after_concat]
    exact perform_of_get? (Ne.symm kept.2) published held

theorem get?_after_of_cleared (cleared : old = [] ∨ ∃ before, old = before ++ [.clear]) :
    (after old).get? host = none := by
  obtain rfl | ⟨before, rfl⟩ := cleared
  · rfl
  · rw [after_concat]
    rfl

/-- As long as no map can be made for it, a method has none. -/
theorem get?_after_of_allFail (cleared : old = [] ∨ ∃ before, old = before ++ [.clear])
    (failed : AllFail host old recent) : (after (old ++ recent)).get? host = none := by
  induction recent using List.reverseRecOn with
  | nil =>
    rw [List.append_nil]
    exact get?_after_of_cleared cleared
  | append_singleton recent operation ih =>
    rw [← List.append_assoc, after_concat]
    refine get?_perform_of_none (ih failed.of_concat) fun populate same => ?_
    exact failed recent populate [] (by rw [same])

/-- The first map that was made for a method is the one that it has. -/
theorem get?_of_firstSince (first : FirstSince history host id map) :
    (after history).get? host = some id ∧ (after history).maps[id]? = some map := by
  obtain @⟨old, tried, later, populate, split, failed, rfl, made⟩ := first
  -- The method has no map up to the moment when this one is made, and keeps it from then on.
  have unpublished : (after (old ++ tried)).get? host = none :=
    get?_after_of_allFail split.cleared failed
  have result : after (old ++ tried ++ [.publish host populate]) =
      (after (old ++ tried)).add host map := by
    rw [after_concat, Operation.perform, publish_of_none unpublished, made]
  have parts : history = old ++ tried ++ [.publish host populate] ++ later := by
    rw [split.eq]
    simp
  rw [parts]
  apply after_append_of_get?
  · exact fun cleared => split.kept (by simp [cleared])
  · rw [result]
    exact get?_add_self unpublished
  · rw [result]
    exact getElem?_add_self _ host map

theorem get?_of_noneSince (absent : NoneSince history host) : (after history).get? host = none := by
  obtain ⟨split, failed⟩ := absent
  rw [split.eq]
  exact get?_after_of_allFail split.cleared failed

theorem get?_after_iff :
    (after history).get? host = some id ∧ (after history).maps[id]? = some map ↔
      FirstSince history host id map := by
  refine ⟨fun ⟨published, held⟩ => ?_, get?_of_firstSince⟩
  -- The map that the method has is the one that the history made first, since it has only one.
  obtain ⟨id', map', first⟩ | absent := firstSince_or_noneSince history host
  · obtain ⟨published', held'⟩ := get?_of_firstSince first
    cases published.symm.trans published'
    cases held.symm.trans held'
    exact first
  · cases published.symm.trans (get?_of_noneSince absent)

theorem isSome_get?_after_iff :
    ((after history).get? host).isSome = true ↔ ∃ id map, FirstSince history host id map := by
  constructor
  · intro published
    obtain first | absent := firstSince_or_noneSince history host
    · exact first
    · rw [get?_of_noneSince absent] at published
      cases published
  · rintro ⟨id, map, first⟩
    rw [(get?_of_firstSince first).1]
    rfl

/-! ## How many methods have a map -/

/-- No method has two slots. -/
def Distinct (p : Publication) : Prop := (p.slots.map Prod.fst).Nodup

theorem Distinct.perform (distinct : p.Distinct) (operation : Operation) :
    (operation.perform p).Distinct := by
  cases operation with
  | publish host populate =>
    change (p.publish host populate).2.Distinct
    rcases p.publish_cases host populate with ⟨id, -, result⟩ |
      ⟨unpublished, ⟨map, -, result⟩ | ⟨e, -, result⟩⟩
    · rwa [result]
    · rw [result, Distinct, slots_add unpublished, List.map_append, List.map_singleton,
        List.nodup_append]
      refine ⟨distinct, List.pairwise_singleton _ host, fun other listed host' new => ?_⟩
      obtain ⟨entry, member, rfl⟩ := List.mem_map.mp listed
      rw [List.mem_singleton.mp new]
      exact Slots.ne_of_lookup_eq_none (lookup_eq_none unpublished) member
    · rwa [result]
  | clear => exact List.nodup_nil
  | get _ | contains _ | size => exact distinct

theorem distinct_after (history : List Operation) : (after history).Distinct := by
  induction history using List.reverseRecOn with
  | nil => exact List.nodup_nil
  | append_singleton history operation ih =>
    rw [after_concat]
    exact ih.perform operation

/-- The methods with a slot are those that have a map. -/
theorem mem_slots_iff : host ∈ p.slots.map Prod.fst ↔ (p.get? host).isSome = true := by
  constructor
  · intro listed
    obtain ⟨entry, member, rfl⟩ := List.mem_map.mp listed
    by_contra unpublished
    rw [Option.not_isSome_iff_eq_none] at unpublished
    exact Slots.ne_of_lookup_eq_none (lookup_eq_none unpublished) member rfl
  · intro published
    obtain ⟨id, found⟩ := Option.isSome_iff_exists.mp published
    obtain ⟨before, behind, parts, -⟩ := List.lookup_eq_some_iff.mp (Option.join_eq_some_iff.mp found)
    rw [parts]
    simp

/-- After every history the map of a method is the one that was made first since all maps were forgotten:
whoever asks for it gets this one, and what is offered in its place does not run.  If none was made, what
is offered runs, and a map that it makes is the first one, while its error leaves no trace.  The methods
that have a map, and are counted, are those for which one was made. -/
theorem first_population_is_seen (history : List Operation) (host : Method) :
    (∀ id map, FirstSince history host id map → ∀ {m : Type → Type} [Monad m]
      (populate : Nat → m (Except Error CallMap)),
      (after history).publishM host populate = pure (.ok id, after history)) ∧
    ((∀ id map, ¬ FirstSince history host id map) →
      (∀ {m : Type → Type} [Monad m] (populate : Nat → m (Except Error CallMap)),
        (after history).publishM host populate = (do
          match ← populate (after history).maps.size with
          | .ok map => return (.ok (after history).maps.size, (after history).add host map)
          | .error e => return (.error e, after history))) ∧
      ∀ populate map, populate (after history).maps.size = .ok map →
        after (history ++ [.publish host populate]) = (after history).add host map ∧
        FirstSince (history ++ [.publish host populate]) host (after history).maps.size map) ∧
    (∀ id, (after history).get? host = some id ↔ ∃ map, FirstSince history host id map) ∧
    (∀ map, (after history).map? host = some map ↔ ∃ id, FirstSince history host id map) ∧
    ((after history).contains host = true ↔ ∃ id map, FirstSince history host id map) ∧
    ∃ hosts : List Method, hosts.Nodup ∧ hosts.length = (after history).size ∧
      ∀ other, other ∈ hosts ↔ ∃ id map, FirstSince history other id map := by
  refine ⟨fun id map first => publishM_of_some (get?_of_firstSince first).1, fun missing => ?_,
    fun id => ?_, fun map => ?_, isSome_get?_after_iff, ?_⟩
  · -- A method without a first map has no map since all maps were forgotten.
    have absent : NoneSince history host :=
      (firstSince_or_noneSince history host).resolve_left fun ⟨id, map, first⟩ => missing id map first
    have unpublished := get?_of_noneSince absent
    refine ⟨publishM_of_none unpublished, fun populate map made => ⟨?_, absent.firstSince made⟩⟩
    rw [after_concat, Operation.perform, publish_of_none unpublished, made]
  · constructor
    · intro published
      obtain ⟨id', map, first⟩ := isSome_get?_after_iff.mp (Option.isSome_of_eq_some published)
      cases published.symm.trans (get?_of_firstSince first).1
      exact ⟨map, first⟩
    · exact fun ⟨map, first⟩ => (get?_of_firstSince first).1
  · constructor
    · intro published
      obtain ⟨id, numbered, held⟩ := Option.bind_eq_some_iff.mp published
      exact ⟨id, get?_after_iff.mp ⟨numbered, held⟩⟩
    · exact fun ⟨id, first⟩ => Option.bind_eq_some_iff.mpr ⟨id, get?_of_firstSince first⟩
  · refine ⟨(after history).slots.map Prod.fst, distinct_after history, List.length_map _, ?_⟩
    exact fun other => mem_slots_iff.trans isSome_get?_after_iff

/-- A method that feeds or walks an animal. -/
def handle (name : String) : Method where
  declaringType := .classType "Demo.Park"
  name := name

/-- Somebody fails to make a map for a method, and somebody else makes one for it and for another one. -/
def retried : List Operation := [.publish (handle "Walk") fun _ => .error (.substitute "no"),
  .publish (handle "Walk") fun id => .ok { hierarchy := .unknown, id }, .contains (handle "Walk"),
  .publish (handle "Feed") fun id => .ok { hierarchy := .unknown, id }]

theorem first_population_is_seen_retried :
    (∃ map, FirstSince retried (handle "Walk") 0 map) ∧
    (after retried).publishM (handle "Walk") (fun _ => none) = some (.ok 0, after retried) ∧
    (∀ id map, ¬ FirstSince (retried ++ [.clear]) (handle "Walk") id map) ∧
    (after (retried ++ [.clear])).publishM (handle "Walk") (fun _ => none) = none ∧
    ∃ hosts : List Method, hosts.Nodup ∧ hosts.length = 2 ∧
      ∀ other, other ∈ hosts ↔ ∃ id map, FirstSince retried other id map := by
  obtain ⟨once, -, published, -, -, hosts⟩ := first_population_is_seen retried (handle "Walk")
  obtain ⟨-, again, -, -, contained, -⟩ :=
    first_population_is_seen (retried ++ [.clear]) (handle "Walk")
  obtain ⟨map, first⟩ := (published 0).mp (by decide)
  have missing : ∀ id map, ¬ FirstSince (retried ++ [.clear]) (handle "Walk") id map :=
    fun id map first => absurd (contained.mpr ⟨id, map, first⟩) (by decide)
  exact ⟨⟨map, first⟩, once 0 map first _, missing, (again missing).1 _, hosts⟩

end Publication

end Interpose
