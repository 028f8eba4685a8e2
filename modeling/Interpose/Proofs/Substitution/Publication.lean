import Interpose.Substitution.Publication

/-!
# Asking for a call map

Between two operations on the published call maps no slot is empty.  So whoever asks for the call map of
a method finds one that was made before, or none at all.  A map that is made comes behind all the others,
and one that cannot be made leaves everything as it was.

## Main results

* `Publication.publishM_of_some` — a method that has a map keeps it, and none is made
* `Publication.publishM_of_none` — a method that has none gets the one that is made, or none
* `Publication.publish_cases` — the three outcomes when somebody asks for a map
* `Publication.get?_publish`, `Publication.getElem?_publish` — what is published stays what it is
-/

namespace Interpose

/-- A new entry at the end of an array leaves the others where they are. -/
theorem getElem?_push_of_some {α : Type} {array : Array α} {index : Nat} {a : α}
    (known : array[index]? = some a) (last : α) : (array.push last)[index]? = some a := by
  obtain ⟨inside, -⟩ := Array.getElem?_eq_some_iff.mp known
  rw [Array.getElem?_push_lt inside, ← known, Array.getElem?_eq_getElem inside]

namespace Slots

variable {slots : Slots} {host : Method} {slot : Option Nat}

theorem insertNew_of_none (unknown : slots.lookup host = none) (slot : Option Nat) :
    slots.insertNew host slot = slots ++ [(host, slot)] := by
  rw [insertNew, unknown]
  rfl

theorem insertNew_of_some (known : slots.lookup host = some slot) (other : Option Nat) :
    slots.insertNew host other = slots := by
  rw [insertNew, known]
  rfl

/-- No other entry is that of a method without slot. -/
theorem ne_of_lookup_eq_none (unknown : slots.lookup host = none) {entry : Method × Option Nat}
    (member : entry ∈ slots) : entry.1 ≠ host := by
  rintro rfl
  simpa using List.lookup_eq_none_iff.mp unknown entry member

/-- A map that was made is in a new slot behind the others. -/
theorem publish_of_none (unknown : slots.lookup host = none) (id : Nat) :
    slots.publish host id = slots ++ [(host, some id)] := by
  have others : slots.fill host id = slots := by
    refine (List.map_congr_left fun entry member => ?_).trans (List.map_id slots)
    exact if_neg (ne_of_lookup_eq_none unknown member)
  have filled : (slots ++ [(host, none)] : Slots).fill host id = slots ++ [(host, some id)] := by
    calc (slots ++ [(host, none)] : Slots).fill host id
        = slots.fill host id ++ [(host, some id)] := by simp [fill]
      _ = slots ++ [(host, some id)] := by rw [others]
  have known : (slots ++ [(host, some id)] : Slots).lookup host = some (some id) := by
    rw [List.lookup_append, unknown, Option.none_or, List.lookup_cons_self]
  rw [publish, reserve, insertNew_of_none unknown, filled, insertNew_of_some known]

/-- Nothing is left of a slot whose map could not be made. -/
theorem withdraw_of_none (unknown : slots.lookup host = none) : slots.withdraw host = slots := by
  have others : slots.filter (fun entry => entry.1 ≠ host) = slots :=
    List.filter_eq_self.mpr fun entry member =>
      decide_eq_true (ne_of_lookup_eq_none unknown member)
  rw [withdraw, reserve, insertNew_of_none unknown, remove, List.filter_append, others]
  simp

/-- A method without map has no slot, since no slot is empty. -/
theorem Settled.lookup_eq_none (settled : slots.Settled) (unpublished : (slots.lookup host).join = none) :
    slots.lookup host = none := by
  obtain unknown | empty := Option.join_eq_none_iff.mp unpublished
  · exact unknown
  · obtain ⟨before, behind, rfl, -⟩ := List.lookup_eq_some_iff.mp empty
    have filled := settled (host, none) (by simp)
    cases filled

end Slots

namespace Publication

variable {p : Publication} {host other : Method} {id : Nat} {map : CallMap} {e : Error}
  {populate : Nat → Except Error CallMap}

theorem lookup_eq_none (unpublished : p.get? host = none) : p.slots.lookup host = none :=
  p.settled.lookup_eq_none unpublished

theorem slots_add (unpublished : p.get? host = none) :
    (p.add host map).slots = p.slots ++ [(host, some p.maps.size)] :=
  Slots.publish_of_none (lookup_eq_none unpublished) p.maps.size

theorem get?_add_self (unpublished : p.get? host = none) :
    (p.add host map).get? host = some p.maps.size := by
  rw [get?, slots_add unpublished, List.lookup_append, lookup_eq_none unpublished, Option.none_or,
    List.lookup_cons_self]
  rfl

theorem get?_add_of_ne (unpublished : p.get? host = none) (differ : other ≠ host) :
    (p.add host map).get? other = p.get? other := by
  have elsewhere : (other == host) = false := by simpa using differ
  rw [get?, slots_add unpublished, List.lookup_append, List.lookup_cons, elsewhere, List.lookup_nil,
    Option.or_none]
  rfl

theorem getElem?_add_self (p : Publication) (host : Method) (map : CallMap) :
    (p.add host map).maps[p.maps.size]? = some map := Array.getElem?_push_size

theorem getElem?_add_of_some (held : p.maps[id]? = some map) (host : Method) (added : CallMap) :
    (p.add host added).maps[id]? = some map := getElem?_push_of_some held added

/-- Whoever asks for the map of a method that has one gets it, and nothing else happens. -/
theorem publishM_of_some {m : Type → Type} [Monad m] (published : p.get? host = some id)
    (populate : Nat → m (Except Error CallMap)) : p.publishM host populate = pure (.ok id, p) := by
  have known : p.slots.lookup host = some (some id) := Option.join_eq_some_iff.mp published
  have reserved : p.slots.reserve host = p.slots := Slots.insertNew_of_some known none
  unfold publishM
  split
  case h_1 found =>
    rw [reserved, known] at found
    cases found
    exact congrArg pure (Prod.ext rfl (Publication.ext rfl reserved))
  case h_2 missing =>
    rw [reserved, known] at missing
    cases missing

/-- Whoever asks for the map of a method that has none gets the one that can be made for it, or else the
error. -/
theorem publishM_of_none {m : Type → Type} [Monad m] (unpublished : p.get? host = none)
    (populate : Nat → m (Except Error CallMap)) :
    p.publishM host populate = (do
      match ← populate p.maps.size with
      | .ok map => return (.ok p.maps.size, p.add host map)
      | .error e => return (.error e, p)) := by
  have unknown := lookup_eq_none unpublished
  have withdrawn : p.slots.withdraw host = p.slots := Slots.withdraw_of_none unknown
  unfold publishM
  split
  case h_1 found =>
    rw [Slots.reserve, Slots.insertNew_of_none unknown, List.lookup_append, unknown] at found
    simp at found
  case h_2 =>
    refine congrArg (populate p.maps.size >>= ·) (funext fun made => ?_)
    cases made with
    | ok map => rfl
    | error e => exact congrArg pure (Prod.ext rfl (Publication.ext rfl withdrawn))

theorem publish_of_some (published : p.get? host = some id) (populate : Nat → Except Error CallMap) :
    p.publish host populate = (.ok id, p) :=
  publishM_of_some published _

theorem publish_of_none (unpublished : p.get? host = none) (populate : Nat → Except Error CallMap) :
    p.publish host populate = match populate p.maps.size with
      | .ok map => (.ok p.maps.size, p.add host map)
      | .error e => (.error e, p) := by
  refine (congrArg Id.run (publishM_of_none unpublished _)).trans ?_
  rw [Id.run_bind, Id.run_pure]
  cases populate p.maps.size <;> rfl

/-- Publishing the call map of a method that has none is the only change of what is published. -/
theorem publish_cases (p : Publication) (host : Method) (populate : Nat → Except Error CallMap) :
    (∃ id, p.get? host = some id ∧ p.publish host populate = (.ok id, p)) ∨
      p.get? host = none ∧
        ((∃ map, populate p.maps.size = .ok map ∧
          p.publish host populate = (.ok p.maps.size, p.add host map)) ∨
        ∃ e, populate p.maps.size = .error e ∧ p.publish host populate = (.error e, p)) := by
  cases published : p.get? host with
  | some id => exact .inl ⟨id, rfl, publish_of_some published populate⟩
  | none =>
    have result := publish_of_none published populate
    cases made : populate p.maps.size with
    | ok map => exact .inr ⟨rfl, .inl ⟨map, rfl, by rw [result, made]⟩⟩
    | error e => exact .inr ⟨rfl, .inr ⟨e, rfl, by rw [result, made]⟩⟩

/-- A method keeps its map when somebody asks for a map. -/
theorem get?_publish (published : p.get? other = some id) (host : Method)
    (populate : Nat → Except Error CallMap) : (p.publish host populate).2.get? other = some id := by
  rcases p.publish_cases host populate with ⟨id', -, result⟩ |
    ⟨unpublished, ⟨map, -, result⟩ | ⟨e, -, result⟩⟩
  · rwa [result]
  · rw [result]
    have differ : other ≠ host := by
      rintro rfl
      cases unpublished.symm.trans published
    exact (get?_add_of_ne unpublished differ).trans published
  · rwa [result]

/-- A number stays that of its map when somebody asks for a map. -/
theorem getElem?_publish (held : p.maps[id]? = some map) (host : Method)
    (populate : Nat → Except Error CallMap) : (p.publish host populate).2.maps[id]? = some map := by
  rcases p.publish_cases host populate with ⟨id', -, result⟩ | ⟨-, ⟨added, -, result⟩ | ⟨e, -, result⟩⟩
  · rwa [result]
  · rw [result]
    exact getElem?_add_of_some held host added
  · rwa [result]

end Publication

end Interpose
