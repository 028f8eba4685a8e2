import Interpose.Substitution.Provider

/-!
# Published call maps

Every method has at most one call map, which is made when the method first runs.  The map that is
made first is the one that everybody gets; a map that cannot be made leaves no trace.  A method gets a
slot before its map is made, and the slot is filled with the map or taken away again.

## Main definitions

* `Slots` — the slots of methods for their call maps
* `Publication` — the published maps
* `Publication.add` — the published maps with one more
* `Publication.publishM`, `Publication.publish` — the map of a method, made if there is none
-/

namespace Interpose

/-- The slots of methods for their call maps.  A slot holds the number of a map, or nothing while the map
is being made. -/
abbrev Slots := List (Method × Option Nat)

namespace Slots

/-- The slots with one more for a method that has none. -/
def insertNew (slots : Slots) (host : Method) (slot : Option Nat) : Slots :=
  if (slots.lookup host).isSome then slots else slots ++ [(host, slot)]

/-- The slots with a number in that of a method. -/
def fill (slots : Slots) (host : Method) (id : Nat) : Slots :=
  slots.map fun entry => if entry.1 = host then (host, some id) else entry

/-- The slots without that of a method. -/
def remove (slots : Slots) (host : Method) : Slots := slots.filter fun entry => entry.1 ≠ host

/-- The slots while the map of a method is being made or looked for: the method has one in any case. -/
def reserve (slots : Slots) (host : Method) : Slots := slots.insertNew host none

/-- The slots after the map of a method was made.  The method has its slot still, or gets it again. -/
def publish (slots : Slots) (host : Method) (id : Nat) : Slots :=
  ((slots.reserve host).fill host id).insertNew host (some id)

/-- The slots after the map of a method could not be made. -/
def withdraw (slots : Slots) (host : Method) : Slots := (slots.reserve host).remove host

theorem mem_insertNew {slots : Slots} {host : Method} {slot : Option Nat} {entry : Method × Option Nat}
    (member : entry ∈ slots.insertNew host slot) : entry ∈ slots ∨ entry = (host, slot) := by
  unfold insertNew at member
  split at member
  · exact .inl member
  · exact (List.mem_append.mp member).imp_right List.mem_singleton.mp

/-- No map is being made. -/
def Settled (slots : Slots) : Prop := ∀ entry ∈ slots, entry.2.isSome = true

namespace Settled

variable {slots : Slots} {host : Method}

theorem nil : Settled [] := fun _ member => nomatch member

/-- A slot that is there in any case is empty only if it is new. -/
theorem reserve (settled : slots.Settled)
    (filled : ((slots.reserve host).lookup host).join.isSome = true) : (slots.reserve host).Settled := by
  unfold Slots.reserve insertNew at filled ⊢
  split
  case isTrue => exact settled
  case isFalse unknown =>
    rw [if_neg unknown, List.lookup_append, Option.not_isSome_iff_eq_none.mp unknown] at filled
    simp at filled

theorem publish (settled : slots.Settled) (host : Method) (id : Nat) :
    (slots.publish host id).Settled := by
  intro entry member
  obtain filled | rfl := mem_insertNew member
  · obtain ⟨before, reserved, rfl⟩ := List.mem_map.mp filled
    split
    case isTrue => rfl
    case isFalse other =>
      -- The slots of other methods are those that were there before.
      obtain old | rfl := mem_insertNew reserved
      · exact settled before old
      · exact absurd rfl other
  · rfl

theorem withdraw (settled : slots.Settled) (host : Method) : (slots.withdraw host).Settled := by
  intro entry member
  obtain ⟨reserved, other⟩ := List.mem_filter.mp member
  obtain old | rfl := mem_insertNew reserved
  · exact settled entry old
  · simp at other

end Settled

end Slots

/-- The published call maps. -/
@[ext]
structure Publication where
  /-- Every map that was ever published, at the position of its number. -/
  maps : Array CallMap := #[]
  /-- The methods that have a map, with its number. -/
  slots : Slots := []
  /-- Between two operations no map is being made. -/
  settled : slots.Settled := by exact Slots.Settled.nil

namespace Publication

/-- The number of the map of a method. -/
def get? (p : Publication) (host : Method) : Option Nat := (p.slots.lookup host).join

/-- The map of a method. -/
def map? (p : Publication) (host : Method) : Option CallMap := (p.get? host).bind (p.maps[·]?)

/-- Whether a method has a map. -/
def contains (p : Publication) (host : Method) : Bool := (p.get? host).isSome

/-- The number of methods that have a slot. -/
def size (p : Publication) : Nat := p.slots.length

/-- No method has a map any more. -/
def clear (p : Publication) : Publication := { maps := p.maps }

/-- The published maps with one more, in the slot of its method. -/
def add (p : Publication) (host : Method) (map : CallMap) : Publication where
  maps := p.maps.push map
  slots := p.slots.publish host p.maps.size
  settled := p.settled.publish host p.maps.size

/-- The number of the map of a method.  If there is none, `populate` runs and makes it from its number. -/
def publishM {m : Type → Type} [Monad m] (p : Publication) (host : Method)
    (populate : Nat → m (Except Error CallMap)) : m (Except Error Nat × Publication) :=
  match found : ((p.slots.reserve host).lookup host).join with
  | some id =>
    return (.ok id, { p with
      slots := p.slots.reserve host
      settled := p.settled.reserve (Option.isSome_of_eq_some found) })
  | none => do
    -- A map that cannot be made uses up no number.
    let id := p.maps.size
    match ← populate id with
    | .ok map => return (.ok id, p.add host map)
    | .error error =>
      return (.error error, { p with
        slots := p.slots.withdraw host
        settled := p.settled.withdraw host })

/-- The number of the map of a method, which is made if there is none. -/
def publish (p : Publication) (host : Method) (populate : Nat → Except Error CallMap) :
    Except Error Nat × Publication := Id.run (p.publishM host fun id => pure (populate id))

end Publication

end Interpose
