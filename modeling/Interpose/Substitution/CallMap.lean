import Interpose.Substitution.Matching
import Interpose.Substitution.Delegate

/-!
# Call maps

A call map says which substitute runs in place of a call.  Its entries are exact methods and
filters; for each call the matching ones are found in three ways, and the one registered first
wins.

## Main definitions

* `CallPattern` — an exact method, or a predicate on methods
* `CallMap` — the entries, in the order of registration
* `CallMap.direct?`, `CallMap.inherited?`, `CallMap.filtered?` — the three ways to find an entry
* `CallMap.find?`, `CallMap.substitute?` — the entry and the substitute for a call
-/

namespace Interpose

/-- What calls a rule is about. -/
inductive CallPattern where
  | exact (method : Method)
  | filter (selects : Method → Bool)

/-- An entry of a call map. -/
structure CallEntry where
  target : CallPattern
  substitute : Substitute

namespace CallEntry

/-- The method of an exact entry. -/
def exactMethod? (e : CallEntry) : Option Method :=
  match e.target with
  | .exact method => some method
  | .filter _ => none

/-- Whether the entry is a filter that selects the given method. -/
def filters (e : CallEntry) (method : Method) : Bool :=
  match e.target with
  | .exact _ => false
  | .filter selects => selects method

end CallEntry

/-- Which substitute runs in place of which call. -/
structure CallMap where
  hierarchy : Hierarchy
  /-- The number that tells call maps apart. -/
  id : Nat := 0
  entries : Array CallEntry := #[]

namespace CallMap

/-- The map with one more entry. -/
def add (m : CallMap) (target : CallPattern) (substitute : Substitute) : CallMap :=
  { m with entries := m.entries.push ⟨target, substitute⟩ }

/-- The map with an entry for an exact method. -/
def bindMethod (m : CallMap) (method : Method) (substitute : Substitute) : CallMap :=
  m.add (.exact method) substitute

/-- The map with an entry for all methods that a predicate selects. -/
def bindMatching (m : CallMap) (selects : Method → Bool) (substitute : Substitute) : CallMap :=
  m.add (.filter selects) substitute

/-- The map with an entry for an exact method and a substitute made for this entry. -/
def bindDelegate (m : CallMap) (method : Method) (delegate : Delegate) : CallMap :=
  m.bindMethod method
    { delegate.toSubstitute with identity := .ofEntry m.id m.entries.size }

/-- The exact entries with their positions, in the order of registration. -/
def exactEntries (m : CallMap) : List (Method × Nat) :=
  m.entries.toList.zipIdx.filterMap fun (entry, position) =>
    entry.exactMethod?.map fun method => (method, position)

/-- The methods of the exact entries. -/
def boundMethods (m : CallMap) : List Method := m.exactEntries.map Prod.fst

/-- The number of exact entries. -/
def exactCount (m : CallMap) : Nat := m.exactEntries.length

/-- The number of filters. -/
def filterCount (m : CallMap) : Nat := m.entries.size - m.exactCount

/-- The position of the best match for a call among exact entries. -/
def closest? (m : CallMap) (entries : List (Method × Nat)) (target : Method) : Option Nat := do
  let best ← (Requirements.ofMethod target).best? m.hierarchy (entries.map Prod.fst)
  -- The match counts among the given entries; the position is that in the whole map.
  let (_, position) ← entries[best.index]?
  return position

/-- The entry for a method of the same type, name and number of parameters. -/
def direct? (m : CallMap) (target : Method) : Option Nat :=
  m.closest? (m.exactEntries.filter fun (method, _) => method.key = target.key) target

/-- Whether an exact method of another type is inherited by the type of the call. -/
def inherits (m : CallMap) (method target : Method) : Bool :=
  method.name = target.name && method.declaringType ≠ target.declaringType &&
    method.declaringType.assignableFrom m.hierarchy target.declaringType

/-- The entry for a method that the type of the call inherits. -/
def inherited? (m : CallMap) (target : Method) : Option Nat :=
  m.closest? (m.exactEntries.filter fun (method, _) => m.inherits method target) target

/-- The first filter that selects the call. -/
def filtered? (m : CallMap) (target : Method) : Option Nat :=
  m.entries.findIdx? (·.filters target)

/-- The position of the entry for a call: the first one registered of those found. -/
def find? (m : CallMap) (target : Method) : Option Nat :=
  -- Positions follow the order of registration, so the least of them is the first one registered.
  ([m.direct? target, m.inherited? target, m.filtered? target].filterMap fun found => found).min?

/-- The substitute for a call. -/
def substitute? (m : CallMap) (target : Method) : Option Substitute := do
  let position ← m.find? target
  let entry ← m.entries[position]?
  return entry.substitute

/-- Whether there is a substitute for a call. -/
def contains (m : CallMap) (target : Method) : Bool := (m.substitute? target).isSome

end CallMap

end Interpose
