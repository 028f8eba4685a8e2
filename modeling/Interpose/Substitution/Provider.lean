import Interpose.Substitution.CallMap

/-!
# Providers

A provider fills the call map of a method: it sees which calls the method makes and adds entries for
those it has substitutes for.

## Main definitions

* `Caller` — the method whose call map is filled, and the calls it makes
* `DelegateTable` — delegates by the kind and the name of the methods they stand in for
* `Provider` — the kinds of providers
* `Provider.populate` — what a provider adds to a call map
-/

namespace Interpose

/-- The method whose call map is filled, and the calls it makes. -/
structure Caller where
  callingInstance : Value
  host : Method
  intercepted : List Method
  stackTrace : StackTrace

/-- A call map under construction; entries added before a provider fails stay. -/
abbrev Populate := ExceptT Error (StateM CallMap)

/-- Delegates by the kind and the name of the methods they stand in for. -/
structure DelegateTable where
  methods : List (String × Delegate) := []
  staticMethods : List (String × Delegate) := []
  constructors : List Delegate := []

namespace DelegateTable

/-- The delegates that may stand in for a method. -/
def candidates (t : DelegateTable) (method : Method) : List Delegate :=
  let named (delegates : List (String × Delegate)) : List Delegate :=
    delegates.filterMap fun (name, delegate) => if name = method.name then some delegate else none
  if method.isConstructor then t.constructors
  else if method.isStatic then named t.staticMethods
  else named t.methods

/-- The delegate that stands in for a method. -/
def choose? (t : DelegateTable) (h : Hierarchy) (method : Method) : Option Delegate := do
  let candidates := t.candidates method
  -- Names decided who is a candidate, and count no further among candidates.
  let wanted := { Requirements.ofMethod method with name := none }
  let best ← wanted.best? h (candidates.map (·.signature))
  candidates[best.index]?

/-- The call map with an entry for a method, if a delegate stands in for it. -/
def bindCall (t : DelegateTable) (map : CallMap) (method : Method) : CallMap :=
  match t.choose? map.hierarchy method with
  | some delegate => map.bindDelegate method delegate
  | none => map

/-- The call map with an entry for each of the methods that a delegate stands in for. -/
def bindCalls (t : DelegateTable) (called : List Method) (map : CallMap) : CallMap :=
  called.foldl t.bindCall map

end DelegateTable

/-- What fills call maps. -/
inductive Provider where
  /-- Binds the best match of one method. -/
  | single (target : Method) (substitute : Substitute)
  /-- Binds every method that a predicate selects. -/
  | filter (selects : Method → Bool) (substitute : Substitute)
  /-- Binds the methods that a table has delegates for. -/
  | table (contents : DelegateTable)
  /-- Like a table, but only for methods of other types than the one under test, and every one of
  them has to be bound. -/
  | strict (typeUnderTest : Ty) (contents : DelegateTable)
  /-- Several providers, one after the other. -/
  | composite (members : List Provider)

instance : Inhabited Provider := ⟨.composite []⟩

namespace Provider

/-- Whether a call may be one of the target or of a method that overrides it. -/
def reaches (h : Hierarchy) (target method : Method) : Bool :=
  method.declaringType.typeName = target.declaringType.typeName ||
    target.declaringType.assignableFrom h method.declaringType

/-- The call that a single binding is for. -/
def bound? (h : Hierarchy) (target : Method) (intercepted : List Method) : Option Method :=
  ((Requirements.ofMethod target).best? h (intercepted.filter (reaches h target))).map (·.candidate)

/-- Whether a substitute can stand in for a method; one without signature always can. -/
def fits (h : Hierarchy) (substitute : Substitute) (method : Method) : Bool :=
  match substitute.signature with
  | some signature => signature.canReplace h method
  | none => true

/-- Adds the entry of a single binding. -/
def populateSingle (target : Method) (substitute : Substitute) (caller : Caller) :
    Populate Unit :=
  modify fun map =>
    match bound? map.hierarchy target caller.intercepted with
    | some method =>
      if fits map.hierarchy substitute method then map.bindMethod method substitute else map
    | none => map

/-- Adds a filter that selects at least one of the calls. -/
def populateFilter (selects : Method → Bool) (substitute : Substitute) (caller : Caller) :
    Populate Unit :=
  modify fun map =>
    if caller.intercepted.any selects then map.bindMatching selects substitute else map

/-- Whether a method belongs to another type than the one under test and the root. -/
def isForeign (typeUnderTest : Ty) (method : Method) : Bool :=
  method.declaringType.typeName ≠ typeUnderTest.typeName && method.declaringType ≠ .object

/-- Adds entries for methods of other types, and fails if one of them is left without substitute. -/
def populateStrict (typeUnderTest : Ty) (table : DelegateTable) (caller : Caller) :
    Populate Unit := do
  let external := caller.intercepted.filter (isForeign typeUnderTest)
  -- The entries stay in the map even if one of the methods is found to have none.
  modify (table.bindCalls external)
  let map ← get
  match external.find? fun method => !map.contains method with
  | some missing => throw (.missingMock missing.declaringType.text missing.name)
  | none => pure ()

mutual

/-- Adds the entries of a provider. -/
def populate : Provider → Caller → Populate Unit
  | single target substitute, caller => populateSingle target substitute caller
  | filter selects substitute, caller => populateFilter selects substitute caller
  | .table contents, caller => modify (contents.bindCalls caller.intercepted)
  | strict typeUnderTest contents, caller => populateStrict typeUnderTest contents caller
  | composite members, caller => populateAll members caller

/-- Adds the entries of several providers, one after the other. -/
def populateAll : List Provider → Caller → Populate Unit
  | [], _ => return
  | provider :: rest, caller => do
    populate provider caller
    populateAll rest caller

end

mutual

/-- The provider with its substitutes numbered from `next` on, and the next free number. -/
def number (next : Nat) : Provider → Provider × Nat
  | single target substitute =>
    (single target { substitute with identity := .registered next }, next + 1)
  | filter selects substitute =>
    (filter selects { substitute with identity := .registered next }, next + 1)
  | composite members =>
    let (members, next) := numberAll next members
    (composite members, next)
  | provider => (provider, next)

/-- The providers with their substitutes numbered from `next` on, and the next free number. -/
def numberAll (next : Nat) : List Provider → List Provider × Nat
  | [] => ([], next)
  | provider :: rest =>
    let (provider, next) := number next provider
    let (rest, next) := numberAll next rest
    (provider :: rest, next)

end

end Provider

end Interpose
