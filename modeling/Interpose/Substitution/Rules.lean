import Interpose.Substitution.Publication

/-!
# Rules

The rules that are in force: what was registered, in the order of registration, and a resolver that
may supply a provider for the objects it knows.

## Main definitions

* `Rules` — the rules, the resolver and the call maps made from them
* `Intercept` — computations that change them and may fail
* `Intercept.registerRule`, `Intercept.registerProvider`, `Intercept.resolveWith` — registration
* `Intercept.chooseProvider` — the provider for a calling object
* `Intercept.publishedMap`, `Intercept.callMapFor?` — the call map of a method
-/

namespace Interpose

/-- The rules that are in force. -/
structure Rules where
  binders : List Provider := []
  publication : Publication := {}
  /-- The number of the provider for a calling object and its type, if there is a special one. -/
  resolver : Option (Value → Ty → Option Nat) := none
  /-- The providers that are referred to by number. -/
  providers : Array Provider := #[]
  /-- The number of the next substitute that is registered. -/
  nextSubstitute : Nat := 0

/-- A computation that changes the rules; changes made before it fails stay. -/
abbrev Intercept := ExceptT Error (StateM Rules)

namespace Intercept

/-- The provider with numbered substitutes. -/
def number (provider : Provider) : Intercept Provider := do
  let i ← get
  let (provider, next) := provider.number i.nextSubstitute
  set { i with nextSubstitute := next }
  return provider

/-- Registers a provider. -/
def registerProvider (provider : Provider) : Intercept Unit := do
  let provider ← number provider
  modify fun i => { i with binders := i.binders ++ [provider] }

/-- The provider that follows a rule.  A substitute with a signature is accepted for an exact method
only if it can stand in for it. -/
def ruleProvider (target : CallPattern) (substitute : Substitute) : Except Error Provider :=
  match target with
  | .exact method =>
    if Provider.fits .unknown substitute method then return .single method substitute
    else throw (.signatureMismatch method.name)
  | .filter selects => return .filter selects substitute

/-- Registers a rule. -/
def registerRule (target : CallPattern) (substitute : Substitute) : Intercept Unit := do
  registerProvider (← ruleProvider target substitute)

/-- Keeps a provider and gives it a number. -/
def share (provider : Provider) : Intercept Nat := do
  let provider ← number provider
  let i ← get
  set { i with providers := i.providers.push provider }
  return i.providers.size

/-- Sets the function that may supply a provider for a calling object and its type. -/
def resolveWith (resolver : Value → Ty → Option Nat) : Intercept Unit :=
  modify fun i => { i with resolver := some resolver }

/-- The number of the provider for a calling object and its type: that of the resolver, or else one
that combines all that was registered, if anything was. -/
def chooseProvider (callingInstance : Value) (declaringType : Ty) : Intercept (Option Nat) := do
  let i ← get
  match i.resolver.bind fun resolver => resolver callingInstance declaringType with
  | some id => return some id
  | none =>
    if i.binders.isEmpty then return none
    -- The combination holds what is registered now; later rules are for later combinations.
    set { i with providers := i.providers.push (.composite i.binders) }
    return some i.providers.size

/-- The call map that a provider makes. -/
def populated (provider : Provider) (caller : Caller) (hierarchy : Hierarchy) (id : Nat) :
    Except Error CallMap :=
  match (provider.populate caller).run { hierarchy, id } with
  | (.ok _, map) => .ok map
  | (.error error, _) => .error error

/-- The number of the call map of a method, made by the given provider if there is none. -/
def publishedMap (provider : Nat) (caller : Caller) (hierarchy : Hierarchy) : Intercept Nat := do
  let i ← get
  let source := (i.providers[provider]?).getD (.composite [])
  let (result, publication) := i.publication.publish caller.host (populated source caller hierarchy)
  set { i with publication }
  let id ← result
  return id

/-- The call map of a method, if there is a provider for an object of the type that declares it. -/
def callMapFor? (asker : Value) (caller : Caller) (hierarchy : Hierarchy) :
    Intercept (Option CallMap) := do
  match ← chooseProvider asker caller.host.declaringType with
  | some provider =>
    let id ← publishedMap provider caller hierarchy
    return (← get).publication.maps[id]?
  | none => return none

/-- Forgets all rules, the resolver and the call maps. -/
def forgetAll : Intercept Unit :=
  modify fun i => { i with binders := [], publication := i.publication.clear, resolver := none }

end Intercept

end Interpose
