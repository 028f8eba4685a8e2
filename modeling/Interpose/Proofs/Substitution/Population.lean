import Interpose.Proofs.Outcome
import Interpose.Proofs.Substitution.Publication
import Interpose.Substitution.Rules

/-!
# What call maps are made from

Providers look at nothing but the calls of a method when they fill its call map: neither the object
whose method runs nor the stack trace decides about an entry.

## Main results

* `Provider.populate_congr` — a provider adds the same entries for the same calls
* `Intercept.populated_congr` — so the call map of a method depends on its calls alone
* `Intercept.fails_publishedMap` — a map that cannot be made leaves no trace
-/

namespace Interpose

variable {caller caller' : Caller}

namespace Provider

mutual

/-- A provider adds the same entries for the same calls. -/
theorem populate_congr (same : caller.intercepted = caller'.intercepted) (provider : Provider) :
    populate provider caller = populate provider caller' := by
  cases provider with
  | single target substitute =>
    rw [populate, populate, populateSingle, populateSingle, same]
  | filter selects substitute =>
    rw [populate, populate, populateFilter, populateFilter, same]
  | table contents => rw [populate, populate, same]
  | strict typeUnderTest contents =>
    rw [populate, populate, populateStrict, populateStrict, same]
  | composite members =>
    rw [populate, populate]
    exact populateAll_congr same members

theorem populateAll_congr (same : caller.intercepted = caller'.intercepted)
    (providers : List Provider) : populateAll providers caller = populateAll providers caller' := by
  cases providers with
  | nil => rw [populateAll, populateAll]
  | cons provider rest =>
    rw [populateAll, populateAll, populate_congr same provider, populateAll_congr same rest]

end

end Provider

/-- The call map of a method depends on its calls alone. -/
theorem Intercept.populated_congr (same : caller.intercepted = caller'.intercepted)
    (provider : Provider) (hierarchy : Hierarchy) (id : Nat) :
    populated provider caller hierarchy id = populated provider caller' hierarchy id := by
  unfold populated
  rw [provider.populate_congr same]

/-- A call map that cannot be made is not published, and no number is used up for it. -/
theorem Intercept.fails_publishedMap {hierarchy : Hierarchy} {rules : Rules} {number : Nat}
    {provider : Provider} {error : Error} {map : CallMap}
    (known : rules.providers[number]? = some provider)
    (absent : rules.publication.get? caller.host = none)
    (fails : Fails (provider.populate caller) { hierarchy, id := rules.publication.maps.size }
      error map) :
    Fails (publishedMap number caller hierarchy) rules error rules := by
  have made : populated provider caller hierarchy rules.publication.maps.size = .error error := by
    unfold populated
    rw [show (provider.populate caller).run _ = (.error error, map) from fails]
  have unpublished : rules.publication.publish caller.host (populated provider caller hierarchy) =
      (.error error, rules.publication) := by
    rw [Publication.publish_of_none absent, made]
  unfold publishedMap
  rw [fails_get_bind, known, Option.getD_some]
  simp only [unpublished]
  rfl

end Interpose
