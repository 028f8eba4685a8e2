import Interpose.Proofs.Module.Hierarchy
import Interpose.Proofs.Substitution.Registration

/-!
# Compatibility, from registration to population

A substitute is checked against the target of its rule when the rule is registered, where nothing is
known of any hierarchy, and once more when a call map is made, in the hierarchy of a module.  The second
check never takes back what the first one has found, because a module only adds to what is assignable.
Among the closed types of the module assignability is a preorder.

## Main results

* `Provider.number_single` — registration leaves a rule the signature of its substitute
* `Module.assignableFrom_preorder` — assignability in a module, and what it means for rules
-/

namespace Interpose

namespace Provider

variable {target : Method} {substitute : Substitute}

/-- A substitute is numbered when its rule is registered, and is the same otherwise. -/
theorem number_single (next : Nat) (target : Method) (substitute : Substitute) :
    number next (single target substitute) =
      (single target { substitute with identity := .registered next }, next + 1) := by
  rw [number]

/-- A number makes no difference to what a substitute fits. -/
theorem fits_identity (h : Hierarchy) (identity : SubstituteId) :
    fits h { substitute with identity } target = fits h substitute target := rfl

end Provider

namespace Module

variable {m : Module}

/-- In a module whose types have few types above them, and no definition with the name of a type that has
none, assignability is reflexive and transitive on closed types.  Whatever is assignable where less is
known is assignable in the module, and so is everything that is assignable where nothing is known.  So a
substitute that is accepted for a method when its rule is registered fits it in the module as well, and
it is not left out of a call map that the rule adds this method to. -/
theorem assignableFrom_preorder (m : Module) (apart : m.NamesApart)
    (few : ∀ type, m.hierarchy.FewAbove type) :
    (∀ a : Ty, a.isOpen = false → a.assignableFrom m.hierarchy a = true) ∧
    (∀ a b c : Ty, a.isOpen = false → b.isOpen = false → c.isOpen = false →
      a.assignableFrom m.hierarchy b = true → b.assignableFrom m.hierarchy c = true →
      a.assignableFrom m.hierarchy c = true) ∧
    (∀ (h : Hierarchy) (a b : Ty), (∀ type, h.parents type ⊆ m.hierarchy.parents type) →
      a.assignableFrom h b = true → a.assignableFrom m.hierarchy b = true) ∧
    (∀ a b : Ty, a.assignableFrom .unknown b = true → a.assignableFrom m.hierarchy b = true) ∧
    ∀ (rules rules' : Rules) (target : Method) (substitute : Substitute),
      Yields (Intercept.registerRule (.exact target) substitute) rules () rules' →
      Provider.fits m.hierarchy substitute target = true ∧
      ∃ numbered : Substitute, numbered.signature = substitute.signature ∧
        rules'.binders = rules.binders ++ [.single target numbered] ∧
        ∀ (caller : Caller) (id : Nat),
          Provider.bound? m.hierarchy target caller.intercepted = some target →
          Yields ((Provider.single target numbered).populate caller) { hierarchy := m.hierarchy, id } ()
            (({ hierarchy := m.hierarchy, id } : CallMap).bindMethod target numbered) := by
  refine ⟨fun a _ => a.assignableFrom_self m.hierarchy,
    Ty.assignableFrom_trans apart.hierarchy_leavesUndefined few, fun h a b more =>
      Ty.assignableFrom_of_parents_subset few more a b, Ty.assignableFrom_of_unknown m.hierarchy, ?_⟩
  intro rules rules' target substitute registered
  obtain ⟨accepted, rfl⟩ := Intercept.yields_registerRule_exact.mp registered
  have fitting := Provider.fits_of_unknown m.hierarchy accepted
  refine ⟨fitting, { substitute with identity := .registered rules.nextSubstitute }, rfl, ?_, ?_⟩
  · rw [Rules.withBinder, Provider.number_single]
  · intro caller id bound
    -- What the rule binds for this caller is its own target.
    have populated : ((Provider.single target { substitute with
        identity := .registered rules.nextSubstitute }).populate caller).run
          { hierarchy := m.hierarchy, id } = _ :=
      Provider.run_populate_single { hierarchy := m.hierarchy, id }
    rw [bound] at populated
    simp only [Provider.fits_identity, fitting, if_true] at populated
    exact populated

/-- A class and the one above it, which implements an interface. -/
def animalModule : Module where
  name := "Demo"
  types := #[.ofInterface "Demo.INamed",
    { TypeDef.ofClass "Demo.Animal" with interfaces := [.classType "Demo.INamed"] },
    { name := "Demo.Dog", base := some (.classType "Demo.Animal") }]

/-- A method that takes a value of the class. -/
def walkDog : Method where
  declaringType := .classType "Demo.Park"
  name := "Walk"
  parameters := [.classType "Demo.Dog"]
  flags := .isStatic

/-- A substitute for it that takes any object. -/
def objectWalker : Substitute :=
  Delegate.toSubstitute { signature := Delegate.shape [.object] .void, body := fun _ _ => return .null }

theorem assignableFrom_preorder_animals :
    animalModule.NamesApart ∧ (∀ type, animalModule.hierarchy.FewAbove type) ∧
    (Ty.array (.classType "Demo.INamed")).assignableFrom animalModule.hierarchy
      (.array (.classType "Demo.Dog")) = true ∧
    (Ty.array .object).assignableFrom animalModule.hierarchy (.array .string) = true ∧
    ∃ (rules' : Rules) (numbered : Substitute) (map : CallMap),
      Yields (Intercept.registerRule (.exact walkDog) objectWalker) {} () rules' ∧
      Provider.fits animalModule.hierarchy objectWalker walkDog = true ∧
      Yields ((Provider.single walkDog numbered).populate (Provider.callerOf walkDog))
        { hierarchy := animalModule.hierarchy } () map ∧
      map.entries = #[⟨.exact walkDog, numbered⟩] := by
  have apart : animalModule.NamesApart := by decide
  have few : ∀ type, animalModule.hierarchy.FewAbove type :=
    fewAbove_of_named [.object, .classType "Demo.Animal", .classType "Demo.INamed"] (by decide)
      (by decide) (by decide) (by decide)
  obtain ⟨-, trans, -, known, rules⟩ := assignableFrom_preorder animalModule apart few
  have named : (Ty.array (.classType "Demo.INamed")).assignableFrom animalModule.hierarchy
      (.array (.classType "Demo.Animal")) = true := by decide
  have below : (Ty.array (.classType "Demo.Animal")).assignableFrom animalModule.hierarchy
      (.array (.classType "Demo.Dog")) = true := by decide
  have registered := Intercept.yields_registerRule_exact.mpr
    (⟨by decide, rfl⟩ : Provider.fits .unknown objectWalker walkDog = true ∧
      ({} : Rules).withBinder (.single walkDog objectWalker) = _)
  obtain ⟨fitting, numbered, -, -, adds⟩ := rules _ _ _ _ registered
  exact ⟨apart, few, trans _ _ _ (by decide) (by decide) (by decide) named below,
    known _ _ (by decide), _, numbered, _, registered, fitting,
    adds (Provider.callerOf walkDog) 0 (by decide), rfl⟩

end Module

end Interpose
