import Interpose.Proofs.Substitution.Targets
import Interpose.Substitution.Selector

/-!
# Registration

A rule is checked before it is registered: it either joins the providers, as the last one, or is refused
and leaves no trace.  All registrations by way of selectors come down to one rule, except for that of
both accessors of a property, which registers the getter before it looks at the setter.

## Main definitions

* `Rules.withBinder` — the rules after a provider was registered
* `Selector.Registration` — the registrations by way of selectors
* `Selector.LeavesNoTrace` — a registration that fails changes nothing

## Main results

* `Intercept.yields_registerRule`, `Intercept.fails_registerRule` — when a rule is registered
* `Selector.binders_of_failed_registration` — what a failed registration leaves
* `Selector.not_forall_failed_registration_registers_nothing` — one may leave a rule
-/

namespace Interpose

/-- The rules after a provider was registered: its substitutes are numbered, and it comes last. -/
def Rules.withBinder (rules : Rules) (provider : Provider) : Rules :=
  { rules with
    binders := rules.binders ++ [(provider.number rules.nextSubstitute).1]
    nextSubstitute := (provider.number rules.nextSubstitute).2 }

namespace Intercept

variable {rules rules' : Rules} {target : CallPattern} {substitute : Substitute} {provider : Provider}
  {error : Error}

theorem yields_registerProvider :
    Yields (registerProvider provider) rules () rules' ↔ rules.withBinder provider = rules' := by
  constructor
  · intro done
    exact congrArg Prod.snd done
  · rintro rfl
    rfl

theorem not_fails_registerProvider : ¬ Fails (registerProvider provider) rules error rules' := by
  intro fails
  cases congrArg Prod.fst fails

/-- A rule that is accepted joins the rules. -/
theorem yields_registerRule : Yields (registerRule target substitute) rules () rules' ↔
    ∃ provider, ruleProvider target substitute = .ok provider ∧
      rules.withBinder provider = rules' := by
  rw [registerRule]
  simp only [yields_liftM_bind, yields_registerProvider]

/-- A rule that is refused leaves the rules as they were. -/
theorem fails_registerRule : Fails (registerRule target substitute) rules error rules' ↔
    ruleProvider target substitute = .error error ∧ rules = rules' := by
  rw [registerRule]
  simp only [fails_liftM_bind, not_fails_registerProvider, and_false, exists_false, or_false]

/-- A substitute for an exact method is accepted just if it fits the method. -/
theorem yields_registerRule_exact {method : Method} :
    Yields (registerRule (.exact method) substitute) rules () rules' ↔
      Provider.fits .unknown substitute method = true ∧
        rules.withBinder (.single method substitute) = rules' := by
  simp only [yields_registerRule, Provider.ruleProvider_exact_iff, and_assoc, exists_and_left,
    exists_eq_left']

/-- It is refused just if it does not, and then the error names the method. -/
theorem fails_registerRule_exact {method : Method} :
    Fails (registerRule (.exact method) substitute) rules error rules' ↔
      Provider.fits .unknown substitute method = false ∧ error = .signatureMismatch method.name ∧
        rules = rules' := by
  have refused : ruleProvider (.exact method) substitute = .error error ↔
      Provider.fits .unknown substitute method = false ∧ error = .signatureMismatch method.name := by
    unfold ruleProvider
    dsimp only
    split
    case isTrue fitting => simp [fitting, pure, Except.pure]
    case isFalse unfit => simp [unfit, throw, throwThe, MonadExceptOf.throw, eq_comm]
  rw [fails_registerRule, refused, and_assoc]

end Intercept

namespace Selector

variable {rules rules' : Rules} {error : Error}

/-- A registration by way of a selector. -/
inductive Registration where
  /-- A delegate for one method. -/
  | delegate (target : Method) (d : Delegate)
  /-- A substitute for the methods that can stand in for one method. -/
  | substitute (target : Method) (s : Substitute)
  /-- A substitute for the methods that a predicate selects. -/
  | filter (selects : Method → Bool) (s : Substitute)
  /-- A factory for one of the constructors of a type. -/
  | factory (typeName : String) (constructors : List Method) (d : Delegate)
  /-- A delegate for the getter of a property. -/
  | getter (property : Accessors) (d : Delegate)
  /-- A delegate for the setter of a property. -/
  | setter (property : Accessors) (d : Delegate)
  /-- Delegates for both accessors of a property. -/
  | accessors (property : Accessors) (getter setter : Delegate)

/-- Makes a registration. -/
def Registration.run : Registration → Intercept Unit
  | delegate target d => replace target d
  | substitute target s => Selector.substitute target s
  | filter selects s => Intercept.registerRule (.filter selects) s
  | factory typeName constructors d => replaceConstruction typeName constructors d
  | getter property d => property.replaceGetter d
  | setter property d => property.replaceSetter d
  | accessors property g s => property.replaceAccessors (some g) (some s)

/-- A registration changes nothing if it fails. -/
def LeavesNoTrace (x : Intercept Unit) : Prop :=
  ∀ rules error rules', Fails x rules error rules' → rules' = rules

theorem leavesNoTrace_throw (e : Error) : LeavesNoTrace (throw e) :=
  fun _ _ _ fails => (fails_throw.mp fails).2.symm

theorem leavesNoTrace_registerRule (target : CallPattern) (s : Substitute) :
    LeavesNoTrace (Intercept.registerRule target s) :=
  fun _ _ _ fails => (Intercept.fails_registerRule.mp fails).2.symm

theorem leavesNoTrace_replace (target : Method) (d : Delegate) : LeavesNoTrace (replace target d) :=
  leavesNoTrace_registerRule _ _

/-- A selector that finds a method registers one rule for it, and one that finds none does nothing. -/
theorem leavesNoTrace_of_found (found : Option Method) (d : Delegate) (missing : Error) :
    LeavesNoTrace (match found with
      | some target => replace target d
      | none => throw missing) := by
  cases found with
  | none => exact leavesNoTrace_throw missing
  | some target => exact leavesNoTrace_replace target d

theorem leavesNoTrace_replaceConstruction (typeName : String) (constructors : List Method)
    (d : Delegate) : LeavesNoTrace (replaceConstruction typeName constructors d) :=
  leavesNoTrace_of_found (constructorFor? constructors d) d _

theorem leavesNoTrace_replaceGetter (property : Accessors) (d : Delegate) :
    LeavesNoTrace (property.replaceGetter d) :=
  leavesNoTrace_of_found property.getter d _

theorem leavesNoTrace_replaceSetter (property : Accessors) (d : Delegate) :
    LeavesNoTrace (property.replaceSetter d) :=
  leavesNoTrace_of_found property.setter d _

/-- A getter is registered just if the property has one that the delegate can stand in for. -/
theorem yields_replaceGetter {property : Accessors} {d : Delegate} :
    Yields (property.replaceGetter d) rules () rules' ↔ ∃ target, property.getter = some target ∧
      d.signature.canReplace .unknown target = true ∧
        rules.withBinder (.single target d.toSubstitute) = rules' := by
  unfold Accessors.replaceGetter
  cases property.getter with
  | none => simp [yields_throw]
  | some target =>
    simp only [replace, Intercept.yields_registerRule_exact, Option.some.injEq, exists_eq_left']
    rfl

/-- The rule that a registration makes before it looks whether another one can be made: that for the
getter, if a property is to have both of its accessors replaced. -/
def Registration.early? : Registration → Option Provider
  | accessors property g _ => property.getter.bind fun target =>
    if g.signature.canReplace .unknown target then some (.single target g.toSubstitute) else none
  | _ => none

/-- A rule is made early just if a getter is registered. -/
theorem yields_replaceGetter_iff_early? {property : Accessors} {g s : Delegate} :
    Yields (property.replaceGetter g) rules () rules' ↔
      ∃ provider, (Registration.accessors property g s).early? = some provider ∧
        rules.withBinder provider = rules' := by
  rw [yields_replaceGetter, Registration.early?]
  simp only [Option.bind_eq_some_iff, Option.ite_none_right_eq_some, Option.some.injEq]
  constructor
  · rintro ⟨target, has, fitting, rfl⟩
    exact ⟨_, ⟨target, has, fitting, rfl⟩, rfl⟩
  · rintro ⟨_, ⟨target, has, fitting, rfl⟩, rfl⟩
    exact ⟨target, has, fitting, rfl⟩

/-- A registration that makes no rule early changes nothing if it fails. -/
theorem leavesNoTrace_of_early?_eq_none {call : Registration} (single : call.early? = none) :
    LeavesNoTrace call.run := by
  cases call with
  | delegate target d => exact leavesNoTrace_replace target d
  | substitute target s => exact leavesNoTrace_registerRule _ s
  | filter selects s => exact leavesNoTrace_registerRule _ s
  | factory typeName constructors d => exact leavesNoTrace_replaceConstruction typeName constructors d
  | getter property d => exact leavesNoTrace_replaceGetter property d
  | setter property d => exact leavesNoTrace_replaceSetter property d
  | accessors property g s =>
    intro rules error rules' fails
    have fails : Fails (property.replaceGetter g >>= fun _ => property.replaceSetter s) rules error
      rules' := fails
    obtain refused | ⟨⟨⟩, reached, done, -⟩ := fails_bind.mp fails
    · exact leavesNoTrace_replaceGetter property g rules error rules' refused
    -- If the setter failed, the getter was registered before it, and so a rule was made early.
    · obtain ⟨provider, early, -⟩ := (yields_replaceGetter_iff_early? (s := s)).mp done
      rw [single] at early
      cases early

/-- A registration that makes a rule early leaves this rule if it fails. -/
theorem eq_withBinder_of_early? {call : Registration} {provider : Provider}
    (early : call.early? = some provider) (fails : Fails call.run rules error rules') :
    rules' = rules.withBinder provider := by
  cases call with
  | accessors property g s =>
    have getter : Yields (property.replaceGetter g) rules () (rules.withBinder provider) :=
      yields_replaceGetter_iff_early?.mpr ⟨provider, early, rfl⟩
    -- The getter is registered, so it is the setter that fails.
    have refused : Fails (property.replaceSetter s) (rules.withBinder provider) error rules' :=
      getter.run_bind.symm.trans fails
    exact leavesNoTrace_replaceSetter property s _ error rules' refused
  | delegate | substitute | filter | factory | getter | setter => cases early

/-- A registration that fails leaves the rules as they were, unless it makes a rule early; then this rule
stays.  So it registers nothing just if it is not one of both accessors of a property with a getter that
the first delegate can stand in for. -/
theorem failed_registration_leaves (call : Registration) (rules rules' : Rules) (error : Error)
    (fails : Fails call.run rules error rules') :
    rules' = call.early?.elim rules rules.withBinder ∧
      (rules'.binders = rules.binders ↔ call.early? = none) := by
  cases early : call.early? with
  | none =>
    have same := leavesNoTrace_of_early?_eq_none early rules error rules' fails
    exact ⟨same, iff_of_true (congrArg Rules.binders same) rfl⟩
  | some provider =>
    have left := eq_withBinder_of_early? early fails
    refine ⟨left, iff_of_false ?_ (Option.some_ne_none provider)⟩
    rw [left, Rules.withBinder]
    simp

/-- A property without a setter. -/
def readOnlyName : Accessors where
  name := "Name"
  getter := some { declaringType := .classType "Demo.Person", name := "get_Name", returnType := .string }
  setter := none

/-- A delegate for its getter. -/
def fixedName : Delegate where
  signature := Delegate.shape [] .string
  body _ _ := return .string "Ada"

/-- A delegate for a setter. -/
def ignoreName : Delegate where
  signature := Delegate.shape [.string] .void
  body _ _ := return .void

private theorem fails_readOnlyName :
    Fails (Registration.accessors readOnlyName fixedName ignoreName).run {}
    (.missingAccessor "Name" .setter)
    (Rules.withBinder {} (.single (readOnlyName.getter.getD default) fixedName.toSubstitute)) := by
  rfl

theorem failed_registration_leaves_getter :
    ∃ rules', Fails (Registration.accessors readOnlyName fixedName ignoreName).run {}
        (.missingAccessor "Name" .setter) rules' ∧ rules'.binders ≠ [] := by
  refine ⟨_, fails_readOnlyName, fun nothing => ?_⟩
  have none := (failed_registration_leaves _ _ _ _ fails_readOnlyName).2.mp nothing
  have early : (Registration.accessors readOnlyName fixedName ignoreName).early?.isSome = true := by
    decide
  rw [none] at early
  cases early

/-- It is not so that a registration that fails registers nothing. -/
theorem not_forall_failed_registration_registers_nothing :
    ¬ ∀ (call : Registration) (rules rules' : Rules) (error : Error),
      Fails call.run rules error rules' → rules'.binders = rules.binders := by
  intro always
  have nothing := always _ _ _ _ fails_readOnlyName
  cases nothing

end Selector

end Interpose
