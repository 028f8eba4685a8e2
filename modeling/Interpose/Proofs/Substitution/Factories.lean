import Interpose.Proofs.Substitution.Registration

/-!
# Factories and constructors

A factory takes the place of a constructor whose arguments it takes.  To find one, though, the listed
constructors are asked whether they take what the factory takes, which is the other way round: a factory
for any object finds no constructor for texts, and one for texts finds the constructor for any object.
Only then the factory is checked against the constructor that was found.

## Main definitions

* `Selector.welcomes` — a constructor takes what a factory takes
* `Selector.ReplacesConstruction` — a factory takes the place of a constructor just if it can stand in
  for one

## Main results

* `Selector.constructorFor?_eq` — the first constructor that takes what a factory takes is found
* `Selector.welcomes_iff`, `Method.canReplace_iff` — what is asked of this constructor, and of the
  factory
* `Selector.replacesConstruction_iff` — when a factory takes the place of a constructor
* `Selector.not_forall_replacesConstruction` — it does not always
-/

namespace Interpose.Selector

variable {constructors : List Method} {factory : Delegate} {typeName : String} {rules rules' : Rules}
  {error : Error}

/-- Whether a constructor takes what a factory takes, which is how it is found for the factory. -/
def welcomes (factory : Delegate) (constructor : Method) : Bool :=
  Requirements.meets .unknown
    { Requirements.ofMethod factory.signature with name := none, returnType := none } constructor

/-- A constructor takes what a factory takes if its parameters can hold those of the factory; its result
does not matter. -/
theorem welcomes_iff {constructor : Method} : welcomes factory constructor = true ↔
    ∃ closed, (Requirements.ofMethod factory.signature).close? constructor = some closed ∧
      closed.Takes .unknown factory.signature := by
  rw [welcomes, Requirements.meets, Option.any_eq_true]
  apply exists_congr
  intro closed
  apply and_congr_right'
  rw [Requirements.accepts, Bool.and_eq_true]
  -- No result is asked for.
  exact (and_iff_left rfl).trans Requirements.acceptsParameters_iff

/-- The first of the constructors that take what a factory takes is found for it. -/
theorem constructorFor?_eq (constructors : List Method) (factory : Delegate) :
    constructorFor? constructors factory = constructors.find? (welcomes factory) :=
  Requirements.candidate_best?_of_unnamed rfl

/-- A factory is registered just if it can stand in for the first constructor that takes what it
takes. -/
theorem yields_replaceConstruction :
    Yields (replaceConstruction typeName constructors factory) rules () rules' ↔
      ∃ target, constructors.find? (welcomes factory) = some target ∧
        factory.signature.canReplace .unknown target = true ∧
          rules.withBinder (.single target factory.toSubstitute) = rules' := by
  rw [replaceConstruction, constructorFor?_eq]
  cases constructors.find? (welcomes factory) with
  | none => simp [yields_throw]
  | some target =>
    simp only [replace, Intercept.yields_registerRule_exact, Option.some.injEq, exists_eq_left']
    rfl

/-- If no constructor takes what the factory takes, the error says so.  If the factory cannot stand in for
the first one that does, the error names this one. -/
theorem fails_replaceConstruction :
    Fails (replaceConstruction typeName constructors factory) rules error rules' ↔
      (constructors.find? (welcomes factory) = none ∧ error = .noCompatibleConstructor typeName ∨
        ∃ target, constructors.find? (welcomes factory) = some target ∧
          factory.signature.canReplace .unknown target = false ∧
          error = .signatureMismatch target.name) ∧ rules = rules' := by
  rw [replaceConstruction, constructorFor?_eq]
  cases constructors.find? (welcomes factory) with
  | none =>
    simp only [fails_throw, reduceCtorEq, false_and, exists_false, or_false, true_and]
    exact and_congr_left' eq_comm
  | some target =>
    simp only [replace, Intercept.fails_registerRule_exact, Option.some.injEq, exists_eq_left',
      reduceCtorEq, false_and, false_or, and_assoc]
    rfl

/-- A factory takes the place of a constructor that it can stand in for, if there is one, by one rule.  If
there is none, this is an error, and nothing is registered. -/
def ReplacesConstruction (typeName : String) (constructors : List Method) (factory : Delegate)
    (rules : Rules) : Prop :=
  ((∃ c ∈ constructors, factory.signature.canReplace .unknown c = true) →
    ∃ target ∈ constructors, factory.signature.canReplace .unknown target = true ∧
      Yields (replaceConstruction typeName constructors factory) rules ()
        (rules.withBinder (.single target factory.toSubstitute))) ∧
  ((∀ c ∈ constructors, factory.signature.canReplace .unknown c = false) →
    Fails (replaceConstruction typeName constructors factory) rules
      (.noCompatibleConstructor typeName) rules)

/-- A factory takes the place of a constructor that it can stand in for just if it can stand in for the
first constructor that takes what it takes, or there is no such constructor and it cannot stand in for
any. -/
theorem replacesConstruction_iff_first :
    ReplacesConstruction typeName constructors factory rules ↔
      (∀ target, constructors.find? (welcomes factory) = some target →
        factory.signature.canReplace .unknown target = true) ∧
      (constructors.find? (welcomes factory) = none →
        ∀ c ∈ constructors, factory.signature.canReplace .unknown c = false) := by
  constructor
  · rintro ⟨takes, refuses⟩
    -- If the factory can stand in for a constructor, it is registered for the first one that was found.
    have registered (any : ∃ c ∈ constructors, factory.signature.canReplace .unknown c = true) :
        ∃ target, constructors.find? (welcomes factory) = some target ∧
          factory.signature.canReplace .unknown target = true := by
      obtain ⟨_, _, _, done⟩ := takes any
      obtain ⟨target, found, fits, -⟩ := yields_replaceConstruction.mp done
      exact ⟨target, found, fits⟩
    refine ⟨fun target found => ?_, fun missing c member => ?_⟩
    · by_cases any : ∃ c ∈ constructors, factory.signature.canReplace .unknown c = true
      · obtain ⟨target', found', fits⟩ := registered any
        rw [found] at found'
        cases found'
        exact fits
      · -- The error would be that no constructor was found, but this one was.
        have none (c : Method) (member : c ∈ constructors) :
            factory.signature.canReplace .unknown c = false := by
          rw [← Bool.not_eq_true]
          exact fun fitting => any ⟨c, member, fitting⟩
        have fails := refuses none
        obtain ⟨⟨missing, -⟩ | ⟨_, -, -, mismatch⟩, -⟩ := fails_replaceConstruction.mp fails
        · rw [found] at missing
          cases missing
        · cases mismatch
    · by_contra fitting
      rw [Bool.not_eq_false] at fitting
      obtain ⟨target, found, -⟩ := registered ⟨c, member, fitting⟩
      rw [missing] at found
      cases found
  · rintro ⟨fits, unfit⟩
    cases first : constructors.find? (welcomes factory) with
    | none =>
      refine ⟨?_, fun _ => fails_replaceConstruction.mpr ⟨.inl ⟨first, rfl⟩, rfl⟩⟩
      rintro ⟨c, member, fitting⟩
      exact absurd ((unfit first c member).symm.trans fitting) Bool.false_ne_true
    | some target =>
      have fitting := fits target first
      have member := List.mem_of_find?_eq_some first
      refine ⟨fun _ => ⟨target, member, fitting, ?_⟩, fun none => ?_⟩
      · exact yields_replaceConstruction.mpr ⟨target, first, fitting, rfl⟩
      · exact absurd ((none target member).symm.trans fitting) Bool.false_ne_true

/-- A factory takes the place of a constructor that it can stand in for just if it can stand in for the
first constructor that takes what it takes, or there is no such constructor and it cannot stand in for
any.  Whether it does or not, one rule is registered for that first constructor if the factory can stand
in for it, and otherwise nothing is. -/
theorem replacesConstruction_iff (typeName : String) (constructors : List Method)
    (factory : Delegate) (rules : Rules) :
    let first := constructors.find? (welcomes factory)
    (ReplacesConstruction typeName constructors factory rules ↔
      (∀ target, first = some target → factory.signature.canReplace .unknown target = true) ∧
        (first = none → ∀ c ∈ constructors, factory.signature.canReplace .unknown c = false)) ∧
    (∀ rules', Yields (replaceConstruction typeName constructors factory) rules () rules' ↔
      ∃ target, first = some target ∧ factory.signature.canReplace .unknown target = true ∧
        rules.withBinder (.single target factory.toSubstitute) = rules') ∧
    (∀ error rules', Fails (replaceConstruction typeName constructors factory) rules error rules' ↔
      (first = none ∧ error = .noCompatibleConstructor typeName ∨
        ∃ target, first = some target ∧ factory.signature.canReplace .unknown target = false ∧
          error = .signatureMismatch target.name) ∧ rules = rules') :=
  ⟨replacesConstruction_iff_first, fun _ => yields_replaceConstruction,
    fun _ _ => fails_replaceConstruction⟩

/-- The constructor of a type, which takes a text. -/
def personConstructor : Method := .constructor (.classType "Demo.Person") [.string]

/-- A factory that takes any object. -/
def personFactory : Delegate where
  signature := Delegate.shape [.object] .object
  body _ _ := return .null

/-- It is not so that a factory takes the place of a constructor just if it can stand in for one. -/
theorem not_forall_replacesConstruction :
    ¬ ∀ (catalog : Catalog) (typeName : String) (constructors : List Method) (factory : Delegate)
      (rules : Rules), Selector.constructors catalog typeName = .ok constructors →
        ReplacesConstruction typeName constructors factory rules := by
  intro always
  have replaces := always (fun _ => [personConstructor]) "Demo.Person" [personConstructor]
    personFactory {} rfl
  -- A text can be held as an object, but the constructor does not take every object.
  have missing : [personConstructor].find? (welcomes personFactory) = none := by decide
  have fitting := (replacesConstruction_iff_first.mp replaces).2 missing personConstructor (by decide)
  revert fitting
  decide

end Interpose.Selector
