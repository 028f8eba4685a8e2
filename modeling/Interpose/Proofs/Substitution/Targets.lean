import Interpose.Proofs.Substitution.Filling
import Interpose.Proofs.Substitution.Instances
import Interpose.Proofs.Ty.Monotonicity
import Interpose.Substitution.Rules

/-!
# Rules and their targets

A rule for a method binds one of the calls of a caller.  Calls of the name of the target come before
all others, but among those the first one wins, even if the target itself is called as well: an
overload with wider parameters, or a method of a type below, takes its place if the caller calls it
earlier.  The substitute was found to fit the target when the rule was registered; if it does not fit
what the rule binds instead, nothing is bound at all.

## Main definitions

* `Provider.contends` — a rule takes a call before any call of another name

## Main results

* `Provider.fits_of_unknown` — what is found at registration holds in every hierarchy
* `Provider.bound?_eq` — the call that a rule binds
* `Provider.rule_binds_target_iff` — when a rule binds its own target
* `Provider.not_forall_rule_binds_target` — it does not always
-/

namespace Interpose

/-- A method that can stand in for another one where nothing is known can do so in every hierarchy. -/
theorem Method.canReplace_of_unknown (h : Hierarchy) {m target : Method}
    (replaces : m.canReplace .unknown target = true) : m.canReplace h target = true := by
  obtain ⟨closed, closes, takes, result⟩ := canReplace_iff.mp replaces
  exact canReplace_iff.mpr ⟨closed, closes,
    takes.imp fun argument parameter => Ty.assignableFrom_of_unknown h parameter argument,
    result.imp_right (Ty.assignableFrom_of_unknown h _ _)⟩

namespace Provider

variable {h : Hierarchy} {target call : Method} {calls : List Method} {substitute : Substitute}
  {provider : Provider}

/-- What fits a method where nothing is known fits it in every hierarchy. -/
theorem fits_of_unknown (h : Hierarchy) (fitting : fits .unknown substitute target = true) :
    fits h substitute target = true := by
  unfold fits at fitting ⊢
  split
  · rename_i signature signed
    rw [signed] at fitting
    exact Method.canReplace_of_unknown h fitting
  · rfl

/-- A rule for an exact method is registered just if the substitute fits it. -/
theorem ruleProvider_exact_iff :
    Intercept.ruleProvider (.exact target) substitute = .ok provider ↔
      fits .unknown substitute target = true ∧ single target substitute = provider := by
  unfold Intercept.ruleProvider
  dsimp only
  split
  case isTrue fitting => simp [fitting, pure, Except.pure]
  case isFalse unfit => simp [unfit, throw, throwThe, MonadExceptOf.throw]

/-- Whether a rule takes a call before any call of another name: the call may be one of the target or of
a method that overrides it, it has the name of the target, and it takes the arguments of the target. -/
def contends (h : Hierarchy) (target call : Method) : Bool :=
  reaches h target call && (target.name = call.name && call.canReplace h target)

/-- A rule binds the first call of the name of its target that takes the arguments of the target, or else
the first call that does. -/
theorem bound?_eq : bound? h target calls = (calls.find? (contends h target)).or
    (calls.find? fun call => reaches h target call && call.canReplace h target) := by
  unfold bound?
  rw [Requirements.candidate_best?, List.find?_filter, List.find?_filter]
  congr 2
  · funext call
    simp [contends, Requirements.favours, Requirements.ofMethod, Method.canReplace_eq_meets]
  · funext call
    simp [Method.canReplace_eq_meets]

/-- If the target itself is called, it is bound just if no other call of its name comes before it. -/
theorem bound?_eq_target_iff (called : target ∈ calls) :
    bound? h target calls = some target ↔ calls.find? (contends h target) = some target := by
  rw [bound?_eq]
  cases first : calls.find? (contends h target) with
  | some call => rfl
  | none =>
    -- If the target could stand in for itself, it would be found among the calls of its name.
    simp only [Option.none_or, reduceCtorEq, iff_false]
    intro found
    have itself := List.find?_some (p := fun call => _ && _) found
    apply List.find?_eq_none.mp first target called
    simpa [contends] using itself

/-- A rule that is registered for an exact method binds this method in a caller that calls it, and the
method gets the substitute, just if no other call of its name that may be one of an override and takes
its arguments comes before it.  If one does, the rule binds this call, or nothing if the substitute does
not fit. -/
theorem rule_binds_target_iff (h : Hierarchy) (id : Nat) (target : Method) (substitute : Substitute)
    (provider : Provider) (caller : Caller)
    (registered : Intercept.ruleProvider (.exact target) substitute = .ok provider)
    (called : target ∈ caller.intercepted) :
    ∃ map : CallMap, (provider.populate caller).run { hierarchy := h, id } = (.ok (), map) ∧
      (map.entries = #[⟨.exact target, substitute⟩] ∧ map.substitute? target = some substitute ↔
        caller.intercepted.find? (contends h target) = some target) ∧
      ∀ call, caller.intercepted.find? (contends h target) = some call →
        map.entries = if fits h substitute call then #[⟨.exact call, substitute⟩] else #[] := by
  obtain ⟨accepted, rfl⟩ := ruleProvider_exact_iff.mp registered
  have fitting := fits_of_unknown h accepted
  refine ⟨_, run_populate_single _, ?_, fun call first => ?_⟩
  -- The target is bound just if it is found among the calls of its name, and then it fits.
  · rw [← bound?_eq_target_iff called]
    constructor
    · rintro ⟨entries, -⟩
      cases bound : bound? h target caller.intercepted with
      | none =>
        rw [bound] at entries
        cases entries
      | some call =>
        rw [bound] at entries
        dsimp only at entries
        split at entries
        · obtain ⟨same, -⟩ := List.cons.inj (congrArg Array.toList entries)
          exact congrArg some (CallPattern.exact.inj (congrArg CallEntry.target same))
        · cases entries
    · intro bound
      obtain ⟨-, reached, replaces⟩ := of_bound? bound
      have covered : target.covers h target = true := by simp [Method.covers, reached, replaces]
      rw [bound]
      dsimp only
      rw [if_pos fitting]
      refine ⟨rfl, ?_⟩
      rw [CallMap.substitute?_eq]
      simp [CallMap.bindMethod, CallMap.add, CallEntry.claims_exact, covered]
  · rw [bound?_eq, first, Option.some_or]
    dsimp only
    split <;> rfl

/-- A method that takes a text. -/
def writeText : Method where
  declaringType := .classType "Demo.Console"
  name := "Write"
  parameters := [.string]
  flags := .isStatic

/-- The overload that takes any object. -/
def writeObject : Method := { writeText with parameters := [.object] }

/-- A substitute that takes a text. -/
def textWriter : Substitute :=
  Delegate.toSubstitute { signature := Delegate.shape [.string] .void, body := fun _ _ => return .void }

/-- A method that calls both overloads, the one for texts first. -/
def textCaller : Caller := { callerOf writeText with intercepted := [writeText, writeObject] }

theorem rule_binds_target_iff_text :
    Intercept.ruleProvider (.exact writeText) textWriter = .ok (single writeText textWriter) ∧
    writeText ∈ textCaller.intercepted ∧ ∃ map : CallMap,
      ((single writeText textWriter).populate textCaller).run { hierarchy := .unknown } =
        (.ok (), map) ∧
      map.entries = #[⟨.exact writeText, textWriter⟩] ∧
      map.substitute? writeText = some textWriter := by
  have registered :
      Intercept.ruleProvider (.exact writeText) textWriter = .ok (single writeText textWriter) :=
    ruleProvider_exact_iff.mpr ⟨by decide, rfl⟩
  have called : writeText ∈ textCaller.intercepted := List.mem_cons_self
  obtain ⟨map, populated, binds, -⟩ := rule_binds_target_iff .unknown 0 writeText textWriter _
    textCaller registered called
  exact ⟨registered, called, map, populated, binds.mpr (by decide)⟩

/-- It is not so that a rule for a method binds this method in every caller that calls it. -/
theorem not_forall_rule_binds_target :
    ¬ ∀ (h : Hierarchy) (id : Nat) (target : Method) (substitute : Substitute) (provider : Provider)
      (caller : Caller), Intercept.ruleProvider (.exact target) substitute = .ok provider →
      target ∈ caller.intercepted → ∃ map : CallMap,
        (provider.populate caller).run { hierarchy := h, id } = (.ok (), map) ∧
        map.entries = #[⟨.exact target, substitute⟩] ∧ map.substitute? target = some substitute := by
  intro always
  -- The overload for objects takes texts as well, and the substitute does not take objects.
  obtain ⟨map, populated, filled, -⟩ := always .unknown 0 writeText textWriter _
    { textCaller with intercepted := [writeObject, writeText] }
    (ruleProvider_exact_iff.mpr ⟨by decide, rfl⟩) (by decide)
  have bound : bound? .unknown writeText [writeObject, writeText] = some writeObject := by decide
  have unfit : fits .unknown textWriter writeObject = false := by decide
  rw [run_populate_single] at populated
  simp only [bound, unfit] at populated
  obtain ⟨-, rfl⟩ := Prod.mk.inj populated
  cases filled

end Provider

end Interpose
