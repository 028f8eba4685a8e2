import Interpose.Proofs.Substitution.Filling
import Interpose.Proofs.Substitution.Instances

/-!
# Rules for constructors

A rule for a constructor replaces the creation of objects of its type.  It binds a constructor only if
an object of its type can be held as what that creates, so it binds none of a type below.  Once it has
bound one, though, its entry is inherited like that of any other method: it is for the constructors of
the types below as well, which have the same name.

## Main results

* `Provider.holds_of_bound?` — the constructors that a rule for a constructor may bind
* `Provider.constructor_rule_leaves_type_iff` — the constructors of other types that a rule for a
  constructor gives its substitute to
* `Provider.not_forall_constructor_rule_stays` — there are some
-/

namespace Interpose

/-- A constructor can stand in for one of a type below its own just if it takes its arguments. -/
theorem Method.canReplace_constructor_iff {h : Hierarchy} {constructor call : Method}
    (given : call.typeArguments = []) (constructs : constructor.isConstructor = true)
    (creates : call.isConstructor = true)
    (below : constructor.declaringType.assignableFrom h call.declaringType = true) :
    constructor.canReplace h call = true ↔ constructor.Takes h call := by
  have itself : (Requirements.ofMethod call).close? constructor = some constructor := by
    simp [Requirements.close?, Requirements.ofMethod, given]
  rw [canReplace_iff, itself]
  simp [resultType, constructs, creates, below]

namespace Provider

/-- If a rule for a constructor binds a constructor, an object of its type can be held as what that
creates. -/
theorem holds_of_bound? {h : Hierarchy} {target bound : Method} {intercepted : List Method}
    (constructs : target.isConstructor = true) (creates : bound.isConstructor = true)
    (found : bound? h target intercepted = some bound) :
    bound.declaringType.assignableFrom h target.declaringType = true := by
  obtain ⟨-, -, replaces⟩ := of_bound? found
  obtain ⟨closed, closes, -, result⟩ := Method.canReplace_iff.mp replaces
  have created : closed.resultType = bound.declaringType := by
    -- Type arguments change neither the declaring type nor what kind of method it is.
    obtain rfl | rfl := Requirements.eq_or_eq_of_close? closes
    · exact if_pos creates
    · exact if_pos creates
  have expected : target.resultType = target.declaringType := if_pos constructs
  rw [created, expected] at result
  obtain same | holds := result
  · rw [same]
    exact Ty.assignableFrom_self h target.declaringType
  · exact holds

/-- A rule for a constructor gives its substitute to a constructor of another type just if the call that
it binds is of a constructor from which the other one takes over the entry.  If it binds its target, it
gives it to the constructors of all types below, as far as the target takes their arguments. -/
theorem constructor_rule_leaves_type_iff (h : Hierarchy) (id : Nat) (target : Method)
    (substitute : Substitute) (caller : Caller) (map : CallMap) (call : Method)
    (done : Yields (populate (single target substitute) caller) { hierarchy := h, id } () map)
    (constructs : target.isConstructor = true) (creates : call.isConstructor = true)
    (other : call.declaringType.typeName ≠ target.declaringType.typeName) :
    (map.substitute? call = some substitute ↔
      ∃ bound, bound? h target caller.intercepted = some bound ∧ fits h substitute bound = true ∧
        bound.name = call.name ∧ bound.canReplace h call = true ∧
        (bound.declaringType.assignableFrom h call.declaringType = true ∨
          call.declaringType.typeName = bound.declaringType.typeName ∧
            target.declaringType.assignableFrom h bound.declaringType = true)) ∧
    (bound? h target caller.intercepted = some target → call.typeArguments = [] →
      (map.substitute? call = some substitute ↔
        fits h substitute target = true ∧ target.name = call.name ∧
          target.declaringType.assignableFrom h call.declaringType = true ∧
          target.Takes h call)) := by
  constructor
  · rw [substitute?_single done]
    apply exists_congr
    intro bound
    apply and_congr_right
    intro found
    have reached := (of_bound? found).2.1
    simp only [reaches, Method.covers, Bool.and_eq_true, Bool.or_eq_true, decide_eq_true_eq]
      at reached ⊢
    -- A call that is bound outside the type of the target is of a type below it.
    have outside (named : call.declaringType.typeName = bound.declaringType.typeName) :
        target.declaringType.assignableFrom h bound.declaringType = true :=
      reached.resolve_left fun same => other (named.trans same)
    constructor
    · rintro ⟨fitting, ⟨named, same | below⟩, replaces⟩
      · exact ⟨fitting, named, replaces, .inr ⟨same, outside same⟩⟩
      · exact ⟨fitting, named, replaces, .inl below⟩
    · rintro ⟨fitting, named, replaces, below | ⟨same, -⟩⟩
      · exact ⟨fitting, ⟨named, .inr below⟩, replaces⟩
      · exact ⟨fitting, ⟨named, .inl same⟩, replaces⟩
  · intro itself given
    rw [substitute?_single done, itself]
    simp only [Option.some.injEq, exists_eq_left', reaches, Method.covers, Bool.and_eq_true,
      Bool.or_eq_true, decide_eq_true_eq, other, false_or]
    apply and_congr_right'
    rw [and_assoc]
    apply and_congr_right'
    apply and_congr_right
    intro below
    exact Method.canReplace_constructor_iff given constructs creates below

/-- A hierarchy of two types. -/
def derivedBase : Hierarchy where
  base type := if type = .classType "Demo.Derived" then some (.classType "Demo.Base") else none
  interfaces _ := []

/-- The constructor of one of them. -/
def baseConstructor : Method := .constructor (.classType "Demo.Base") []

/-- The constructor of the type below it. -/
def derivedConstructor : Method := .constructor (.classType "Demo.Derived") []

/-- A method that creates objects of both types. -/
def creator : Caller :=
  { callerOf baseConstructor with intercepted := [baseConstructor, derivedConstructor] }

private theorem yields_creator :
    Yields (populate (single baseConstructor returnNull) creator) { hierarchy := derivedBase } ()
      (CallMap.bindMethod { hierarchy := derivedBase } baseConstructor returnNull) := by
  have bound : bound? derivedBase baseConstructor creator.intercepted = some baseConstructor := by
    decide
  rw [populate, populateSingle, yields_modify, bound]
  rfl

theorem constructor_rule_leaves_type_derived :
    ∃ map, Yields (populate (single baseConstructor returnNull) creator)
        { hierarchy := derivedBase } () map ∧
      map.substitute? derivedConstructor = some returnNull := by
  have leaves := constructor_rule_leaves_type_iff derivedBase 0 baseConstructor returnNull creator _
    derivedConstructor yields_creator (by decide) (by decide) (by decide)
  exact ⟨_, yields_creator, (leaves.2 (by decide) rfl).mpr ⟨rfl, rfl, by decide, .nil⟩⟩

/-- It is not so that a rule for a constructor leaves the constructors of other types alone. -/
theorem not_forall_constructor_rule_stays :
    ¬ ∀ (h : Hierarchy) (id : Nat) (target : Method) (substitute : Substitute) (caller : Caller)
      (map : CallMap), target.isConstructor = true →
      Yields (populate (single target substitute) caller) { hierarchy := h, id } () map →
      ∀ call : Method, call.isConstructor = true →
        call.declaringType.typeName ≠ target.declaringType.typeName →
        map.substitute? call ≠ some substitute := by
  intro always
  apply always derivedBase 0 baseConstructor returnNull creator _ (by decide) yields_creator
    derivedConstructor (by decide) (by decide)
  rw [substitute?_single yields_creator]
  exact ⟨baseConstructor, by decide, rfl, by decide⟩

end Provider

end Interpose
