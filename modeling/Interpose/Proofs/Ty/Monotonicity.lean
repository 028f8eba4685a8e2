import Interpose.Proofs.Ty.Transitivity

/-!
# Assignability in larger hierarchies

What can be held as what depends on the hierarchy only through the types that a walk up finds.  So it
stays as it is when more becomes known of the hierarchy: always if nothing but the root was known before,
and otherwise as long as the walk still finds everything.

## Main results

* `Ty.assignableFrom_mono` — what a walk goes on to find stays assignable
* `Ty.assignableFrom_of_parents_subset` — so does everything when more becomes known
* `Ty.assignableFrom_of_unknown` — what is found at registration holds in every hierarchy
-/

namespace Interpose

variable {h h' : Hierarchy} {type above : Ty}

/-- Where nothing is known, nothing but the root is above any type. -/
theorem Hierarchy.eq_object_of_above_unknown (chain : unknown.Above type above) : above = .object := by
  obtain ⟨below, -, step⟩ := Relation.TransGen.tail'_iff.mp chain
  unfold parents unknown at step
  split at step
  · simpa using step
  · simpa using step
  · simp at step

namespace Ty

/-- What is assignable stays so in a hierarchy in which a walk finds what it has found before. -/
theorem assignableFrom_mono (finds : ∀ source ancestor : Ty, ancestor.isNominal = true →
      ancestor ∈ h.ancestors source → ancestor ∈ h'.ancestors source) (target source : Ty)
    (holds : target.assignableFrom h source = true) : target.assignableFrom h' source = true := by
  by_cases same : target = source
  · exact same ▸ assignableFrom_self h' target
  cases nominal : target.isNominal with
  | true =>
    rw [assignableFrom_of_nominal nominal same] at holds ⊢
    split at holds
    case isTrue parameter => rw [if_pos parameter]
    case isFalse definite =>
      rw [if_neg definite]
      split at holds
      case isTrue => cases holds
      case isFalse references =>
        rw [if_neg references]
        obtain ⟨ancestor, member, found⟩ := List.any_eq_true.mp holds
        rw [of_decide_eq_true found] at member
        exact List.any_eq_true.mpr ⟨target, finds source target nominal member, decide_eq_true rfl⟩
  | false =>
    -- Only the elements of arrays are compared any further; the rest does not depend on the hierarchy.
    cases target with
    | array element =>
      cases source with
      | array other =>
        have differ : element ≠ other := fun equal => same (congrArg array equal)
        rw [assignableFrom_array differ, Bool.and_eq_true] at holds ⊢
        exact ⟨holds.1, assignableFrom_mono finds element other holds.2⟩
      | _ => exact holds
    | builtin type =>
      cases type with
      | void => exact holds
      | object => exact holds
      | _ => cases nominal
    | typeParameter => exact holds
    | methodParameter => exact holds
    | byRef => exact holds
    | _ => cases nominal

/-- What is assignable stays so when more parents become known, as long as there are few types above
each type. -/
theorem assignableFrom_of_parents_subset (few : ∀ type, h'.FewAbove type)
    (more : ∀ type, h.parents type ⊆ h'.parents type) (target source : Ty)
    (holds : target.assignableFrom h source = true) : target.assignableFrom h' source = true := by
  refine assignableFrom_mono (fun source ancestor _ member => ?_) target source holds
  rw [Hierarchy.mem_ancestors_iff (few source)]
  exact Relation.TransGen.mono (fun type _ step => more type step) _ _
    (Hierarchy.above_of_mem_ancestors member)

/-- What is assignable where nothing is known is assignable in every hierarchy. -/
theorem assignableFrom_of_unknown (h : Hierarchy) (target source : Ty)
    (holds : target.assignableFrom .unknown source = true) : target.assignableFrom h source = true := by
  refine assignableFrom_mono (fun source ancestor nominal member => ?_) target source holds
  rw [Hierarchy.eq_object_of_above_unknown (Hierarchy.above_of_mem_ancestors member)] at nominal
  cases nominal

end Ty

end Interpose
