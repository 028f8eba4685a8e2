import Interpose.Proofs.Ty.Ancestors
import Interpose.Proofs.Ty.Assignability

/-!
# Assignability is transitive

If one type can hold the values of another, and that one those of a third, the first can hold those of
the third.  This is about closed types, since a type parameter goes for any type, and about
hierarchies in which a walk up finds everything.

## Main definitions

* `Hierarchy.LeavesUndefined` — types without definition take no part in a hierarchy
* `Ty.isNominal` — the hierarchy decides what a type can hold
* `Ty.Shape` — the shapes of closed types, as far as assignability goes

## Main results

* `assignableFrom_iff_of_nominal` — what a type can hold if the hierarchy decides about it
* `assignableFrom_trans` — assignability is transitive on closed types
-/

namespace Interpose

/-- Types without definition take no part in the hierarchy, except that the root is above arrays. -/
structure Hierarchy.LeavesUndefined (h : Hierarchy) : Prop where
  void : h.parents .void = []
  object : h.parents .object = []
  byRef (target : Ty) : h.parents (.byRef target) = []
  array (element : Ty) : h.parents (.array element) = [.object]

namespace Ty

variable {h : Hierarchy} {a b c : Ty}

/-- Whether the hierarchy decides what else a type can hold. -/
def isNominal : Ty → Bool
  | void | object | typeParameter _ | methodParameter _ | byRef _ | array _ => false
  | _ => true

/-- The shapes of closed types. -/
inductive Shape : Ty → Prop
  | void : Shape void
  | root : Shape object
  | reference (target : Ty) : Shape (byRef target)
  | array (element : Ty) : Shape (array element)
  | nominal {type : Ty} (nominal : type.isNominal = true) : Shape type

theorem shape_of_closed (closed : a.isOpen = false) : a.Shape := by
  cases a with
  | builtin type =>
    cases type with
    | void => exact .void
    | object => exact .root
    | _ => exact .nominal rfl
  | typeParameter => cases closed
  | methodParameter => cases closed
  | byRef target => exact .reference target
  | array element => exact .array element
  | _ => exact .nominal rfl

theorem isGenericParameter_of_closed (closed : a.isOpen = false) : a.isGenericParameter = false := by
  cases a with
  | typeParameter => cases closed
  | methodParameter => cases closed
  | _ => rfl

theorem isValueLike_of_nominal (nominal : a.isNominal = true) : a.isValueLike = true := by
  cases a with
  | builtin type =>
    cases type with
    | void => cases nominal
    | _ => rfl
  | byRef => cases nominal
  | _ => rfl

theorem assignableFrom_object (h : Hierarchy) (a : Ty) : object.assignableFrom h a = a.isValueLike := by
  by_cases same : object = a
  · rw [← same]
    exact assignableFrom_self h object
  · exact if_neg same

/-- What the hierarchy has to say about a type of which it decides. -/
theorem assignableFrom_of_nominal (nominal : a.isNominal = true) (differ : a ≠ b) :
    a.assignableFrom h b =
      if b.isGenericParameter then true
      else if a.isValueType || b.isValueType then false
      else (h.ancestors b).any (· = a) := by
  cases a with
  | builtin type =>
    cases type with
    | void => cases nominal
    | object => cases nominal
    | _ => exact if_neg differ
  | typeParameter => cases nominal
  | methodParameter => cases nominal
  | byRef => cases nominal
  | array => cases nominal
  | _ => exact if_neg differ

/-- A type about which the hierarchy decides holds the types below it, unless values are held in
place. -/
theorem assignableFrom_iff_of_nominal (nominal : a.isNominal = true) (closed : b.isOpen = false)
    (differ : a ≠ b) :
    a.assignableFrom h b = true ↔
      a.isValueType = false ∧ b.isValueType = false ∧ a ∈ h.ancestors b := by
  rw [assignableFrom_of_nominal nominal differ, isGenericParameter_of_closed closed]
  cases a.isValueType <;> cases b.isValueType <;> simp

/-- A reference holds no other closed type than itself. -/
theorem eq_of_byRef_assignableFrom (closedTarget : a.isOpen = false) (closed : b.isOpen = false)
    (holds : (byRef a).assignableFrom h b = true) : byRef a = b := by
  cases b with
  | byRef target =>
    by_contra differ
    have differs : a ≠ target := fun same => differ (congrArg byRef same)
    have closedInner : target.isOpen = false := by simpa only [isOpen] using closed
    rw [assignableFrom_byRef differs, isGenericParameter_of_closed closedTarget,
      isGenericParameter_of_closed closedInner] at holds
    cases holds
  | typeParameter => cases closed
  | methodParameter => cases closed
  | _ => cases holds

/-- An array holds no other closed types than arrays. -/
theorem exists_array_of_assignableFrom (closed : b.isOpen = false)
    (holds : (array a).assignableFrom h b = true) : ∃ element, b = array element := by
  cases b with
  | array element => exact ⟨element, rfl⟩
  | typeParameter => cases closed
  | methodParameter => cases closed
  | _ => cases holds

variable (undefined : h.LeavesUndefined)

include undefined

/-- What is below another type than the root is a type about which the hierarchy decides. -/
theorem isNominal_of_above (closed : b.isOpen = false) (differs : a ≠ object)
    (chain : h.Above b a) : b.isNominal = true := by
  cases shape_of_closed closed with
  | void => exact absurd chain (Hierarchy.not_above_of_parents_eq_nil undefined.void)
  | root => exact absurd chain (Hierarchy.not_above_of_parents_eq_nil undefined.object)
  | reference target =>
    exact absurd chain (Hierarchy.not_above_of_parents_eq_nil (undefined.byRef target))
  | array element =>
    -- The only step up leads to the root, and there the chain has to end.
    obtain ⟨parent, step, rest⟩ := Relation.TransGen.head'_iff.mp chain
    rw [undefined.array, List.mem_singleton] at step
    subst step
    obtain same | further := Relation.reflTransGen_iff_eq_or_transGen.mp rest
    · exact absurd same differs
    · exact absurd further (Hierarchy.not_above_of_parents_eq_nil undefined.object)
  | nominal nominal => exact nominal

/-- What a type about which the hierarchy decides holds is such a type as well, and is below it. -/
theorem below_of_assignableFrom (nominal : a.isNominal = true) (closed : b.isOpen = false)
    (differ : a ≠ b) (holds : a.assignableFrom h b = true) :
    b.isNominal = true ∧ h.Above b a := by
  obtain ⟨-, -, ancestor⟩ := (assignableFrom_iff_of_nominal nominal closed differ).mp holds
  have chain := Hierarchy.above_of_mem_ancestors ancestor
  refine ⟨isNominal_of_above undefined closed ?_ chain, chain⟩
  rintro rfl
  cases nominal

/-- What holds values holds nothing but values. -/
theorem isValueLike_of_assignableFrom (closedTarget : a.isOpen = false) (closed : b.isOpen = false)
    (valueLike : a.isValueLike = true) (holds : a.assignableFrom h b = true) :
    b.isValueLike = true := by
  by_cases same : a = b
  · exact same ▸ valueLike
  cases shape_of_closed closedTarget with
  | void => cases valueLike
  | root => rw [← assignableFrom_object h, holds]
  | reference => cases valueLike
  | array element =>
    obtain ⟨other, rfl⟩ := exists_array_of_assignableFrom closed holds
    rfl
  | nominal nominal =>
    exact isValueLike_of_nominal (below_of_assignableFrom undefined nominal closed same holds).1

/-- Assignability is transitive on closed types. -/
theorem assignableFrom_trans (few : ∀ type, h.FewAbove type) (a b c : Ty)
    (closedA : a.isOpen = false) (closedB : b.isOpen = false) (closedC : c.isOpen = false)
    (ab : a.assignableFrom h b = true) (bc : b.assignableFrom h c = true) :
    a.assignableFrom h c = true := by
  by_cases sameAB : a = b
  · exact sameAB ▸ bc
  by_cases sameBC : b = c
  · exact sameBC ▸ ab
  by_cases sameAC : a = c
  · exact sameAC ▸ assignableFrom_self h a
  cases shape_of_closed closedA with
  | void =>
    have nothing : void.assignableFrom h b = false := if_neg sameAB
    rw [nothing] at ab
    cases ab
  | root =>
    rw [assignableFrom_object] at ab ⊢
    exact isValueLike_of_assignableFrom undefined closedB closedC ab bc
  | reference target =>
    exact absurd (eq_of_byRef_assignableFrom (by simpa only [isOpen] using closedA) closedB ab) sameAB
  | array element =>
    obtain ⟨middle, rfl⟩ := exists_array_of_assignableFrom closedB ab
    obtain ⟨source, rfl⟩ := exists_array_of_assignableFrom closedC bc
    rw [assignableFrom_array fun same => sameAB (congrArg array same), Bool.and_eq_true,
      Bool.and_eq_true] at ab
    rw [assignableFrom_array fun same => sameBC (congrArg array same), Bool.and_eq_true,
      Bool.and_eq_true] at bc
    rw [assignableFrom_array fun same => sameAC (congrArg array same), Bool.and_eq_true,
      Bool.and_eq_true]
    simp only [isOpen] at closedA closedB closedC
    exact ⟨⟨ab.1.1, bc.1.2⟩,
      assignableFrom_trans few element middle source closedA closedB closedC ab.2 bc.2⟩
  | nominal nominal =>
    obtain ⟨nominalB, chainAB⟩ := below_of_assignableFrom undefined nominal closedB sameAB ab
    obtain ⟨-, chainBC⟩ := below_of_assignableFrom undefined nominalB closedC sameBC bc
    have valueA := ((assignableFrom_iff_of_nominal nominal closedB sameAB).mp ab).1
    have valueC := ((assignableFrom_iff_of_nominal nominalB closedC sameBC).mp bc).2.1
    -- Nothing is lost on the way from one walk to the other, since there are few types above `c`.
    have ancestor := (Hierarchy.mem_ancestors_iff (few c)).mpr (chainBC.trans chainAB)
    exact (assignableFrom_iff_of_nominal nominal closedC sameAC).mpr ⟨valueA, valueC, ancestor⟩

end Ty

end Interpose
