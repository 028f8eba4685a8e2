import Interpose.Proofs.Ty.Transitivity
import Interpose.Proofs.Weaving.Interception

/-!
# Results of substitutes

What a substitute returns goes to running code as an object, and is then taken as a value of the type
that the call returns.  On the way numbers, truth values and characters are wrapped, and wrapped ones
are unwrapped if the type asks for it.  A substitute that returns what the call would have returned
goes unnoticed unless that value has not the form that its type asks for.

## Main definitions

* `Value.IsWrapped` — the value is a wrapped one
* `Store.Fits` — a value can be the result of a call of a type

## Main results

* `typeOf_of_fits` — the run-time types of values held in place
* `extractAs_returned_of_typeOf`, `extractAs_returned_of_reference` — what comes back
* `fails_extractAs_returned`, `fails_extractAs_default` — what does not
* `extractAs_returned_iff` — when a value comes back as it was
* `not_forall_extractAs_returned` — it does not always
-/

namespace Interpose

variable {h : Hierarchy} {s : Store} {type : Ty} {value : Value}

namespace Value

/-- The value is a wrapped one. -/
def IsWrapped (value : Value) : Prop := ∃ content, value = boxed content

theorem unwrapped_eq_self_iff : value.unwrapped = value ↔ ¬ value.IsWrapped := by
  cases value with
  | boxed content =>
    refine iff_of_false (fun same => ?_) (not_not_intro ⟨content, rfl⟩)
    have smaller : sizeOf content = sizeOf (boxed content) := congrArg sizeOf same
    simp at smaller
  | _ => exact iff_of_true rfl nofun

theorem returned_eq_self_iff : value.returned = value ↔ value.isPrimitive = false ∧ value ≠ void := by
  cases value <;> simp [returned, toObject, isPrimitive]

/-- A value of the right type at run time needs no other form. -/
theorem adaptTo_typeOf (s : Store) (value : Value) : value.adaptTo (s.typeOf value) = value := by
  cases value <;> simp [adaptTo, Store.typeOf]

/-- Only short integers are ever given another form. -/
theorem adaptTo_of_ne_int32 (other : s.typeOf value ≠ .int32) : value.adaptTo type = value := by
  unfold adaptTo
  split <;> first | rfl | exact absurd rfl other

/-- Numbers, truth values and characters are of types whose values are held in place. -/
theorem isValueType_typeOf (primitive : value.isPrimitive = true) :
    (s.typeOf value).isValueType = true := by
  cases value <;> first | rfl | cases primitive

end Value

/-- A value can be the result of a call that returns the given type: it is what storage of the type
starts out with, or it can be held as a value of the type. -/
def Store.Fits (s : Store) (h : Hierarchy) (value : Value) (type : Ty) : Prop :=
  value = Value.default type ∨ type.assignableFrom h (s.typeOf value) = true

namespace Ty

theorem isNominal_of_isValueType (held : type.isValueType = true) : type.isNominal = true := by
  cases type with
  | builtin type => cases type <;> first | rfl | cases held
  | valueType => rfl
  | inst => rfl
  | _ => cases held

theorem isGenericParameter_of_isValueType (held : type.isValueType = true) :
    type.isGenericParameter = false := by
  cases type <;> first | rfl | cases held

end Ty

/-- Storage of references starts out with null. -/
theorem Value.default_of_reference (reference : type.isValueType = false) :
    Value.default type = .null := by
  cases type with
  | builtin type => cases type <;> first | rfl | cases reference
  | _ => rfl

/-- A value that is held in place is of its type at run time, unless that is a type parameter, which
goes for any type. -/
theorem typeOf_of_fits (held : type.isValueType = true) (fits : s.Fits h value type)
    (present : value ≠ .null) :
    s.typeOf value = type ∨ (s.typeOf value).isGenericParameter = true := by
  obtain rfl | assignable := fits
  · left
    cases type with
    | builtin type => cases type <;> first | rfl | cases held
    | _ => exact absurd rfl present
  · refine or_iff_not_imp_left.mpr fun differ => ?_
    -- No other type is below one that is held in place, unless it is not known yet.
    rw [Ty.assignableFrom_of_nominal (Ty.isNominal_of_isValueType held) (Ne.symm differ), held]
      at assignable
    simpa using assignable

/-- A number, truth value or character is the result of a call that returns another type only if that
type holds everything. -/
theorem eq_object_of_primitive (closed : type.isOpen = false) (some : type ≠ .void)
    (direct : type.isByRef = false) (reference : type.isValueType = false)
    (fits : s.Fits h value type) (primitive : value.isPrimitive = true) : type = .object := by
  have held : (s.typeOf value).isValueType = true := Value.isValueType_typeOf primitive
  have differ : type ≠ s.typeOf value := by
    rintro rfl
    rw [held] at reference
    cases reference
  obtain rfl | assignable := fits
  · rw [Value.default_of_reference reference] at primitive
    cases primitive
  · cases Ty.shape_of_closed closed with
    | void => exact absurd rfl some
    | root => rfl
    | reference target => cases direct
    | array element => cases value <;> first | cases assignable | cases primitive
    | nominal nominal =>
      rw [Ty.assignableFrom_of_nominal nominal differ, held,
        Ty.isGenericParameter_of_isValueType held] at assignable
      simp at assignable

theorem yields_extractAs_boxed (held : type.isValueType = true) {content : Value}
    (same : s.typeOf content = type) :
    Yields ((Value.boxed content).extractAs type h) s content s := by
  unfold Value.extractAs
  rw [yields_get_bind, if_pos held]
  have adapted : content.adaptTo type = content := same ▸ Value.adaptTo_typeOf s content
  simp only [adapted, if_pos same]
  exact yields_pure.mpr ⟨rfl, rfl⟩

/-- A value that is held in place, and is of its type at run time, comes back without a wrapping. -/
theorem extractAs_returned_of_typeOf (held : type.isValueType = true) (same : s.typeOf value = type) :
    Yields (value.returned.extractAs type h) s value.unwrapped s := by
  cases value with
  | void | null | string | handle => subst same; cases held
  | boxed content => exact yields_extractAs_boxed held same
  | object ref =>
    show Yields ((Value.object ref).extractAs type h) s (.object ref) s
    unfold Value.extractAs
    rw [yields_get_bind, if_pos held]
    simp only [if_pos same]
    exact yields_pure.mpr ⟨rfl, rfl⟩
  | _ => exact yields_extractAs_boxed held same

/-- A value whose type at run time is a type parameter is none of a type held in place. -/
theorem fails_extractAs_returned (held : type.isValueType = true)
    (generic : (s.typeOf value).isGenericParameter = true) :
    Fails (value.returned.extractAs type h) s
      (.fault (.invalidCast (s.typeOf value).text type.text)) s := by
  have differ : s.typeOf value ≠ type := by
    rintro rfl
    rw [Ty.isGenericParameter_of_isValueType held] at generic
    cases generic
  cases value with
  | boxed content =>
    have adapted : content.adaptTo type = content :=
      Value.adaptTo_of_ne_int32 (s := s) fun same => by
        rw [Store.typeOf, same] at generic
        cases generic
    show Fails ((Value.boxed content).extractAs type h) s _ s
    unfold Value.extractAs
    rw [fails_get_bind, if_pos held]
    have differ' : s.typeOf content ≠ type := differ
    simp only [adapted, if_neg differ']
    exact fails_throw.mpr ⟨rfl, rfl⟩
  | object ref =>
    show Fails ((Value.object ref).extractAs type h) s _ s
    unfold Value.extractAs
    rw [fails_get_bind, if_pos held]
    simp only [if_neg differ]
    exact fails_throw.mpr ⟨rfl, rfl⟩
  | _ => cases generic

/-- What storage of a value type with a name starts out with does not come back at all. -/
theorem fails_extractAs_default (held : type.isValueType = true)
    (named : ∀ builtin, type ≠ .builtin builtin) :
    Fails ((Value.default type).returned.extractAs type h) s (.fault .nullReference) s := by
  have null : Value.default type = .null := by
    cases type with
    | builtin builtin => exact absurd rfl (named builtin)
    | _ => rfl
  rw [null]
  show Fails (Value.null.extractAs type h) s _ s
  unfold Value.extractAs
  rw [fails_get_bind, if_pos held]
  exact fails_throw.mpr ⟨rfl, rfl⟩

/-- A result of a reference type comes back as what was returned. -/
theorem extractAs_returned_of_reference (reference : type.isValueType = false)
    (fits : s.Fits h value type) :
    Yields (value.returned.extractAs type h) s value.returned s := by
  have kept : (value.returned.isNull || type.assignableFrom h (s.typeOf value.returned)) = true := by
    obtain rfl | assignable := fits
    · rw [Value.default_of_reference reference]
      rfl
    · cases value <;> first | rfl | exact assignable
  unfold Value.extractAs
  rw [yields_get_bind, if_neg (by rw [reference]; decide), if_pos kept]
  exact yields_pure.mpr ⟨rfl, rfl⟩

/-- A substitute that returns what the call would have returned goes unnoticed just if that value has
the form that its type asks for: a value held in place is of the type at run time and not wrapped, and
a reference is no number, truth value or character and there is one.  Where it is noticed, the value
comes back unwrapped, or as the object that it was made, or it is one of a type parameter, which a type
held in place does not take. -/
theorem extractAs_returned_iff (closed : type.isOpen = false) (some : type ≠ .void)
    (direct : type.isByRef = false) (fits : s.Fits h value type)
    (present : type.isValueType = true → value ≠ .null) :
    (Yields (value.returned.extractAs type h) s value s ↔
      if type.isValueType then s.typeOf value = type ∧ ¬ value.IsWrapped
      else value.isPrimitive = false ∧ value ≠ .void) ∧
    (type.isValueType = true → s.typeOf value = type →
      Yields (value.returned.extractAs type h) s value.unwrapped s) ∧
    (type.isValueType = true → s.typeOf value ≠ type → (s.typeOf value).isGenericParameter = true ∧
      Fails (value.returned.extractAs type h) s
        (.fault (.invalidCast (s.typeOf value).text type.text)) s) ∧
    (type.isValueType = false → Yields (value.returned.extractAs type h) s value.returned s ∧
      (value.isPrimitive = true → type = .object)) := by
  cases held : type.isValueType with
  | false =>
    have comes := extractAs_returned_of_reference held fits
    refine ⟨?_, nofun, nofun, fun _ => ⟨comes, eq_object_of_primitive closed some direct held fits⟩⟩
    rw [if_neg (by decide), ← Value.returned_eq_self_iff]
    constructor
    · exact fun same => (comes.unique same).1
    · exact fun same => Eq.trans comes (congrArg (fun result => (Except.ok result, s)) same)
  | true =>
    refine ⟨?_, fun _ same => extractAs_returned_of_typeOf held same, fun _ differ => ?_, nofun⟩
    · rw [if_pos rfl, ← Value.unwrapped_eq_self_iff]
      constructor
      · intro same
        obtain typed | generic := typeOf_of_fits held fits (present held)
        · exact ⟨typed, ((extractAs_returned_of_typeOf held typed).unique same).1⟩
        · cases (fails_extractAs_returned (h := h) held generic).symm.trans same
      · rintro ⟨typed, same⟩
        have comes := extractAs_returned_of_typeOf (h := h) held typed
        rwa [same] at comes
    · -- A value that fits a type held in place but is of another type is one of a type parameter.
      have generic := (typeOf_of_fits held fits (present held)).resolve_left differ
      exact ⟨generic, fails_extractAs_returned held generic⟩

/-- A number comes back as a number, and as a wrapped one if the call returns any object. -/
theorem extractAs_returned_iff_five :
    Yields ((Value.int32 5).returned.extractAs .int32 .unknown) {} (.int32 5) {} ∧
      Yields ((Value.boxed (.int32 5)).returned.extractAs .int32 .unknown) {} (.int32 5) {} ∧
      Yields ((Value.int32 5).returned.extractAs .object .unknown) {} (.boxed (.int32 5)) {} ∧
      ¬ Yields ((Value.int32 5).returned.extractAs .object .unknown) {} (.int32 5) {} := by
  have number : Store.Fits {} .unknown (.int32 5) .int32 := .inr rfl
  have object : Store.Fits {} .unknown (.boxed (.int32 5)) .int32 := .inr rfl
  have anything : Store.Fits {} .unknown (.int32 5) .object := .inr rfl
  have bare := extractAs_returned_iff rfl (by decide) rfl number nofun
  have wrapped := extractAs_returned_iff rfl (by decide) rfl object nofun
  have any := extractAs_returned_iff rfl (by decide) rfl anything nofun
  exact ⟨bare.1.mpr ⟨rfl, nofun⟩, wrapped.2.1 rfl rfl, (any.2.2.2 rfl).1,
    fun same => nomatch (any.1.mp same).1⟩

/-- A substitute that returns what the call would have returned may be noticed. -/
theorem not_forall_extractAs_returned : ¬ ∀ (type : Ty) (h : Hierarchy) (s : Store) (value : Value),
    type.isOpen = false → type ≠ .void → type.isByRef = false → value.adaptTo type = value →
    s.Fits h value type → Yields (value.returned.extractAs type h) s value s := by
  intro right
  have same := right .object .unknown {} (.int32 5) rfl (by decide) rfl rfl (.inr rfl)
  have wrapped : Yields ((Value.int32 5).returned.extractAs .object .unknown) {} (.boxed (.int32 5)) {} :=
    extractAs_returned_of_reference rfl (.inr rfl)
  cases (wrapped.unique same).1

end Interpose
