import Interpose.Proofs.Module.Hierarchy

/-!
# What instances of generic classes can be held as

The definition of a generic class names its base type and its interfaces by means of its type parameters.
The hierarchy of a module puts the type arguments of an instance into its base type, but it takes its
interfaces as the definition writes them.  So an instance can be held as its base type, and as an
interface that mentions no type parameter.  An interface with the type arguments in place is only found
if it is reached in another way.

## Main definitions

* `Ty.isReference` — the hierarchy decides what the type can hold, and its values are references
* `Hierarchy.AtOrAbove` — a chain of any length leads from one type to another
* `Module.LeadsTo` — the types above the instances of a definition

## Main results

* `Ty.assignableFrom_class_iff` — what a value of a class can be held as
* `Module.parents_of_definition?` — the types directly above an instance
* `Module.assignableFrom_instance_iff` — all that an instance can be held as
-/

namespace Interpose

/-- The hierarchy decides what else the type can hold, and its values are references. -/
def Ty.isReference (type : Ty) : Bool := type.isNominal && !type.isValueType

/-- A chain of steps to base types and interfaces leads from one type to another, or they are the same. -/
def Hierarchy.AtOrAbove (h : Hierarchy) : Ty → Ty → Prop :=
  Relation.ReflTransGen fun type parent => parent ∈ h.parents type

/-- What is above a type is at or above one of its parents. -/
theorem Hierarchy.above_iff {h : Hierarchy} {type above : Ty} :
    h.Above type above ↔ ∃ parent ∈ h.parents type, h.AtOrAbove parent above :=
  Relation.TransGen.head'_iff

/-- Values of a class can be held as the types directly above it. -/
theorem Ty.assignableFrom_of_mem_parents {h : Hierarchy} {type target : Ty} (closed : type.isOpen = false)
    (reference : type.isValueType = false) (isReference : target.isReference = true)
    (step : target ∈ h.parents type) : target.assignableFrom h type = true := by
  obtain ⟨nominal, targetReference⟩ := Bool.and_eq_true_iff.mp isReference
  rw [Bool.not_eq_true'] at targetReference
  by_cases same : target = type
  · exact same ▸ assignableFrom_self h target
  · exact (assignableFrom_iff_of_nominal nominal closed same).mpr
      ⟨targetReference, reference, Hierarchy.mem_ancestors_of_mem_parents step⟩

/-- What a value of a class can be held as, as far as closed types go. -/
theorem Ty.assignableFrom_class_iff {h : Hierarchy} {type target : Ty} (closed : type.isOpen = false)
    (nominal : type.isNominal = true) (reference : type.isValueType = false)
    (closedTarget : target.isOpen = false) : target.assignableFrom h type = true ↔
      target = type ∨ target = object ∨ target.isReference = true ∧ target ∈ h.ancestors type := by
  by_cases same : target = type
  · rw [same]
    exact ⟨fun _ => .inl rfl, fun _ => assignableFrom_self h type⟩
  rw [or_iff_right same]
  -- Shapes without definition have no values of a class; only the root holds them all the same.
  cases shape_of_closed closedTarget with
  | void =>
    have nothing : void.assignableFrom h type = false := if_neg same
    simp [nothing, isReference, isNominal]
  | root => simp [assignableFrom_object, isValueLike_of_nominal nominal]
  | reference target =>
    have nothing : (byRef target).assignableFrom h type ≠ true := fun holds =>
      same (eq_of_byRef_assignableFrom (by simpa only [isOpen] using closedTarget) closed holds)
    simp [nothing, isReference, isNominal]
  | array element =>
    have nothing : (array element).assignableFrom h type ≠ true := by
      intro holds
      obtain ⟨other, rfl⟩ := exists_array_of_assignableFrom closed holds
      cases nominal
    simp [nothing, isReference, isNominal]
  | nominal named =>
    have differs : target ≠ object := by
      rintro rfl
      cases named
    rw [assignableFrom_iff_of_nominal named closed same, or_iff_right differs, isReference, named]
    simp [reference]

namespace Module

variable {m : Module} {type target : Ty} {name : String} {arguments : List Ty} {d : TypeDef}

/-- A type is above the instances of a definition with the given arguments.  Their base type has the
arguments in place, but their interfaces are those which the definition writes. -/
def LeadsTo (m : Module) (d : TypeDef) (arguments : List Ty) (target : Ty) : Prop :=
  (∃ base ∈ d.base, m.hierarchy.AtOrAbove (base.instantiate arguments []) target) ∨
    ∃ interface ∈ d.interfaces, m.hierarchy.AtOrAbove interface target

/-- Types with a definition are named by it, and have no parents but those that the hierarchy tells. -/
theorem nominal_of_definition? (defines : definition? type = some (name, arguments)) :
    type.isNominal = true ∧ type.typeName = name ∧
      ∀ h : Hierarchy, h.parents type = (h.base type).toList ++ h.interfaces type := by
  -- Strings and arrays have another base type, but no definition.
  unfold definition? at defines
  split at defines
  all_goals cases defines
  all_goals exact ⟨rfl, rfl, fun _ => rfl⟩

/-- The types directly above an instance of a definition. -/
theorem parents_of_definition? (defines : definition? type = some (name, arguments))
    (named : m.typeNamed? name = some d) : m.hierarchy.parents type =
      (d.base.map (·.instantiate arguments [])).toList ++ d.interfaces := by
  obtain ⟨-, isName, parents⟩ := nominal_of_definition? defines
  have base : m.baseOf type = d.base.map (·.instantiate arguments []) := by
    unfold baseOf
    rw [defines]
    simp only [Option.bind_eq_bind, Option.bind_some, named]
    cases d.base <;> rfl
  have interfaces : m.interfacesOf type = d.interfaces := by
    rw [interfacesOf, isName, named]
    rfl
  rw [parents, ← base, ← interfaces]
  rfl

theorem above_iff_leadsTo (defines : definition? type = some (name, arguments))
    (named : m.typeNamed? name = some d) :
    m.hierarchy.Above type target ↔ m.LeadsTo d arguments target := by
  rw [Hierarchy.above_iff, parents_of_definition? defines named]
  simp only [List.mem_append, Option.mem_toList, Option.map_eq_some_iff, or_and_right, exists_or,
    LeadsTo, Option.mem_def]
  refine or_congr ?_ Iff.rfl
  constructor
  · rintro ⟨_, ⟨base, has, rfl⟩, chain⟩
    exact ⟨base, has, chain⟩
  · rintro ⟨base, has, chain⟩
    exact ⟨_, ⟨base, has, rfl⟩, chain⟩

/-- An instance of a generic class can be held as its base type with the type arguments in place, and as
each interface of its definition as that is written.  As long as there are not too many types above the
instance, this and what is above these types is all that it can be held as, besides itself and the root.
So it can be held as an interface with the type arguments in place just if one of these ways leads to it,
for instance because the interface mentions no type parameter. -/
theorem assignableFrom_instance_iff (defines : definition? type = some (name, arguments))
    (named : m.typeNamed? name = some d) (closed : type.isOpen = false)
    (reference : type.isValueType = false) :
    (∀ base ∈ d.base, (base.instantiate arguments []).isReference = true →
      (base.instantiate arguments []).assignableFrom m.hierarchy type = true) ∧
    (∀ interface ∈ d.interfaces, interface.isReference = true →
      interface.assignableFrom m.hierarchy type = true) ∧
    (m.hierarchy.FewAbove type → ∀ target : Ty, target.isOpen = false →
      (target.assignableFrom m.hierarchy type = true ↔ target = type ∨ target = .object ∨
        target.isReference = true ∧ m.LeadsTo d arguments target)) := by
  have parents := parents_of_definition? defines named
  refine ⟨fun base has isReference => ?_, fun interface member isReference => ?_,
    fun few target closedTarget => ?_⟩
  · apply Ty.assignableFrom_of_mem_parents closed reference isReference
    rw [parents, Option.mem_def.mp has]
    exact List.mem_cons_self
  · apply Ty.assignableFrom_of_mem_parents closed reference isReference
    rw [parents]
    exact List.mem_append_right _ member
  · rw [Ty.assignableFrom_class_iff closed (nominal_of_definition? defines).1 reference closedTarget,
      Hierarchy.mem_ancestors_iff few, above_iff_leadsTo defines named]

/-- A pipe for values of some type is a stage for such values, and a source of them. -/
def pipeModule : Module where
  name := "Demo"
  types := #[
    { TypeDef.ofInterface "Demo.ISource" with genericArity := 1 },
    { TypeDef.ofClass "Demo.Stage" with genericArity := 1 },
    { name := "Demo.Pipe"
      base := some (.inst (.classType "Demo.Stage") [.typeParameter 0])
      interfaces := [.inst (.classType "Demo.ISource") [.typeParameter 0], .classType "Demo.IClosable"]
      genericArity := 1 }]

/-- An instance of one of the definitions for strings. -/
def ofStrings (name : String) : Ty := .inst (.classType name) [.string]

/-- A pipe of strings is a stage for strings and can be closed, but nothing leads from it to the sources of
strings. -/
theorem assignableFrom_instance_iff_pipe :
    (ofStrings "Demo.Stage").assignableFrom pipeModule.hierarchy (ofStrings "Demo.Pipe") = true ∧
    (Ty.classType "Demo.IClosable").assignableFrom pipeModule.hierarchy (ofStrings "Demo.Pipe") = true ∧
    ¬ pipeModule.LeadsTo pipeModule.types[2] [.string] (ofStrings "Demo.ISource") := by
  have defines : definition? (ofStrings "Demo.Pipe") = some ("Demo.Pipe", [.string]) := rfl
  have named : pipeModule.typeNamed? "Demo.Pipe" = some pipeModule.types[2] := rfl
  obtain ⟨bases, interfaces, all⟩ :=
    assignableFrom_instance_iff defines named (by decide) (by decide)
  have few : pipeModule.hierarchy.FewAbove (ofStrings "Demo.Pipe") :=
    Hierarchy.fewAbove_of_closed
      [ofStrings "Demo.Stage", .object, .inst (.classType "Demo.ISource") [.typeParameter 0],
        .classType "Demo.IClosable"] (by decide) (by decide) (by decide)
  -- A walk up the hierarchy shows that pipes are no sources, so nothing can lead from them to these.
  refine ⟨bases _ rfl (by decide), interfaces _ (by decide) (by decide), fun leads => ?_⟩
  have holds := (all few (ofStrings "Demo.ISource") (by decide)).mpr (.inr (.inr ⟨by decide, leads⟩))
  revert holds
  decide

/-- An instance of a generic class need not be an instance of the interfaces of its definition. -/
theorem not_forall_instance_implements : ¬ ∀ (m : Module) (name : String) (d : TypeDef)
    (arguments : List Ty) (interface : Ty), m.typeNamed? name = some d →
      arguments.length = d.genericArity.toNat → (∀ argument ∈ arguments, argument.isOpen = false) →
        interface ∈ d.interfaces → (interface.instantiate arguments []).isReference = true →
          (interface.instantiate arguments []).assignableFrom m.hierarchy
            (.inst (.classType name) arguments) = true := by
  intro claimed
  have holds := claimed pipeModule "Demo.Pipe" pipeModule.types[2] [.string]
    (.inst (.classType "Demo.ISource") [.typeParameter 0]) rfl rfl (by decide) (by decide) (by decide)
  revert holds
  decide

end Module

end Interpose
