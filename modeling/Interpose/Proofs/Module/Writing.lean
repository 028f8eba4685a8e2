import Interpose.Proofs.Module.Loading
import Interpose.Proofs.Module.References

/-!
# Which modules can be written

Types of signatures with type arguments in them can be written if the types that they are made of can.
Apart from that, a module can be written if its tables are not too long, its sequence points are in
order, and the sizes of the bodies of its methods can be told by numbers.

## Main definitions

* `Method.mentioned` — the types that the declaration of a method mentions
* `Body.Countable` — the sizes of a body can be told by numbers
* `Module.Writable` — all of a module can be written, apart from the sizes of bodies

## Main results

* `Ty.defined_instantiate` — types with type arguments in them can be written
* `Module.Writable.mentioned_of_methodAt` — the types of methods that tokens stand for can be written
* `Module.Writable.defined_encode_iff` — a module can be written if the sizes of its bodies can be
  told
* `Module.Tabled.writable` — tables that are read can be written
-/

namespace Interpose

namespace Ty

variable {types methods : List Ty}

mutual

/-- A type with type arguments in it can be written if type and arguments can. -/
theorem defined_instantiate (hTypes : ∀ type ∈ types, type.encode.Defined)
    (hMethods : ∀ type ∈ methods, type.encode.Defined) :
    (type : Ty) → type.encode.Defined → (type.instantiate types methods).encode.Defined
  | builtin _, h => h
  | classType _, h => h
  | valueType _, h => h
  | typeParameter index, h => by
    rw [instantiate]
    cases found : types[index.toNat]? with
    | none => exact h
    | some type => exact hTypes type (List.mem_of_getElem? found)
  | methodParameter index, h => by
    rw [instantiate]
    cases found : methods[index.toNat]? with
    | none => exact h
    | some type => exact hMethods type (List.mem_of_getElem? found)
  | byRef target, h => by
    rw [instantiate, defined_encode_byRef_iff]
    exact defined_instantiate hTypes hMethods target (defined_encode_byRef_iff.mp h)
  | array element, h => by
    rw [instantiate, defined_encode_array_iff]
    exact defined_instantiate hTypes hMethods element (defined_encode_array_iff.mp h)
  | inst generic arguments, h => by
    obtain ⟨first, few, rest⟩ := defined_encode_inst_iff.mp h
    rw [instantiate, defined_encode_inst_iff]
    refine ⟨defined_instantiate hTypes hMethods generic first, ?_,
      defined_instantiateAll hTypes hMethods arguments rest⟩
    rw [instantiateAll_eq_map, List.length_map]
    exact few

theorem defined_instantiateAll (hTypes : ∀ type ∈ types, type.encode.Defined)
    (hMethods : ∀ type ∈ methods, type.encode.Defined) :
    (list : List Ty) → (∀ type ∈ list, type.encode.Defined) →
      ∀ type ∈ instantiateAll types methods list, type.encode.Defined
  | [], h => h
  | type :: rest, h => by
    obtain ⟨first, later⟩ := List.forall_mem_cons.mp h
    rw [instantiateAll, List.forall_mem_cons]
    exact ⟨defined_instantiate hTypes hMethods type first,
      defined_instantiateAll hTypes hMethods rest later⟩

end

/-- The arguments of a type can be written if the type can. -/
theorem defined_arguments {type : Ty} (h : type.encode.Defined) :
    ∀ argument ∈ type.arguments, argument.encode.Defined := by
  cases type with
  | inst generic arguments => exact (defined_encode_inst_iff.mp h).2.2
  | _ => exact fun _ member => nomatch member

end Ty

namespace Method

/-- The types that the declaration of a method mentions. -/
def mentioned (f : Method) : List Ty := f.declaringType :: (f.parameters ++ [f.returnType])

variable {f : Method}

theorem forall_mem_mentioned {P : Ty → Prop} : (∀ type ∈ f.mentioned, P type) ↔
    P f.declaringType ∧ (∀ type ∈ f.parameters, P type) ∧ P f.returnType := by
  rw [mentioned, List.forall_mem_cons, List.forall_mem_append, List.forall_mem_singleton]

/-- The types of a method with type arguments in them can be written if its types and the arguments
can. -/
theorem defined_instantiate {types methods : List Ty} {g : Method}
    (h : ∀ type ∈ f.mentioned, type.encode.Defined)
    (hTypes : ∀ type ∈ types, type.encode.Defined)
    (hMethods : ∀ type ∈ methods, type.encode.Defined)
    (declares : g.declaringType = f.declaringType)
    (takes : g.parameters = f.parameters.map (Ty.instantiate types methods))
    (returns : g.returnType = f.returnType.instantiate types methods) :
    ∀ type ∈ g.mentioned, type.encode.Defined := by
  obtain ⟨own, parameters, returnType⟩ := forall_mem_mentioned.mp h
  rw [forall_mem_mentioned, declares, takes, returns, List.forall_mem_map]
  exact ⟨own, fun type member => Ty.defined_instantiate hTypes hMethods type (parameters type member),
    Ty.defined_instantiate hTypes hMethods _ returnType⟩

theorem defined_closeDeclaring (h : ∀ type ∈ f.mentioned, type.encode.Defined) :
    ∀ type ∈ f.closeDeclaring.mentioned, type.encode.Defined := by
  have arguments := Ty.defined_arguments (forall_mem_mentioned.mp h).1
  rw [closeDeclaring_eq]
  exact defined_instantiate h arguments (by simp) rfl rfl rfl

end Method

/-- The types of a referenced method can be written if the reference can. -/
theorem MemberRef.defined_method {r : MemberRef} (h : r.encode.Defined) :
    ∀ type ∈ r.method.mentioned, type.encode.Defined := by
  obtain ⟨parent, -, signature⟩ := MemberRef.defined_encode_iff.mp h
  obtain ⟨-, -, types⟩ := MethodSig.defined_encode_iff.mp signature
  exact Method.defined_closeDeclaring (List.forall_mem_cons.mpr ⟨parent, types⟩)

/-- The type that is defined can be written if its definition can. -/
theorem TypeDef.defined_type {d : TypeDef} (h : d.encode.Defined) : d.type.encode.Defined := by
  obtain ⟨named, -⟩ := TypeDef.defined_encode_iff.mp h
  unfold TypeDef.type
  split
  case isTrue =>
    rw [Ty.encode]
    exact Write.defined_bind_pure_iff.mpr named
  case isFalse =>
    unfold Ty.ofName
    split
    case h_1 => exact Write.defined_pure _
    case h_2 =>
      rw [Ty.encode]
      exact Write.defined_bind_pure_iff.mpr named

/-- The definition with no code in its body. -/
def MethodDef.withoutCode (d : MethodDef) : MethodDef :=
  { d with body := d.body.map fun b => { b with code := [] } }

/-- Apart from the size of its code, writing a definition does not ask for any of it. -/
theorem MethodDef.defined_encode_iff_withoutCode {d : MethodDef} : d.encode.Defined ↔
    d.withoutCode.encode.Defined ∧ ∀ b ∈ d.body, b.code.length < 0x100000000 := by
  have locals : d.withoutCode.locals = d.locals := by
    rw [MethodDef.locals, MethodDef.locals, withoutCode, Option.map_map]
    rfl
  have small : ∀ b ∈ d.withoutCode.body, b.code.length < 0x100000000 := by
    simp [withoutCode]
  have types : d.withoutCode.mentioned = d.mentioned := by
    rw [mentioned, mentioned, locals]
    rfl
  rw [defined_encode_iff, defined_encode_iff, locals, types]
  constructor
  · rintro ⟨named, arity, few, fewLocals, short, written⟩
    exact ⟨⟨named, arity, few, fewLocals, small, written⟩, short⟩
  · rintro ⟨⟨named, arity, few, fewLocals, -, written⟩, short⟩
    exact ⟨named, arity, few, fewLocals, short, written⟩

/-- The definition can be written with another body, if the local variables of the body can. -/
theorem MethodDef.defined_withoutCode_with_body {d : MethodDef} {b : Body}
    (h : d.withoutCode.encode.Defined) (locals : (Write.list Ty.encode b.locals).Defined) :
    ({ d with body := some b } : MethodDef).withoutCode.encode.Defined := by
  obtain ⟨few, types⟩ := Write.defined_list_iff.mp locals
  obtain ⟨named, arity, fewParameters, -, -, written⟩ := defined_encode_iff.mp h
  obtain ⟨parameters, written⟩ := List.forall_mem_append.mp written
  obtain ⟨returnType, -⟩ := List.forall_mem_cons.mp written
  refine defined_encode_iff.mpr ⟨named, arity, fewParameters, few, by simp [withoutCode], ?_⟩
  exact List.forall_mem_append.mpr ⟨parameters, List.forall_mem_cons.mpr ⟨returnType, types⟩⟩

/-- The sizes of a body can be told by numbers: the size of its code, the distances of its sequence
points, and the size of their written form. -/
structure Body.Countable (b : Body) : Prop where
  code : b.code.length < 0x100000000
  near : b.points.Near
  points : ∀ bytes, b.points.encode = .ok bytes → bytes.length < Write.numberLimit

instance (b : Body) : Decidable b.Countable :=
  decidable_of_iff (b.code.length < 0x100000000 ∧ b.points.Near ∧
    ∀ bytes ∈ b.points.encode.toOption, bytes.length < Write.numberLimit)
    ⟨fun ⟨code, near, points⟩ =>
      ⟨code, near, fun bytes written => points bytes (toOption_eq_some_iff.mpr written)⟩,
    fun h => ⟨h.code, h.near, fun bytes written => h.points bytes (toOption_eq_some_iff.mp written)⟩⟩

/-- All of a module can be written, apart from the sizes of the bodies of its methods. -/
structure Module.Writable (m : Module) : Prop where
  named : (Write.utf8 m.name).Defined
  types : (Write.list TypeDef.encode m.types.toList).Defined
  fields : (Write.list FieldDef.encode m.fields.toList).Defined
  methods : m.methods.size < Write.numberLimit ∧ ∀ d ∈ m.methods.toList,
    d.withoutCode.encode.Defined ∧ ∀ b ∈ d.body, b.points.Orderly
  memberRefs : (Write.list MemberRef.encode m.memberRefs.toList).Defined
  methodSpecs : (Write.list MethodSpec.encode m.methodSpecs.toList).Defined
  typeSpecs : (Write.list Ty.encode m.typeSpecs.toList).Defined
  userStrings : (Write.list Write.utf16 m.userStrings.toList).Defined

namespace Module

variable {m m' : Module} {token : Token}

/-- The sequence points of a method are among those of its module, unless there are none. -/
theorem exists_mem_symbols {d : MethodDef} {b : Body} (member : d ∈ m.methods.toList)
    (hasBody : d.body = some b) : b.points = [] ∨ ∃ symbols ∈ m.symbols, symbols.2 = b.points := by
  rw [symbols_eq]
  generalize m.methods.toList = methods at member
  generalize 0 = index
  induction methods generalizing index with
  | nil => cases member
  | cons first rest ih =>
    rw [symbolsFrom]
    rcases List.mem_cons.mp member with rfl | later
    · by_cases none : b.points = []
      · exact .inl none
      · have points : d.points? = some b.points := by
          rw [MethodDef.points?, hasBody, Option.bind_some, if_neg (by simpa using none)]
        rw [points]
        exact .inr ⟨_, List.mem_cons_self, rfl⟩
    · rcases ih later (index + 1) with none | ⟨symbols, inside, same⟩
      · exact .inl none
      · refine .inr ⟨symbols, ?_, same⟩
        cases first.points? with
        | none => exact inside
        | some points => exact List.mem_cons_of_mem _ inside

/-- All sequence points of a module fit if those of each body do. -/
theorem forall_mem_symbols_iff : (∀ symbols ∈ m.symbols, symbols.2.Fit) ↔
    ∀ d ∈ m.methods.toList, ∀ b ∈ d.body, b.points.Fit := by
  refine ⟨fun all d member b hasBody => ?_, forall_mem_symbols⟩
  rcases exists_mem_symbols member hasBody with none | ⟨symbols, inside, same⟩
  · rw [none]
    exact ⟨[], rfl, by decide⟩
  · exact same ▸ all symbols inside

namespace Writable

/-- A module can be written if the sizes of its bodies can be told. -/
theorem defined_encode_iff (h : m.Writable) (few : m.finished.length < Write.numberLimit) :
    m.encode.Defined ↔ ∀ d ∈ m.methods.toList, ∀ b ∈ d.body, b.Countable := by
  have bodies {d : MethodDef} (member : d ∈ m.methods.toList) :
      d.encode.Defined ∧ (∀ b ∈ d.body, b.points.Fit) ↔ ∀ b ∈ d.body, b.Countable := by
    obtain ⟨written, orderly⟩ := h.methods.2 d member
    rw [MethodDef.defined_encode_iff_withoutCode, and_iff_right written]
    constructor
    · rintro ⟨short, fit⟩ b hasBody
      obtain ⟨bytes, wrote, small⟩ := fit b hasBody
      refine ⟨short b hasBody, (SequencePoints.defined_encode_iff.mp ⟨bytes, wrote⟩).2, ?_⟩
      intro others same
      rwa [← Except.ok.inj (wrote.symm.trans same)]
    · intro countable
      refine ⟨fun b hasBody => (countable b hasBody).code, fun b hasBody => ?_⟩
      obtain ⟨bytes, wrote⟩ := SequencePoints.defined_encode_iff.mpr
        ⟨orderly b hasBody, (countable b hasBody).near⟩
      exact ⟨bytes, wrote, (countable b hasBody).points bytes wrote⟩
  -- All other parts can be written anyway, so only the bodies are left of the condition.
  have methods := h.methods.1
  have symbols := m.length_symbols_le
  have fewSymbols : m.symbols.length < Write.numberLimit := by omega
  rw [Module.defined_encode_iff, and_iff_right h.named, and_iff_right h.types,
    and_iff_right h.fields, and_iff_right h.memberRefs, and_iff_right h.methodSpecs,
    and_iff_right h.typeSpecs, and_iff_right h.userStrings, and_iff_right few, Write.defined_list_iff,
    Write.defined_list_iff, Array.length_toList, and_iff_right methods, and_iff_right fewSymbols]
  simp only [defined_encodeSymbols_iff, forall_mem_symbols_iff]
  rw [← forall₂_and]
  exact forall₂_congr fun d member => bodies member

/-- The types of methods that tokens stand for can be written. -/
theorem mentioned_of_methodAt (h : m.Writable) {f : Method} (known : m.methodAt token = .ok f) :
    ∀ type ∈ f.mentioned, type.encode.Defined := by
  have row {α : Type} {table : Array α} {id : Table} {token : Token} {a : α}
      (found : row table id token = .ok a) : a ∈ table.toList :=
    Array.mem_toList_iff.mpr (mem_of_row found)
  have generic {token : Token} {f : Method} (known : m.genericMethodAt token = .ok f) :
      ∀ type ∈ f.mentioned, type.encode.Defined := by
    rcases genericMethodAt_eq_ok_iff.mp known with defined | ⟨r, found, rfl⟩
    · obtain ⟨d, owner, found, owned, rfl⟩ := definedMethod_eq_ok_iff.mp defined
      obtain ⟨-, -, -, -, -, types⟩ := MethodDef.defined_encode_iff.mp (h.methods.2 d (row found)).1
      obtain ⟨parameters, types⟩ := List.forall_mem_append.mp types
      refine Method.forall_mem_mentioned.mpr ⟨?_, parameters, (List.forall_mem_cons.mp types).1⟩
      exact TypeDef.defined_type ((Write.defined_list_iff.mp h.types).2 owner (row owned))
    · exact MemberRef.defined_method ((Write.defined_list_iff.mp h.memberRefs).2 r (row found))
  rcases methodAt_eq_ok_iff.mp known with known | ⟨spec, declared, found, stands, -, rfl⟩
  · exact generic known
  · obtain ⟨-, arguments⟩ := MethodSpec.defined_encode_iff.mp
      ((Write.defined_list_iff.mp h.methodSpecs).2 spec (row found))
    exact Method.defined_instantiate (generic stands) (by simp) arguments rfl rfl rfl

end Writable

/-- Tables that are read can be written. -/
theorem Tabled.writable (h : m.Tabled) : m.Writable := by
  have few : Edit.rowLimit < Write.numberLimit := by decide
  have methods := h.small
  have fields := h.fields.1
  refine ⟨h.named, ?_, ?_, ⟨by omega, fun d member => ⟨?_, fun b hasBody => ?_⟩⟩, ?_, ?_, ?_, ?_⟩
  · exact Write.defined_list_iff.mpr ⟨h.types.1, fun d member => (h.types.2 d member).1⟩
  · exact Write.defined_list_iff.mpr ⟨by rw [Array.length_toList]; omega,
      fun d member => (h.fields.2 d member).1⟩
  · exact (MethodDef.defined_encode_iff_withoutCode.mp (h.methods d member).1).1
  · obtain ⟨bytes, written, -⟩ := (h.points d member b hasBody).1
    exact (SequencePoints.defined_encode_iff.mp ⟨bytes, written⟩).1
  · exact Write.defined_list_iff.mpr ⟨h.memberRefs.1, fun r member => (h.memberRefs.2 r member).1⟩
  · exact Write.defined_list_iff.mpr ⟨h.methodSpecs.1,
      fun spec member => (h.methodSpecs.2 spec member).1⟩
  · exact Write.defined_list_iff.mpr ⟨h.typeSpecs.1, fun type member => (h.typeSpecs.2 type member).1⟩
  · exact Write.defined_list_iff.mpr h.userStrings

end Module

end Interpose
