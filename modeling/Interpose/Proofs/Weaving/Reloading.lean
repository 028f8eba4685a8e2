import Interpose.Proofs.Module.Building
import Interpose.Proofs.Weaving.Repetition
import Interpose.Proofs.Weaving.Writability

/-!
# Woven modules are saved and loaded

A pass keeps all that reading asks for, except for one thing: the types of the values of a call have
the type arguments of the call in them, so they may be nested deeper than any type of the module was.
Such types are written, but not read back.

## Main results

* `Module.Loaded.readable_weavePass` — what a pass leaves of a module that was read can be read, if no
  type is nested too deep
* `Module.reloads_weavePass_iff` — when a woven module can be saved and loaded
-/

namespace Interpose

namespace Module

variable {m m' : Module} {o : WeavePolicy} {summary : PassSummary} {data : List UInt8} {token : Token}

/-- Methods that are there stay when a module grows. -/
theorem Grows.exists_methodDefAt (h : m.Grows m') (known : ∃ d, m.methodDefAt token = .ok d) :
    ∃ d, m'.methodDefAt token = .ok d := by
  have headers (m : Module) : (∃ d, m.methodDefAt token = .ok d) ↔
      ∃ d, row (m.methods.map MethodDef.header) .methodDef token = .ok d :=
    (exists_row_map MethodDef.header).symm
  rw [headers, h.headers, ← headers]
  exact known

/-- A pass finishes nothing but methods that are there. -/
theorem exists_methodDefAt_of_weavePass (small : m.methods.size ≤ Edit.rowLimit)
    (known : ∀ token ∈ m.finished, ∃ d, m.methodDefAt token = .ok d)
    (wove : Yields (weavePass o) m summary m') :
    ∀ token ∈ m'.finished, ∃ d, m'.methodDefAt token = .ok d := by
  obtain ⟨grows, methods, weavable, -⟩ := rewoven_of_weavePass small wove
  intro token member
  refine grows.exists_methodDefAt ?_
  rcases (mem_finished_of_weavePass small wove weavable).mp member with chosen | before
  · obtain ⟨⟨_, d⟩, listed, rfl⟩ :=
      List.mem_map.mp ((sublist_of_weavableMethods weavable).subset chosen)
    exact ⟨d, methodDefAt_of_mem small listed⟩
  · exact known token before

/-- What a pass leaves of a module that was read can be read, if no type is nested too deep. -/
theorem Loaded.readable_weavePass (h : m.Loaded) (wove : Yields (weavePass o) m summary m')
    (shallow : ∀ type ∈ m'.mentioned, type.Shallow) : m'.Readable := by
  obtain ⟨grows, -⟩ := rewoven_of_weavePass h.small wove
  -- Methods got other bodies only, so each of them has the owner that it had before.
  have owners (d : MethodDef) (member : d ∈ m'.methods.toList) :
      ∃ before ∈ m.methods.toList, before.owner = d.owner := by
    have inside : d.header ∈ m'.methods.map MethodDef.header :=
      Array.mem_map_of_mem (Array.mem_toList_iff.mp member)
    rw [grows.headers] at inside
    obtain ⟨before, known, same⟩ := Array.mem_map.mp inside
    have owner : before.header.owner = d.header.owner := congrArg MethodDef.owner same
    exact ⟨before, Array.mem_toList_iff.mpr known, owner⟩
  have names (token : Token) (known : m.Names token) : m'.Names token :=
    known.imp grows.exists_methodDefAt fun ⟨r, found⟩ => ⟨r, grows.memberRefAt found⟩
  exact {
    shallow
    fieldOwners := by
      rw [grows.fields]
      simpa only [grows.typeDefAt] using h.fieldOwners
    fewFields := by
      rw [grows.fields]
      exact h.fields.1
    methodOwners := fun d member => by
      obtain ⟨before, known, same⟩ := owners d member
      rw [grows.typeDefAt, ← same]
      exact h.methodOwners before known
    fewMethods := (h.toSound.weavePass wove).small
    specs := by
      rw [grows.methodSpecs]
      intro spec member
      exact checkMethodSpec_eq_ok_iff.mpr
        (names _ (checkMethodSpec_eq_ok_iff.mp (h.specs spec member)))
    finished := exists_methodDefAt_of_weavePass h.small h.toTabled.finished wove }

/-- When a woven module can be saved and loaded: all types that it mentions, the ones with type
arguments in them among them, are nested no deeper than types are read, and no body has outgrown
what numbers can tell. -/
theorem reloads_weavePass_iff (h : decode data = .ok m)
    (starts : ∀ d ∈ m.methods.toList, ∀ b ∈ d.body, b.PointsStart)
    (wove : Yields (weavePass o) m summary m') :
    (∃ out m'', m'.encode = .ok out ∧ decode out = .ok m'') ↔
      (∀ type ∈ m'.mentioned, type.Shallow) ∧
        ∀ d ∈ m'.methods.toList, ∀ b ∈ d.body, b.Countable := by
  have loaded := loaded_of_decode h
  have sound := loaded.toSound.weavePass wove
  have writable := loaded.toTabled.writable.weavePass loaded.small starts wove
  -- Finished methods are there and in order, so they are no more than the methods.
  have few : m'.finished.length < Write.numberLimit := by
    have known := exists_methodDefAt_of_weavePass loaded.small loaded.toTabled.finished wove
    have methods := writable.methods.1
    have := length_le_of_ordered sound.ordered known
    omega
  constructor
  · rintro ⟨out, m'', written, read⟩
    exact ⟨((decode_iff_of_encode sound.identified written).mp read).1.shallow,
      (writable.defined_encode_iff few).mp ⟨out, written⟩⟩
  · rintro ⟨shallow, countable⟩
    obtain ⟨out, written⟩ := (writable.defined_encode_iff few).mpr countable
    exact ⟨out, m'.reloaded, written, (decode_iff_of_encode sound.identified written).mpr
      ⟨loaded.readable_weavePass wove shallow, rfl⟩⟩

/-- A module with one method, which calls a method of a generic type.  The type argument of the call
and the type of its parameter are nested to the given depth, and the argument stands inside the
parameter. -/
def nestedCallModule (depth : Nat) : Module where
  name := "Demo"
  types := #[.ofClass "Demo.A"]
  methods := #[
    { owner := .ofRow .typeDef 1, name := "main", flags := .isStatic,
      body := some {
        code := [0x14, 0x28, 0x01, 0x00, 0x00, 0x0A, 0x2A]
        points := [⟨0, 1, 1, 1, 9, false⟩, ⟨1, 2, 1, 2, 9, false⟩, ⟨6, 3, 1, 3, 9, false⟩] } }]
  memberRefs := #[
    { parent := .inst (.classType "Demo.P") [Ty.array^[depth] .int32], name := "g",
      signature := { hasThis := false, parameters := [Ty.array^[depth] (.typeParameter 0)] } }]

/-- What a pass makes of the module. -/
def wovenNestedCall (depth : Nat) : Module := ((weavePass {}).run.run (nestedCallModule depth)).2

/-- The sequence points of the module are where instructions start. -/
theorem pointsStart_nestedCall (depth : Nat) :
    ∀ d ∈ (nestedCallModule depth).methods.toList, ∀ b ∈ d.body, b.PointsStart := by
  have decodes : decodeCode [0x14, 0x28, 0x01, 0x00, 0x00, 0x0A, 0x2A] = .ok
      [⟨0, .ldnull, .none⟩, ⟨1, .call, .token ⟨0x0A000001⟩⟩, ⟨6, .ret, .none⟩] := by decide +kernel
  intro d member b hasBody p inside instructions decoded
  obtain rfl := List.mem_singleton.mp member
  obtain rfl := Option.some.inj hasBody
  obtain rfl := Except.ok.inj (decodes.symm.trans decoded)
  simp only [List.mem_cons, List.not_mem_nil, or_false] at inside
  rcases inside with rfl | rfl | rfl <;> simp

/-- A call whose types are nested little can be saved and loaded when it is woven. -/
theorem reloads_weavePass_iff_nestedCall : ∃ data summary,
    decode data = .ok (nestedCallModule 3) ∧
    Yields (weavePass {}) (nestedCallModule 3) summary (wovenNestedCall 3) ∧
    ∃ out m'', (wovenNestedCall 3).encode = .ok out ∧ decode out = .ok m'' := by
  obtain ⟨stored, woven, shallow, countable⟩ :
      ((nestedCallModule 3).encode.toOption.bind fun bytes => (decode bytes).toOption) =
        some (nestedCallModule 3) ∧
      ((weavePass {}).run.run (nestedCallModule 3)).1 =
        .ok { visited := 1, woven := 1, skipped := 0, sites := 1 } ∧
      (∀ type ∈ (wovenNestedCall 3).mentioned, type.Shallow) ∧
      ∀ d ∈ (wovenNestedCall 3).methods.toList, ∀ b ∈ d.body, b.Countable := by decide +kernel
  obtain ⟨data, -, read⟩ := Option.bind_eq_some_iff.mp stored
  rw [toOption_eq_some_iff] at read
  have wove : Yields (weavePass {}) (nestedCallModule 3) _ (wovenNestedCall 3) := Prod.ext woven rfl
  exact ⟨data, _, read, wove,
    (reloads_weavePass_iff read (pointsStart_nestedCall 3) wove).mpr ⟨shallow, countable⟩⟩

/-- Weaving can leave a module that is saved but not loaded any more, although the module was loaded
and all its sequence points are where instructions start. -/
theorem not_forall_reloads_weavePass : ¬ ∀ data m o summary m', decode data = .ok m →
    (∀ d ∈ m.methods.toList, ∀ b ∈ d.body, b.PointsStart) → Yields (weavePass o) m summary m' →
      ∃ out m'', m'.encode = .ok out ∧ decode out = .ok m'' := by
  intro claim
  -- A parameter nested 20 deep with an argument nested 20 deep is nested 40 deep.
  obtain ⟨stored, woven, refused⟩ :
      ((nestedCallModule 20).encode.toOption.bind fun bytes => (decode bytes).toOption) =
        some (nestedCallModule 20) ∧
      ((weavePass {}).run.run (nestedCallModule 20)).1 =
        .ok { visited := 1, woven := 1, skipped := 0, sites := 1 } ∧
      ((wovenNestedCall 20).encode.toOption.bind fun bytes => (decode bytes).toOption) = none := by
    decide +kernel
  obtain ⟨data, -, read⟩ := Option.bind_eq_some_iff.mp stored
  rw [toOption_eq_some_iff] at read
  obtain ⟨out, m'', written, reads⟩ := claim data _ {} _ (wovenNestedCall 20) read
    (pointsStart_nestedCall 20) (Prod.ext woven rfl)
  rw [written, Except.toOption, Option.bind_some, reads] at refused
  cases refused

end Module

end Interpose
