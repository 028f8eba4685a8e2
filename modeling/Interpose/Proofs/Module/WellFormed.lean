import Interpose.Proofs.Module.Building
import Interpose.Proofs.Weaving.Pass

/-!
# Well-formed modules

What the code that uses a module relies on without asking again: owners, instantiated methods and
finished methods are there, sequence points are in order, and no type is nested too deep.  Reading
accepts nothing else, whatever the bytes are.

## Main definitions

* `SequencePoints.Placed` — sequence points in order, each with its end behind its start
* `Module.WellFormed` — what is relied on

## Main results

* `Module.WellFormed.exists_definedMethod` — every definition stands for a method
* `Module.WellFormed.exists_weavableMethods` — the methods that may be woven can be told
* `Module.wellFormed_of_decode` — modules that are read are well-formed
-/

namespace Interpose

/-- Sequence points in the order of their offsets that end where they start or behind it, and that are
hidden just if their line is that of code without source text. -/
structure SequencePoints.Placed (points : SequencePoints) : Prop where
  order : points.Pairwise (·.offset ≤ ·.offset)
  ends : ∀ p ∈ points, p.startLine ≤ p.endLine ∧ p.startColumn ≤ p.endColumn
  hidden : ∀ p ∈ points, p.isHidden = true ↔ p.startLine = hiddenLine

namespace SequencePoints

variable {points : SequencePoints} {p : SequencePoint}

/-- The end of a point that can be written is not in front of its start. -/
theorem ends_of_defined_encodeEnd (h : (encodeEnd p).Defined) :
    p.startLine ≤ p.endLine ∧ p.startColumn ≤ p.endColumn := by
  obtain ⟨bytes, written⟩ := h
  obtain ⟨before, -⟩ := guard_eq_ok_iff.mp written
  rw [not_or, UInt32.not_lt, UInt16.not_lt] at before
  exact before

/-- Points that can be written end behind their starts. -/
theorem ends_of_defined_encodeAfter {last : Option SequencePoint}
    (h : (encodeAfter last points).Defined) :
    ∀ p ∈ points, p.startLine ≤ p.endLine ∧ p.startColumn ≤ p.endColumn := by
  induction points generalizing last with
  | nil => simp
  | cons p rest ih =>
    obtain ⟨bytes, written⟩ := h
    rw [encodeAfter_cons] at written
    obtain ⟨start, -, written⟩ := bind_eq_ok_iff.mp written
    obtain ⟨finish, wroteEnd, written⟩ := bind_eq_ok_iff.mp written
    obtain ⟨others, wroteOthers, -⟩ := bind_eq_ok_iff.mp written
    exact List.forall_mem_cons.mpr
      ⟨ends_of_defined_encodeEnd ⟨finish, wroteEnd⟩, ih ⟨others, wroteOthers⟩⟩

theorem placed_of_fit (fit : points.Fit) (stored : points.map .stored = points) : points.Placed := by
  obtain ⟨bytes, written, -⟩ := fit
  obtain ⟨orderly, -⟩ := defined_encode_iff.mp ⟨bytes, written⟩
  refine ⟨orderly.order, ends_of_defined_encodeAfter ⟨bytes, written⟩, fun p member => ?_⟩
  have kept : p.stored = p :=
    List.map_inj_left.mp (stored.trans (List.map_id points).symm) p member
  rw [← congrArg SequencePoint.isHidden kept, SequencePoint.stored, decide_eq_true_iff]

end SequencePoints

namespace Module

/-- What is relied on by all that uses a module: what its tokens refer to is there, sequence points are
in order, and types are shallow. -/
structure WellFormed (m : Module) : Prop where
  fewMethods : m.methods.size ≤ Edit.rowLimit
  fieldOwners : ∀ d ∈ m.fields.toList, ∃ owner, m.typeDefAt d.owner = .ok owner
  methodOwners : ∀ d ∈ m.methods.toList, ∃ owner, m.typeDefAt d.owner = .ok owner
  specs : ∀ spec ∈ m.methodSpecs.toList, m.Names spec.method
  finished : ∀ token ∈ m.finished, ∃ d, m.methodDefAt token = .ok d
  points : ∀ d ∈ m.methods.toList, ∀ b ∈ d.body, b.points.Placed
  shallow : ∀ type ∈ m.mentioned, type.Shallow

variable {m : Module} {data : List UInt8}

namespace WellFormed

/-- Every definition of a method stands for a method. -/
theorem exists_definedMethod (h : m.WellFormed) {entry : Token × MethodDef}
    (member : entry ∈ m.methodsWithTokens) : ∃ method, m.definedMethod entry.1 = .ok method := by
  obtain ⟨token, d⟩ := entry
  have found := methodDefAt_of_mem h.fewMethods member
  obtain ⟨-, -, row⟩ := methodDefAt_eq_ok_iff.mp found
  obtain ⟨owner, owned⟩ := h.methodOwners d (Array.mem_toList_iff.mpr (Array.mem_of_getElem? row))
  exact ⟨_, bind_eq_ok_iff.mpr ⟨d, found, bind_eq_ok_iff.mpr ⟨owner, owned, rfl⟩⟩⟩

/-- The methods that may be woven can be told, whatever is left out. -/
theorem exists_weavableMethods (h : m.WellFormed) (o : WeavePolicy) :
    ∃ tokens, weavableMethods m o = .ok tokens := by
  refine ⟨_, weavableMethods_eq_ok_iff.mpr ⟨fun ⟨token, d⟩ member => ?_, rfl⟩⟩
  obtain ⟨-, -, row⟩ := methodDefAt_eq_ok_iff.mp (methodDefAt_of_mem h.fewMethods member)
  exact h.methodOwners d (Array.mem_toList_iff.mpr (Array.mem_of_getElem? row))

end WellFormed

theorem Loaded.wellFormed (h : m.Loaded) : m.WellFormed where
  fewMethods := h.small
  fieldOwners := h.fieldOwners
  methodOwners := h.methodOwners
  specs := fun spec member => checkMethodSpec_eq_ok_iff.mp (h.specs spec member)
  finished := h.finished
  points := fun d member b hasBody =>
    SequencePoints.placed_of_fit (h.points d member b hasBody).1 (h.points d member b hasBody).2
  shallow := h.readable.shallow

/-- Modules that are read are well-formed, whatever bytes they are read from; all their definitions stand
for methods, and the methods that may be woven can be told. -/
theorem wellFormed_of_decode (h : decode data = .ok m) : m.WellFormed ∧
    (∀ entry ∈ m.methodsWithTokens, ∃ method, m.definedMethod entry.1 = .ok method) ∧
    ∀ o : WeavePolicy, ∃ tokens, weavableMethods m o = .ok tokens := by
  have wellFormed := (loaded_of_decode h).wellFormed
  exact ⟨wellFormed, fun _ => wellFormed.exists_definedMethod, wellFormed.exists_weavableMethods⟩

/-- A container with a field, and a generic method that is instantiated, finished, and has sequence points
at one offset, of which the second is hidden. -/
def linkedContainer : List UInt8 :=
  containerMagic ++ [1, 0, 1, 0] ++ [1, 0x4D] ++ List.replicate 16 0 ++
    [1, 1, 0x54, 0, 0, 0, 0, 0, 0, 0] ++ [1, 1, 0, 0, 2, 1, 0x78, 8, 0] ++
    [1, 1, 0, 0, 2, 1, 0x66, 1, 0, 1, 0, 1, 1, 0, 0x06, 0x2A] ++ [0] ++
    [1, 1, 0, 0, 6, 1, 8] ++ [0, 0] ++ [1, 1, 0, 0, 6] ++
    [1, 1, 0, 0, 6, 13, 0, 7, 1, 0, 4, 0, 0xC1, 0xFD, 0xDF, 0xCE, 0, 0, 0]

theorem wellFormed_of_decode_linked : ∃ m, decode linkedContainer = .ok m ∧ m.fields.size = 1 ∧
    m.methodSpecs.size = 1 ∧ m.finished.length = 1 ∧
    (m.methodsWithTokens.any fun entry => entry.2.body.any fun b => b.points.any (·.isHidden)) ∧
    m.WellFormed ∧ (∀ entry ∈ m.methodsWithTokens, ∃ method, m.definedMethod entry.1 = .ok method) ∧
    ∀ o : WeavePolicy, ∃ tokens, weavableMethods m o = .ok tokens := by
  have loads : ((decode linkedContainer).toOption.any fun m => decide (m.fields.size = 1 ∧
      m.methodSpecs.size = 1 ∧ m.finished.length = 1 ∧ (m.methodsWithTokens.any fun entry =>
        entry.2.body.any fun b => b.points.any (·.isHidden)))) = true := by
    decide +kernel
  cases read : decode linkedContainer with
  | error e =>
    rw [read] at loads
    cases loads
  | ok m =>
    rw [read] at loads
    obtain ⟨fields, specs, finished, hidden⟩ := of_decide_eq_true loads
    exact ⟨m, rfl, fields, specs, finished, hidden, wellFormed_of_decode read⟩

end Module

end Interpose
