import Interpose.Proofs.Code.Offsets
import Interpose.Proofs.SequencePoints
import Interpose.Proofs.Weaving.Decodability

/-!
# Sequence points move with the code

Woven code has the instructions of the method in their order, so sequence points that are at
instructions stay in order when they move.

## Main definitions

* `Body.PointsStart` — all sequence points are where instructions start

## Main results

* `Weave.moved?_le` — woven code keeps the order of instructions
* `Weave.orderly` — the points of a woven body are orderly
-/

namespace Interpose

/-- All sequence points of a body are where instructions start. -/
def Body.PointsStart (b : Body) : Prop :=
  ∀ p ∈ b.points, ∀ instructions, decodeCode b.code = .ok instructions →
    ∃ i ∈ instructions, i.offset = p.offset.toNat

namespace Weave

variable {m : Module} {imports : Imports} {token : Token} {d : MethodDef} {body woven : Body}
  (w : Weave m imports token d body woven)

/-- The label of an instruction is behind the woven code of the instructions before it. -/
theorem label?_eq {index : Nat} {entry : Instruction × Option CallSite}
    (h : w.entries[index]? = some entry) :
    w.label? (instructionLabel entry.1.offset) = some (listingSize (prologue imports
        (hostOf token d body) (calledTokens (w.entries.filterMap Prod.snd))) +
          listingSize (w.parts.take index).flatten) ∧
      listingSize (prologue imports (hostOf token d body)
        (calledTokens (w.entries.filterMap Prod.snd))) +
          listingSize (w.parts.take index).flatten < 0x100000000 := by
  obtain ⟨inside, rfl⟩ := List.getElem?_eq_some_iff.mp h
  have split :
      w.entries = w.entries.take index ++ w.entries[index] :: w.entries.drop (index + 1) := by
    rw [List.getElem_cons_drop, List.take_append_drop]
  obtain ⟨front, part, back, parts, before, here, -⟩ := w.exists_part split
  obtain ⟨code, rfl, -⟩ := here.exists_code
  have front_eq : w.parts.take index = front := by
    rw [parts]
    have length := before.length_eq
    rw [List.length_take, Nat.min_eq_left (Nat.le_of_lt inside)] at length
    exact List.take_left' length.symm
  -- The label is the first item of its part, so it marks the end of the parts before.
  have encodes := w.encodes
  rw [Weave.items, parts] at encodes
  simp only [List.flatten_append, List.flatten_cons, List.cons_append, ← List.append_assoc] at encodes
  have placed := encodes.label_eq
  rw [Nat.zero_add, listingSize_append, ← front_eq] at placed
  exact placed

/-- Where the code of an instruction has gone. -/
theorem moved?_eq {index : Nat} {entry : Instruction × Option CallSite} {offset : UInt32}
    (h : w.entries[index]? = some entry) (here : entry.1.offset = offset.toNat) :
    ((w.moved? offset).getD offset).toNat = listingSize (prologue imports (hostOf token d body)
        (calledTokens (w.entries.filterMap Prod.snd))) +
      listingSize (w.parts.take index).flatten := by
  obtain ⟨known, small⟩ := w.label?_eq h
  rw [moved?, ← here, known, Option.map_some, Option.getD_some, UInt32.toNat_ofNat',
    Nat.mod_eq_of_lt small]

/-- Woven code keeps the order of instructions. -/
theorem moved?_le {first second : UInt32} {i j : Instruction}
    (inside : i ∈ w.entries.map Prod.fst) (inside' : j ∈ w.entries.map Prod.fst)
    (here : i.offset = first.toNat) (there : j.offset = second.toNat) (order : first ≤ second) :
    (w.moved? first).getD first ≤ (w.moved? second).getD second := by
  obtain ⟨a, boundA, rfl⟩ := List.mem_iff_getElem.mp inside
  obtain ⟨b, boundB, rfl⟩ := List.mem_iff_getElem.mp inside'
  have increasing := List.pairwise_iff_getElem.mp (pairwise_offset_of_decodeCode w.decoded)
  rw [UInt32.le_iff_toNat_le] at order ⊢
  -- Instructions of a method differ in their offsets, so the order of offsets is that of entries.
  have before : a ≤ b := by
    by_contra behind
    have := increasing b a boundB boundA (Nat.not_le.mp behind)
    omega
  rw [List.getElem_map] at here there
  rw [List.length_map] at boundA boundB
  rw [w.moved?_eq (List.getElem?_eq_getElem boundA) here,
    w.moved?_eq (List.getElem?_eq_getElem boundB) there]
  obtain ⟨between, same⟩ := List.take_prefix_take_left before (l := w.parts)
  rw [← same, List.flatten_append, listingSize_append]
  omega

/-- The points of a woven body are orderly if those of the body are and are where instructions
start. -/
theorem orderly (starts : body.PointsStart) (h : body.points.Orderly) :
    (body.points.relocate w.moved?).Orderly := by
  refine h.relocate fun p first q second order => ?_
  obtain ⟨i, inside, here⟩ := starts p first _ w.decoded
  obtain ⟨j, inside', there⟩ := starts q second _ w.decoded
  exact w.moved?_le inside inside' here there order

end Weave

end Interpose
