import Interpose.Proofs.Weaving.Stream

/-!
# The source lines of woven code

The code of each instruction of a method, with its scaffold, is covered by the sequence point that
covered the instruction, and the prologue is covered by none.

## Main definitions

* `SequencePoint.relocate` — a point after code has moved

## Main results

* `SequencePoints.around?_relocate` — which offsets moved points cover
* `Body.PointsStart.around?_eq` — an instruction is covered where it starts
* `Weave.around?_code`, `Weave.around?_opening` — the points of woven code
* `around?_of_interceptCalls` — the points of a method whose calls are intercepted
-/

namespace Interpose

/-- A point after code has moved. -/
def SequencePoint.relocate (p : SequencePoint) (moved : UInt32 → Option UInt32) : SequencePoint :=
  { p with offset := (moved p.offset).getD p.offset }

namespace SequencePoints

variable {points : SequencePoints} {moved : UInt32 → Option UInt32}

/-- Moving code changes nothing of points but their offsets. -/
theorem withoutOffset_relocate : (points.relocate moved).map SequencePoint.withoutOffset =
    points.map SequencePoint.withoutOffset := by
  rw [SequencePoints.relocate, List.map_map]
  rfl

/-- Moved points cover an offset like the points did another one if the same points are before
it. -/
theorem around?_relocate {old new : UInt32}
    (h : ∀ p ∈ points, (moved p.offset).getD p.offset ≤ new ↔ p.offset ≤ old) :
    (points.relocate moved).around? new =
      (points.around? old).map fun p => p.relocate moved := by
  have same : points.takeWhile (fun p => decide ((p.relocate moved).offset ≤ new)) =
      points.takeWhile fun p => decide (p.offset ≤ old) := by
    induction points with
    | nil => rfl
    | cons p rest ih =>
      obtain ⟨here, others⟩ := List.forall_mem_cons.mp h
      have first : decide ((p.relocate moved).offset ≤ new) = decide (p.offset ≤ old) :=
        decide_eq_decide.mpr here
      rw [List.takeWhile_cons, List.takeWhile_cons, first, ih others]
  have mapped : points.relocate moved = points.map fun p => p.relocate moved := rfl
  rw [around?, around?, mapped, List.takeWhile_map, List.getLast?_map]
  exact congrArg (Option.map _ ·.getLast?) same

/-- Only the points before an offset tell which of them covers it. -/
theorem around?_congr {first second : UInt32}
    (h : ∀ p ∈ points, p.offset ≤ first ↔ p.offset ≤ second) :
    points.around? first = points.around? second := by
  have stays : points.relocate (fun _ => none) = points := List.map_id points
  have covered : (points.relocate fun _ => none).around? first = _ := around?_relocate h
  rw [stays] at covered
  exact covered.trans (Option.map_id_apply ..)

/-- An offset before all points is covered by none. -/
theorem around?_eq_none {offset : UInt32} (h : ∀ p ∈ points, offset < p.offset) :
    points.around? offset = none := by
  cases points with
  | nil => rfl
  | cons p rest =>
    have behind := h p (List.mem_cons_self ..)
    rw [around?, List.takeWhile_cons_of_neg (by simpa using behind), List.getLast?_nil]

end SequencePoints

/-- All offsets from the start of an instruction to that of the next one are covered like the
instruction. -/
theorem Body.PointsStart.around?_eq {body : Body} (starts : body.PointsStart)
    {instructions : List Instruction} (decoded : decodeCode body.code = .ok instructions)
    {start offset : UInt32} (above : start ≤ offset)
    (within : ∀ i ∈ instructions, i.offset ≤ offset.toNat → i.offset ≤ start.toNat) :
    body.points.around? offset = body.points.around? start := by
  refine SequencePoints.around?_congr fun p member => ?_
  obtain ⟨i, inside, here⟩ := starts p member _ decoded
  rw [UInt32.le_iff_toNat_le] at above ⊢
  rw [UInt32.le_iff_toNat_le, ← here]
  exact ⟨within i inside, fun before => Nat.le_trans before above⟩

namespace Weave

variable {m : Module} {imports : Imports} {token : Token} {d : MethodDef} {body woven : Body}
  (w : Weave m imports token d body woven)

/-- A point at an instruction is moved to the code of the instruction. -/
theorem exists_moved?_eq (starts : body.PointsStart) {p : SequencePoint} (member : p ∈ body.points) :
    ∃ index entry, w.entries[index]? = some entry ∧ entry.1.offset = p.offset.toNat ∧
      ((w.moved? p.offset).getD p.offset).toNat = w.codeOffset index := by
  obtain ⟨i, inside, here⟩ := starts p member _ w.decoded
  obtain ⟨entry, found, rfl⟩ := List.mem_map.mp inside
  obtain ⟨index, at'⟩ := List.mem_iff_getElem?.mp found
  exact ⟨index, entry, at', here, w.moved?_eq at' here⟩

/-- The prologue is covered by no point. -/
theorem around?_opening (starts : body.PointsStart) {offset : UInt32}
    (within : offset.toNat < w.codeOffset 0) :
    (body.points.relocate w.moved?).around? offset = none := by
  refine SequencePoints.around?_eq_none fun q member => ?_
  obtain ⟨p, inside, rfl⟩ := List.mem_map.mp member
  obtain ⟨index, entry, found, -, there⟩ := w.exists_moved?_eq starts inside
  rw [UInt32.lt_iff_toNat_lt]
  show offset.toNat < ((w.moved? p.offset).getD p.offset).toNat
  rw [there]
  rcases Nat.eq_zero_or_pos index with rfl | positive
  · exact within
  · have some : 0 < w.entries.length :=
      Nat.zero_lt_of_lt (List.getElem?_eq_some_iff.mp found).1
    exact Nat.lt_trans within (w.codeOffset_lt positive some)

/-- The code of an instruction is covered by the moved point that covered the instruction. -/
theorem around?_code (starts : body.PointsStart) {index : Nat}
    {entry : Instruction × Option CallSite} (found : w.entries[index]? = some entry)
    {old offset : UInt32} (here : entry.1.offset = old.toNat)
    (above : w.codeOffset index ≤ offset.toNat) (below : offset.toNat < w.codeOffset (index + 1)) :
    (body.points.relocate w.moved?).around? offset =
      (body.points.around? old).map fun p => p.relocate w.moved? := by
  refine SequencePoints.around?_relocate fun p member => ?_
  obtain ⟨index', entry', found', here', there⟩ := w.exists_moved?_eq starts member
  rw [UInt32.le_iff_toNat_le, UInt32.le_iff_toNat_le, there, ← here, ← here']
  -- Both sides say that the instruction of the point is not behind the one whose code it is.
  rcases Nat.lt_or_ge index index' with behind | before
  · have later : w.codeOffset (index + 1) ≤ w.codeOffset index' := w.codeOffset_le behind
    have := w.offset_lt_offset found found' behind
    omega
  · have earlier := w.codeOffset_le before
    have : entry'.1.offset ≤ entry.1.offset := by
      rcases Nat.lt_or_eq_of_le before with less | rfl
      · exact Nat.le_of_lt (w.offset_lt_offset found' found less)
      · rw [found, Option.some.injEq] at found'
        rw [found']
    omega

end Weave

/-- The sequence points of a method whose calls are intercepted, if they are where instructions start.
A method without calls to intercept stays as it is.  Otherwise number, order and places of the points
stay; the prologue is covered by none of them; and the code of each instruction is covered by the
point that covered the instruction, which is moved to the code of its own instruction. -/
theorem around?_of_interceptCalls {m m' : Module} {o : WeavePolicy} {known : Option Imports}
    {token : Token} {d : MethodDef} {body : Body} {count : Nat}
    (found : m.methodDefAt token = .ok d) (hasBody : d.body = some body)
    (starts : body.PointsStart) (h : Yields (interceptCalls o known token) m count m') :
    (count = 0 ∧ m' = m ∧ ∀ instructions, decodeCode body.code = .ok instructions →
      ∀ start offset : UInt32, start ≤ offset →
        (∀ i ∈ instructions, i.offset ≤ offset.toNat → i.offset ≤ start.toNat) →
        body.points.around? offset = body.points.around? start) ∨
    0 < count ∧ ∃ imports m₁ woven, ∃ w : Weave m₁ imports token d body woven,
      m'.methodDefAt token = .ok { d with body := some woven } ∧
      woven.points.map SequencePoint.withoutOffset = body.points.map SequencePoint.withoutOffset ∧
      (∀ offset : UInt32, offset.toNat < w.codeOffset 0 → woven.points.around? offset = none) ∧
      ∀ index entry, w.entries[index]? = some entry →
        (∀ p ∈ body.points, p.offset.toNat = entry.1.offset →
          (p.relocate w.moved?).offset.toNat = w.codeOffset index) ∧
        ∀ old offset : UInt32, old.toNat = entry.1.offset →
          w.codeOffset index ≤ offset.toNat → offset.toNat < w.codeOffset (index + 1) →
          woven.points.around? offset =
            (body.points.around? old).map fun p => p.relocate w.moved? := by
  rcases exists_weave_of_interceptCalls found hasBody h with ⟨none, same⟩ | ⟨some, imports, m₁,
    woven, -, found', w, -, -, points, -⟩
  · exact .inl ⟨none, same, fun instructions decoded start offset above within =>
      starts.around?_eq decoded above within⟩
  · refine .inr ⟨some, imports, m₁, woven, w, found', ?_, fun offset within => ?_,
      fun index entry here => ⟨fun p _ at' => w.moved?_eq here at'.symm,
        fun old offset at' above below => ?_⟩⟩
    · rw [points]
      exact SequencePoints.withoutOffset_relocate
    · rw [points]
      exact w.around?_opening starts within
    · rw [points]
      exact w.around?_code starts here at'.symm above below

/-- In the example the points of both calls move, and the prologue has none. -/
theorem around?_of_interceptCalls_twoCalls : ∃ known m m' body,
    Yields (interceptCalls {} known (.ofRow .methodDef 1)) m 2 m' ∧
    twoCallsModule.methods[0].body = some body ∧ body.points.length = 2 ∧ body.PointsStart ∧
    ∃ imports m₁ woven,
      ∃ w : Weave m₁ imports (.ofRow .methodDef 1) twoCallsModule.methods[0] body woven,
      m'.methodDefAt (.ofRow .methodDef 1) =
        .ok { twoCallsModule.methods[0] with body := some woven } ∧
      ∀ index entry, w.entries[index]? = some entry → ∀ old offset : UInt32,
        old.toNat = entry.1.offset → w.codeOffset index ≤ offset.toNat →
        offset.toNat < w.codeOffset (index + 1) → woven.points.around? offset =
          (body.points.around? old).map fun p => p.relocate w.moved? := by
  obtain ⟨_, m, m', -, found, intercepted⟩ := exists_intercept_twoCalls
  -- Each point of the example is where an instruction starts.
  have starts : ∀ body ∈ twoCallsModule.methods[0].body, body.PointsStart := by
    rintro body hasBody p member instructions decoded
    obtain rfl := Option.some.inj hasBody
    have read : decodeCode [0x28, 0x02, 0x00, 0x00, 0x06, 0x2B, 0x00, 0x28, 0x02, 0x00, 0x00, 0x06,
      0x2A] = .ok _ := rfl
    obtain rfl := Except.ok.inj (read.symm.trans decoded)
    revert p
    decide
  rcases around?_of_interceptCalls found rfl (starts _ rfl) intercepted with ⟨none, -⟩ |
    ⟨-, imports, m₁, woven, w, found', -, -, covered⟩
  · cases none
  · exact ⟨_, m, m', _, intercepted, rfl, rfl, starts _ rfl, imports, m₁, woven, w, found',
      fun index entry here => (covered index entry here).2⟩

end Interpose
