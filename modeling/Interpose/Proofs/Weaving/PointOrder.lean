import Interpose.Proofs.Code.Reassembly
import Interpose.Proofs.Weaving.Labels
import Interpose.Proofs.Weaving.Points

/-!
# The order of the points of woven code

A sequence point where an instruction starts moves with the instruction, never backwards; a point
inside of an instruction, or behind the code, keeps its offset.  The moved points can be written just
if none that has moved has passed one that has not.

## Main definitions

* `Body.Starts` — an instruction starts at an offset

## Main results

* `Weave.offset_le_codeOffset` — the code of an instruction is not before the instruction
* `SequencePoints.Near.relocate` — moved points stay near
* `Weave.defined_encode_iff` — when the points of woven code can be written
* `defined_points_of_interceptCalls` — the points of a method whose calls are intercepted
-/

namespace Interpose

/-- An instruction of a body starts at an offset. -/
def Body.Starts (b : Body) (offset : UInt32) : Prop :=
  ∃ instructions, decodeCode b.code = .ok instructions ∧ ∃ i ∈ instructions, i.offset = offset.toNat

section Tiles

variable {lower upper index : Nat} {instructions : List Instruction} {i j : Instruction}

/-- The first instruction lies at the lower end. -/
theorem Tiles.offset_zero (h : Tiles lower instructions upper) (first : instructions[0]? = some i) :
    i.offset = lower := by
  cases instructions with
  | nil => cases first
  | cons head rest =>
    obtain rfl := Option.some.inj first
    exact h.1

/-- Each instruction lies right behind the one before it. -/
theorem Tiles.offset_succ (h : Tiles lower instructions upper)
    (here : instructions[index]? = some i) (there : instructions[index + 1]? = some j) :
    j.offset = i.next := by
  induction instructions generalizing lower index with
  | nil => cases here
  | cons head rest ih =>
    rw [List.getElem?_cons_succ] at there
    cases index with
    | zero =>
      obtain rfl := Option.some.inj here
      exact h.2.offset_zero there
    | succ index => exact ih h.2 here there

end Tiles

/-- An instruction does not become shorter. -/
theorem size_le_of_keptItem {i : Instruction} {item : ListingItem} (h : keptItem i = .ok item) :
    i.size ≤ item.size := by
  rcases keptItem_eq_ok_iff.mp h with ⟨branches, target, -, rfl⟩ | ⟨-, rfl⟩
  · -- A long branch has no more bytes in its code than the short one.
    have longer : ∀ op : Opcode, op.isBranch = true →
        op.size + op.operandKind.size ≤ op.widened.size + op.widened.operandKind.size := by
      intro op
      cases op <;> decide
    exact longer i.op branches
  · exact Nat.le_refl _

/-- The code of an instruction is not shorter than the instruction. -/
theorem WovenPart.size_le {m : Module} {imports : Imports} {host : Host} {base limit : Nat}
    {entry : Instruction × Option CallSite} {part : List ListingItem}
    (h : WovenPart m imports host base limit entry part)
    (sites : ∀ site, entry.2 = some site → site.IsAt m entry.1) :
    entry.1.size ≤ listingSize part := by
  cases h with
  | kept kept =>
    have := size_le_of_keptItem kept
    simpa
  | @site i site layout first above below reserved named =>
    have original : (ListingItem.decoded layout.site.instruction).size = i.size := by
      rw [reserved.site_eq, (sites site rfl).instruction_eq]
      rfl
    simp only [SiteLayout.listing, listingSize_append, listingSize_cons, original]
    omega

namespace SequencePoints

variable {points : SequencePoints} {moved : UInt32 → Option UInt32}

/-- Distances that can be written can still be written when points are moved ahead, together with what
is in front of them. -/
private theorem isChain_relocate {low low' : Nat} (less : low ≤ low')
    (h : (low :: points.map (·.offset.toNat)).IsChain fun low high =>
      high - low < Write.numberLimit)
    (ahead : ∀ p ∈ points, p.offset.toNat ≤ (p.relocate moved).offset.toNat)
    (bounded : ∀ p ∈ points, p.relocate moved = p ∨
      (p.relocate moved).offset.toNat < Write.numberLimit) :
    (low' :: (points.relocate moved).map (·.offset.toNat)).IsChain fun low high =>
      high - low < Write.numberLimit := by
  induction points generalizing low low' with
  | nil => exact .singleton _
  | cons p rest ih =>
    obtain ⟨here, others⟩ := List.forall_mem_cons.mp ahead
    obtain ⟨fits, fit⟩ := List.forall_mem_cons.mp bounded
    obtain ⟨close, later⟩ := List.isChain_cons_cons.mp h
    have close : p.offset.toNat - low < Write.numberLimit := close
    refine List.isChain_cons_cons.mpr ⟨?_, ih here later others fit⟩
    show (p.relocate moved).offset.toNat - low' < Write.numberLimit
    -- A point that stays is not further from what is in front of it; any other has a small offset.
    rcases fits with stays | small
    · rw [stays]
      omega
    · omega

/-- Moved points stay near if none is moved backwards, and none is moved further than a number can
say. -/
theorem Near.relocate (h : points.Near)
    (ahead : ∀ p ∈ points, p.offset.toNat ≤ (p.relocate moved).offset.toNat)
    (bounded : ∀ p ∈ points, p.relocate moved = p ∨
      (p.relocate moved).offset.toNat < Write.numberLimit) :
    (points.relocate moved).Near :=
  isChain_relocate (Nat.le_refl 0) h ahead bounded

end SequencePoints

namespace Weave

variable {m : Module} {imports : Imports} {token : Token} {d : MethodDef} {body woven : Body}
  (w : Weave m imports token d body woven)

/-- The code of an instruction is not before the instruction. -/
theorem offset_le_codeOffset {index : Nat} {entry : Instruction × Option CallSite}
    (found : w.entries[index]? = some entry) : entry.1.offset ≤ w.codeOffset index := by
  have tiles := (spelledFrom_of_decodeCode w.decoded).tiles
  have inside {index : Nat} {entry : Instruction × Option CallSite}
      (found : w.entries[index]? = some entry) :
      (w.entries.map Prod.fst)[index]? = some entry.1 := by
    rw [List.getElem?_map, found]
    rfl
  induction index generalizing entry with
  | zero =>
    rw [tiles.offset_zero (inside found)]
    exact Nat.zero_le _
  | succ index ih =>
    obtain ⟨bound, -⟩ := List.getElem?_eq_some_iff.mp found
    have before : w.entries[index]? = some w.entries[index] := List.getElem?_eq_getElem (by omega)
    obtain ⟨part, here, woven'⟩ := w.exists_getElem?_parts before
    have longer := woven'.size_le fun site same =>
      w.sites _ site (same ▸ List.mem_of_getElem? before)
    rw [tiles.offset_succ (inside before) (inside found), Instruction.next, w.codeOffset_succ here]
    exact Nat.add_le_add (ih before) longer

/-- The code of an instruction starts in the woven code. -/
theorem codeOffset_lt_length {index : Nat} (inside : index < w.entries.length) :
    w.codeOffset index < woven.code.length := by
  have last : w.codeOffset w.entries.length = woven.code.length := by
    rw [w.encodes.length_eq, Weave.items, listingSize_append, codeOffset, ← w.length_parts,
      List.take_length]
    rfl
  rw [← last]
  exact w.codeOffset_lt inside inside

/-- An instruction starts where one of the instructions of the method does. -/
theorem starts_iff {offset : UInt32} : body.Starts offset ↔
    ∃ (index : Nat) (entry : Instruction × Option CallSite),
      w.entries[index]? = some entry ∧ entry.1.offset = offset.toNat := by
  constructor
  · rintro ⟨instructions, decoded, i, member, here⟩
    obtain rfl := Except.ok.inj (w.decoded.symm.trans decoded)
    obtain ⟨entry, inside, rfl⟩ := List.mem_map.mp member
    obtain ⟨index, found⟩ := List.mem_iff_getElem?.mp inside
    exact ⟨index, entry, found, here⟩
  · rintro ⟨index, entry, found, here⟩
    exact ⟨_, w.decoded, entry.1, List.mem_map.mpr ⟨entry, List.mem_of_getElem? found, rfl⟩, here⟩

/-- A point where no instruction starts is not moved. -/
theorem relocate_eq_self {p : SequencePoint} (h : ¬ body.Starts p.offset) :
    p.relocate w.moved? = p := by
  have none : w.moved? p.offset = .none := by
    apply w.moved?_eq_none
    intro entry inside here
    obtain ⟨index, found⟩ := List.mem_iff_getElem?.mp inside
    exact h (w.starts_iff.mpr ⟨index, entry, found, here⟩)
  rw [SequencePoint.relocate, none]
  rfl

/-- No point is moved backwards, and those that are moved stay in the woven code. -/
theorem relocate_cases (p : SequencePoint) :
    p.offset.toNat ≤ (p.relocate w.moved?).offset.toNat ∧
      (p.relocate w.moved? = p ∨ (p.relocate w.moved?).offset.toNat < woven.code.length) := by
  by_cases starts : body.Starts p.offset
  · obtain ⟨index, entry, found, here⟩ := w.starts_iff.mp starts
    have there : (p.relocate w.moved?).offset.toNat = w.codeOffset index := w.moved?_eq found here
    rw [there, ← here]
    exact ⟨w.offset_le_codeOffset found,
      .inr (w.codeOffset_lt_length (List.getElem?_eq_some_iff.mp found).1)⟩
  · rw [w.relocate_eq_self starts]
    exact ⟨Nat.le_refl _, .inl rfl⟩

/-- Two points change places only if the first is moved and the second is not. -/
theorem relocate_le_iff {p q : SequencePoint} (order : p.offset ≤ q.offset) :
    (p.relocate w.moved?).offset ≤ (q.relocate w.moved?).offset ↔
      (body.Starts p.offset → ¬ body.Starts q.offset →
        (p.relocate w.moved?).offset ≤ q.offset) := by
  by_cases first : body.Starts p.offset
  · by_cases second : body.Starts q.offset
    · refine iff_of_true ?_ fun _ stays => absurd second stays
      -- Both are moved with their instructions.
      obtain ⟨instructions, decoded, i, inside, here⟩ := first
      obtain ⟨instructions', decoded', j, inside', there⟩ := second
      obtain rfl := Except.ok.inj (w.decoded.symm.trans decoded)
      obtain rfl := Except.ok.inj (w.decoded.symm.trans decoded')
      exact w.moved?_le inside inside' here there order
    · rw [w.relocate_eq_self second]
      exact ⟨fun less _ _ => less, fun less => less first second⟩
  · refine iff_of_true ?_ fun starts => absurd starts first
    rw [w.relocate_eq_self first]
    rw [UInt32.le_iff_toNat_le] at order ⊢
    exact Nat.le_trans order (w.relocate_cases q).1

/-- The points of a woven body can be written just if those that are moved do not pass those that are
not. -/
theorem defined_encode_iff (written : body.points.encode.Defined)
    (short : woven.code.length < Write.numberLimit) :
    (body.points.relocate w.moved?).encode.Defined ↔ body.points.Pairwise fun p q =>
      body.Starts p.offset → ¬ body.Starts q.offset → (p.relocate w.moved?).offset ≤ q.offset := by
  obtain ⟨orderly, near⟩ := SequencePoints.defined_encode_iff.mp written
  have order : (body.points.relocate w.moved?).Pairwise (·.offset ≤ ·.offset) ↔
      body.points.Pairwise fun p q => body.Starts p.offset → ¬ body.Starts q.offset →
        (p.relocate w.moved?).offset ≤ q.offset := by
    rw [SequencePoints.relocate, List.pairwise_map]
    constructor
    · intro moved
      exact (orderly.order.and moved).imp fun both => (w.relocate_le_iff both.1).mp both.2
    · intro apart
      exact (orderly.order.and apart).imp fun both => (w.relocate_le_iff both.1).mpr both.2
  have places : (SequencePoints.encode ((body.points.relocate w.moved?).map
      SequencePoint.withoutOffset)).Defined := by
    rw [SequencePoints.withoutOffset_relocate]
    exact orderly.places
  have close : (body.points.relocate w.moved?).Near := by
    refine near.relocate (fun p _ => (w.relocate_cases p).1) fun p _ => ?_
    exact (w.relocate_cases p).2.imp_right fun inside => Nat.lt_trans inside short
  rw [SequencePoints.defined_encode_iff, ← order]
  exact ⟨fun both => both.1.order, fun inOrder => ⟨⟨places, inOrder⟩, close⟩⟩

end Weave

/-- The sequence points of a method whose calls are intercepted, wherever they are.  A method without
calls to intercept stays as it is.  Otherwise the points where instructions start are moved to the code
of their instructions, and the others keep their offsets.  The points that result can be written just
if no point that is moved passes one that is not, in particular if instructions start at all of them,
as long as the code is shorter than the largest number that can be written. -/
theorem defined_points_of_interceptCalls {m m' : Module} {o : WeavePolicy} {known : Option Imports}
    {token : Token} {d : MethodDef} {body : Body} {count : Nat}
    (found : m.methodDefAt token = .ok d) (hasBody : d.body = some body)
    (written : body.points.encode.Defined)
    (h : Yields (interceptCalls o known token) m count m') :
    (count = 0 ∧ m' = m) ∨
    0 < count ∧ ∃ imports m₁ woven, ∃ w : Weave m₁ imports token d body woven,
      m'.methodDefAt token = .ok { d with body := some woven } ∧
      woven.points = body.points.map (·.relocate w.moved?) ∧
      (∀ p ∈ body.points, ¬ body.Starts p.offset → p.relocate w.moved? = p) ∧
      (∀ p ∈ body.points, ∀ index entry, w.entries[index]? = some entry →
        entry.1.offset = p.offset.toNat →
          (p.relocate w.moved?).offset.toNat = w.codeOffset index) ∧
      (woven.code.length < Write.numberLimit →
        (woven.points.encode.Defined ↔ body.points.Pairwise fun p q => body.Starts p.offset →
          ¬ body.Starts q.offset → (p.relocate w.moved?).offset ≤ q.offset) ∧
        ((∀ p ∈ body.points, body.Starts p.offset) →
          woven.points.encode.Defined ∧ woven.points.Pairwise (·.offset ≤ ·.offset))) := by
  rcases exists_weave_of_interceptCalls found hasBody h with stays | ⟨some, imports, m₁, woven, -,
    found', w, -, -, points, -⟩
  · exact .inl stays
  · refine .inr ⟨some, imports, m₁, woven, w, found', points, fun p _ => w.relocate_eq_self,
      fun p _ index entry here at' => w.moved?_eq here at', fun short => ?_⟩
    have writable := w.defined_encode_iff written short
    rw [← points] at writable
    refine ⟨writable, fun starts => ?_⟩
    -- Where instructions start at all points, no point stays behind to be passed.
    have all : woven.points.encode.Defined :=
      writable.mpr (List.pairwise_of_forall_mem_list fun p _ q member _ stays =>
        absurd (starts q member) stays)
    exact ⟨all, (SequencePoints.defined_encode_iff.mp all).1.order⟩

/-- A module with a method that calls another one, with the given sequence points. -/
def pointedCallModule (points : SequencePoints) : Module where
  name := "Demo"
  types := #[.ofClass "Demo.A"]
  methods := #[
    { owner := .ofRow .typeDef 1, name := "f", flags := .isStatic,
      body := some { code := [0x28, 0x02, 0x00, 0x00, 0x06, 0x2A], points } },
    { owner := .ofRow .typeDef 1, name := "g", flags := .isStatic,
      body := some { code := [0x2A] } }]

/-- A point inside of the call stays where it is, and the point of the instruction behind the call is
moved away from it. -/
theorem defined_points_of_interceptCalls_pointedCall : ∃ known m m' woven,
    m.methodDefAt (.ofRow .methodDef 1) = .ok
      (pointedCallModule [⟨2, 1, 1, 1, 8, false⟩, ⟨5, 2, 1, 2, 8, false⟩]).methods[0] ∧
    Yields (interceptCalls {} known (.ofRow .methodDef 1)) m 1 m' ∧
    m'.methodDefAt (.ofRow .methodDef 1) = .ok
      { (pointedCallModule [⟨2, 1, 1, 1, 8, false⟩, ⟨5, 2, 1, 2, 8, false⟩]).methods[0] with
        body := some woven } ∧
    woven.points.encode.Defined := by
  let points : SequencePoints := [⟨2, 1, 1, 1, 8, false⟩, ⟨5, 2, 1, 2, 8, false⟩]
  let final := (interceptFirst.run.run (pointedCallModule points)).2
  obtain ⟨one, short⟩ : (interceptFirst.run.run (pointedCallModule points)).1 = .ok 1 ∧
      ∀ d ∈ (final.methodDefAt (.ofRow .methodDef 1)).toOption, ∀ b ∈ d.body,
        b.code.length < Write.numberLimit := by decide +kernel
  have run : Yields interceptFirst (pointedCallModule points) 1 final := Prod.ext one rfl
  obtain ⟨imports, m, -, found, intercepted⟩ := exists_of_interceptFirst run rfl
  have written : points.encode.Defined := ⟨_, rfl⟩
  rcases defined_points_of_interceptCalls found rfl written intercepted with ⟨none, -⟩ |
    ⟨-, _, _, woven, w, found', -, -, -, writable⟩
  · cases none
  · refine ⟨some imports, m, final, woven, found, intercepted, found', ?_⟩
    have small := short _ (toOption_eq_some_iff.mpr found') woven rfl
    refine (writable small).1.mpr ?_
    -- Only the second point is moved.
    refine List.pairwise_pair.mpr fun _ inside => absurd ?_ inside
    exact ⟨_, rfl, _, List.mem_cons_of_mem _ (List.mem_cons_self ..), rfl⟩

/-- The points of a body that can be written may not be any more after weaving, if one of them is
inside of an instruction. -/
theorem not_forall_defined_points : ¬ ∀ (m m' : Module) (o : WeavePolicy) (known : Option Imports)
    (token : Token) (d : MethodDef) (body woven : Body) (count : Nat),
    m.methodDefAt token = .ok d → d.body = some body → body.points.encode.Defined →
    Yields (interceptCalls o known token) m count m' →
    m'.methodDefAt token = .ok { d with body := some woven } →
    woven.code.length < Write.numberLimit → woven.points.encode.Defined := by
  intro claim
  -- The point at the call moves behind the one inside of the call.
  let points : SequencePoints := [⟨0, 1, 1, 1, 8, false⟩, ⟨2, 2, 1, 2, 8, false⟩]
  let final := (interceptFirst.run.run (pointedCallModule points)).2
  obtain ⟨one, refused⟩ : (interceptFirst.run.run (pointedCallModule points)).1 = .ok 1 ∧
      ∀ d ∈ (final.methodDefAt (.ofRow .methodDef 1)).toOption, ∀ b ∈ d.body,
        b.code.length < Write.numberLimit ∧ b.points.encode.toOption = none := by decide +kernel
  have run : Yields interceptFirst (pointedCallModule points) 1 final := Prod.ext one rfl
  obtain ⟨imports, m, -, found, intercepted⟩ := exists_of_interceptFirst run rfl
  rcases exists_weave_of_interceptCalls found rfl intercepted with ⟨none, -⟩ |
    ⟨-, _, _, woven, -, found', -⟩
  · cases none
  · obtain ⟨small, none⟩ := refused _ (toOption_eq_some_iff.mpr found') woven rfl
    obtain ⟨bytes, written⟩ :=
      claim m final {} _ _ _ _ woven 1 found rfl ⟨_, rfl⟩ intercepted found' small
    rw [written] at none
    cases none

end Interpose
