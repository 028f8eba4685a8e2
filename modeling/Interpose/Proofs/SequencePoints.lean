import Interpose.Proofs.Bytes.Compressed
import Interpose.SequencePoints
import Mathlib.Data.List.Chain

/-!
# Sequence points are read back

Points that are written come back with the same places.  Only whether a point is hidden is not
written: its line tells.

## Main definitions

* `SequencePoint.stored` — what is kept of a point
* `SequencePoints.Marked` — points are hidden by their lines
* `SequencePoints.Orderly` — the points are in order, and their places in the source text can be
  written
* `SequencePoints.Near` — no point is too far behind the one before it

## Main results

* `SequencePoints.decode_of_encode` — points are read back
* `SequencePoints.encode_of_decode` — points that are read can be written
* `SequencePoints.decode_encode_iff_marked` — which points are read back as they were
* `SequencePoints.defined_encode_iff` — orderly points can be written if they are near
* `SequencePoints.Orderly.relocate` — points that are moved without a change of their order stay
  orderly
-/

namespace Interpose

/-- What is kept of a point: a point is hidden if its line is that of code without source text. -/
def SequencePoint.stored (p : SequencePoint) : SequencePoint :=
  { p with isHidden := p.startLine = hiddenLine }

namespace SequencePoints

variable {p last : SequencePoint} {points : SequencePoints} {bytes start finish : List UInt8}

theorem column_toNat (value : UInt16) : column (value.toNat : Int) = pure value := by
  have small := value.toNat_lt
  rw [column, if_pos ⟨by omega, by omega⟩, Int.toNat_natCast, UInt16.ofNat_toNat]

theorem takes_decodeStart (h : encodeStart p = .ok bytes) :
    Takes decodeStart bytes (p.offset, p.startLine, p.startColumn) := by
  obtain ⟨offset, wroteOffset, h⟩ := bind_eq_ok_iff.mp h
  obtain ⟨line, wroteLine, h⟩ := bind_eq_ok_iff.mp h
  obtain ⟨column, wroteColumn, h⟩ := bind_eq_ok_iff.mp h
  cases h
  rw [List.append_assoc]
  unfold decodeStart
  refine (takes_compressedNat wroteOffset).bind ((takes_compressedNat wroteLine).bind ?_)
  rw [← List.append_nil column]
  refine (takes_compressedNat wroteColumn).bind ?_
  rw [column_toNat, pure_bind, UInt32.ofNat_toNat, UInt32.ofNat_toNat]
  exact takes_pure _

theorem takes_decodeStep (h : encodeStep last p = .ok bytes) :
    Takes (decodeStep last) bytes (p.offset, p.startLine, p.startColumn) := by
  unfold encodeStep at h
  split at h
  case isTrue => cases h
  case isFalse ordered =>
    obtain ⟨offset, wroteOffset, h⟩ := bind_eq_ok_iff.mp h
    dsimp only at h
    split at h
    case isTrue => cases h
    case isFalse near =>
      obtain ⟨line, wroteLine, h⟩ := bind_eq_ok_iff.mp h
      obtain ⟨column, wroteColumn, h⟩ := bind_eq_ok_iff.mp h
      cases h
      have offsetSmall := p.offset.toNat_lt
      have lineSmall := p.startLine.toNat_lt
      have columnSmall := p.startColumn.toNat_lt
      have lastSmall := last.startColumn.toNat_lt
      rw [UInt32.lt_iff_toNat_lt] at ordered
      -- Adding the distances to the last point gives the place of the point back.
      have offsets : last.offset.toNat + (p.offset.toNat - last.offset.toNat) = p.offset.toNat := by
        omega
      have lines : (last.startLine.toNat : Int) +
          (Int32.ofInt (p.startLine.toNat - last.startLine.toNat)).toInt = p.startLine.toNat := by
        rw [Int32.toInt_ofInt_of_le (by omega) (by omega)]
        omega
      have columns : (last.startColumn.toNat : Int) +
          (Int32.ofInt (p.startColumn.toNat - last.startColumn.toNat)).toInt =
            p.startColumn.toNat := by
        rw [Int32.toInt_ofInt_of_le (by omega) (by omega)]
        omega
      rw [List.append_assoc]
      unfold decodeStep
      refine (takes_compressedNat wroteOffset).bind ?_
      rw [offsets, if_neg (by omega)]
      refine (takes_compressedInt wroteLine).bind ?_
      rw [lines, if_neg (by omega), ← List.append_nil column]
      refine (takes_compressedInt wroteColumn).bind ?_
      rw [columns, column_toNat, pure_bind, UInt32.ofNat_toNat, Int.toNat_natCast,
        UInt32.ofNat_toNat]
      exact takes_pure _

/-- The written form of the start of the point that follows `last`. -/
def encodeBegin (last : Option SequencePoint) (point : SequencePoint) : Write :=
  match last with
  | none => encodeStart point
  | some last => encodeStep last point

/-- Reads the start of the point that follows `last`. -/
def decodeBegin (last : Option SequencePoint) : Read (UInt32 × UInt32 × UInt16) :=
  match last with
  | none => decodeStart
  | some last => decodeStep last

/-- Reads the end of a point with the given start. -/
def decodeEnd (start : UInt32 × UInt32 × UInt16) : Read SequencePoint := do
  let endLine := start.2.1.toNat + (← Read.compressedNat)
  if 0x100000000 ≤ endLine then Read.malformed .pointEndLine
  let endColumn ← column (start.2.2.toNat + (← Read.compressedNat))
  return {
    offset := start.1, startLine := start.2.1, startColumn := start.2.2
    endLine := UInt32.ofNat endLine
    endColumn
    isHidden := start.2.1 = hiddenLine }

theorem decodePoint_eq (last : Option SequencePoint) :
    decodePoint last = decodeBegin last >>= decodeEnd := by
  cases last <;> rfl

theorem encodeAfter_cons (last : Option SequencePoint) (p : SequencePoint)
    (rest : SequencePoints) : encodeAfter last (p :: rest) = (do
      let start ← encodeBegin last p
      let finish ← encodeEnd p
      let others ← encodeAfter (some p) rest
      return start ++ finish ++ others) := by
  cases last <;> rfl

theorem takes_decodeBegin {last : Option SequencePoint} (h : encodeBegin last p = .ok bytes) :
    Takes (decodeBegin (last.map SequencePoint.stored)) bytes
      (p.offset, p.startLine, p.startColumn) := by
  cases last with
  | none => exact takes_decodeStart h
  | some last => exact takes_decodeStep h

theorem takes_decodeEnd (h : encodeEnd p = .ok bytes) :
    Takes (decodeEnd (p.offset, p.startLine, p.startColumn)) bytes p.stored := by
  unfold encodeEnd at h
  split at h
  case isTrue => cases h
  case isFalse ordered =>
    obtain ⟨line, wroteLine, h⟩ := bind_eq_ok_iff.mp h
    obtain ⟨column, wroteColumn, h⟩ := bind_eq_ok_iff.mp h
    cases h
    rw [UInt32.lt_iff_toNat_lt, UInt16.lt_iff_toNat_lt] at ordered
    have lineSmall := p.endLine.toNat_lt
    have lines : p.startLine.toNat + (p.endLine.toNat - p.startLine.toNat) = p.endLine.toNat := by
      omega
    have columns : (p.startColumn.toNat : Int) + (p.endColumn.toNat - p.startColumn.toNat : Nat) =
        p.endColumn.toNat := by
      omega
    unfold decodeEnd
    refine (takes_compressedNat wroteLine).bind ?_
    dsimp only
    rw [lines, if_neg (by omega), ← List.append_nil column]
    refine (takes_compressedNat wroteColumn).bind ?_
    rw [columns, column_toNat, pure_bind, UInt32.ofNat_toNat]
    exact takes_pure _

/-- A point is read back, whether it is the first or follows another one. -/
theorem takes_decodePoint {last : Option SequencePoint} (wroteStart : encodeBegin last p = .ok start)
    (wroteEnd : encodeEnd p = .ok finish) :
    Takes (decodePoint (last.map SequencePoint.stored)) (start ++ finish) p.stored := by
  rw [decodePoint_eq]
  exact (takes_decodeBegin wroteStart).bind (takes_decodeEnd wroteEnd)

theorem encodeBegin_ne_nil {last : Option SequencePoint} (h : encodeBegin last p = .ok bytes) :
    bytes ≠ [] := by
  -- The offset comes first, and every number takes a byte.
  have first {offset rest : List UInt8} {n : Nat} (wrote : Write.compressedNat n = .ok offset) :
      offset ++ rest ≠ [] := fun none =>
    Write.compressedNat_ne_nil wrote (List.append_eq_nil_iff.mp none).1
  cases last with
  | none =>
    obtain ⟨offset, wrote, h⟩ := bind_eq_ok_iff.mp h
    obtain ⟨line, -, h⟩ := bind_eq_ok_iff.mp h
    obtain ⟨column, -, h⟩ := bind_eq_ok_iff.mp h
    cases h
    rw [List.append_assoc]
    exact first wrote
  | some last =>
    unfold encodeBegin encodeStep at h
    dsimp only at h
    split at h
    case isTrue => cases h
    case isFalse =>
      obtain ⟨offset, wrote, h⟩ := bind_eq_ok_iff.mp h
      split at h
      case isTrue => cases h
      case isFalse =>
        obtain ⟨line, -, h⟩ := bind_eq_ok_iff.mp h
        obtain ⟨column, -, h⟩ := bind_eq_ok_iff.mp h
        cases h
        rw [List.append_assoc]
        exact first wrote

/-- Points are read to the end of the data. -/
theorem yields_decodeAfter {last : Option SequencePoint} {fuel : Nat} {c : Cursor}
    (written : encodeAfter last points = .ok bytes) (enough : bytes.length ≤ fuel)
    (faces : c.Faces bytes) :
    Yields (decodeAfter fuel (last.map SequencePoint.stored)) c (points.map SequencePoint.stored)
      (c.skip bytes.length) := by
  -- Each point takes a byte at least, so there is fuel for all of them.
  induction points generalizing last fuel bytes c with
  | nil =>
    cases written
    cases fuel with
    | zero => exact yields_pure.mpr ⟨rfl, rfl⟩
    | succ fuel =>
      refine (yields_hasMore.mpr ⟨rfl, rfl⟩).bind ?_
      rw [faces.hasMore]
      exact yields_pure.mpr ⟨rfl, rfl⟩
  | cons p rest ih =>
    rw [encodeAfter_cons] at written
    obtain ⟨start, wroteStart, written⟩ := bind_eq_ok_iff.mp written
    obtain ⟨finish, wroteEnd, written⟩ := bind_eq_ok_iff.mp written
    obtain ⟨others, wroteOthers, written⟩ := bind_eq_ok_iff.mp written
    cases written
    have positive := List.length_pos_iff.mpr (encodeBegin_ne_nil wroteStart)
    simp only [List.length_append] at enough
    cases fuel with
    | zero => omega
    | succ fuel =>
      refine (yields_hasMore.mpr ⟨rfl, rfl⟩).bind ?_
      rw [faces.hasMore, if_pos (by simp [encodeBegin_ne_nil wroteStart])]
      refine (takes_decodePoint wroteStart wroteEnd faces).bind ?_
      have shorter : others.length ≤ fuel := by omega
      have later := ih wroteOthers shorter faces.skip
      refine later.bind (yields_pure.mpr ⟨rfl, ?_⟩)
      rw [Cursor.skip_skip, ← List.length_append]

/-- Points are read back. -/
theorem decode_of_encode (written : encode points = .ok bytes) :
    decode bytes = .ok (points.map SequencePoint.stored) := by
  have read := yields_decodeAfter written (Nat.le_refl _) (Cursor.faces_ofBytes bytes)
  exact congrArg Prod.fst read

/-! ### Points that are read can be written -/

variable {c c' : Cursor}

theorem yields_column {value : Int} {u : UInt16} (h : Yields (column value) c u c') :
    (u.toNat : Int) = value ∧ c = c' := by
  unfold column at h
  split at h
  case isTrue range =>
    obtain ⟨rfl, rfl⟩ := yields_pure.mp h
    rw [UInt16.toNat_ofNat']
    exact ⟨by omega, rfl⟩
  case isFalse => exact (yields_throw.mp h).elim

/-- A number that is read and kept in 32 bits is written as it was. -/
private theorem between_ofNat {n : Nat} (h : Yields Read.compressedNat c n c') :
    (Write.compressedNat (UInt32.ofNat n).toNat).Between c c' := by
  have small := gives_compressedNat h
  unfold Write.numberLimit at small
  rw [UInt32.toNat_ofNat', Nat.mod_eq_of_lt (by omega)]
  exact covers_compressedNat h

theorem between_of_decodeStart
    (h : Yields decodeStart c (p.offset, p.startLine, p.startColumn) c') :
    (encodeStart p).Between c c' := by
  obtain ⟨offset, c₁, one, h⟩ := yields_bind.mp h
  obtain ⟨line, c₂, two, h⟩ := yields_bind.mp h
  obtain ⟨column, c₃, three, h⟩ := yields_bind.mp h
  obtain ⟨narrow, c₄, four, h⟩ := yields_bind.mp h
  obtain ⟨same, rfl⟩ := yields_column four
  obtain ⟨starts, rfl⟩ := yields_pure.mp h
  simp only [Prod.mk.injEq] at starts
  obtain ⟨offsets, lines, columns⟩ := starts
  have last := covers_compressedNat three
  rw [← Int.ofNat_inj.mp same, columns] at last
  have whole := ((between_ofNat one).append (between_ofNat two)).append last
  simp only [bind_assoc, pure_bind, offsets, lines] at whole
  exact whole

theorem between_of_decodeStep
    (h : Yields (decodeStep last) c (p.offset, p.startLine, p.startColumn) c') :
    (encodeStep last p).Between c c' := by
  obtain ⟨offset, c₁, one, h⟩ := yields_bind.mp h
  obtain ⟨offsetSmall, h⟩ := yields_guard.mp h
  obtain ⟨line, c₂, two, h⟩ := yields_bind.mp h
  obtain ⟨lineRange, h⟩ := yields_guard.mp h
  obtain ⟨column, c₃, three, h⟩ := yields_bind.mp h
  obtain ⟨narrow, c₄, four, h⟩ := yields_bind.mp h
  obtain ⟨same, rfl⟩ := yields_column four
  obtain ⟨starts, rfl⟩ := yields_pure.mp h
  simp only [Prod.mk.injEq] at starts
  obtain ⟨offsets, lines, columns⟩ := starts
  -- Differences are read and sums are kept, so the differences come back from the sums.
  have offsetEq : p.offset.toNat = last.offset.toNat + offset := by
    rw [← offsets, UInt32.toNat_ofNat', Nat.mod_eq_of_lt (by omega)]
  have lineEq : (p.startLine.toNat : Int) - last.startLine.toNat = line := by
    rw [← lines, UInt32.toNat_ofNat', Nat.mod_eq_of_lt (by omega)]
    omega
  have columnEq : (p.startColumn.toNat : Int) - last.startColumn.toNat = column := by
    rw [← columns]
    omega
  have step : p.offset.toNat - last.offset.toNat = offset := by omega
  have near : ¬ (line < -0x80000000 ∨ 0x80000000 ≤ line) := by
    obtain ⟨low, high⟩ := gives_compressedInt two
    omega
  unfold encodeStep
  rw [if_neg (by rw [UInt32.lt_iff_toNat_lt]; omega), step, lineEq, columnEq]
  simp only [if_neg near]
  have whole := ((covers_compressedNat one).append (covers_compressedInt two)).append
    (covers_compressedInt three)
  simp only [bind_assoc, pure_bind] at whole
  exact whole

theorem between_of_decodeBegin {last : Option SequencePoint}
    (h : Yields (decodeBegin last) c (p.offset, p.startLine, p.startColumn) c') :
    (encodeBegin last p).Between c c' := by
  cases last with
  | none => exact between_of_decodeStart h
  | some last => exact between_of_decodeStep h

theorem between_of_decodeEnd {start : UInt32 × UInt32 × UInt16}
    (h : Yields (decodeEnd start) c p c') :
    start = (p.offset, p.startLine, p.startColumn) ∧ p.stored = p ∧
      (encodeEnd p).Between c c' := by
  obtain ⟨line, c₁, one, h⟩ := yields_bind.mp h
  obtain ⟨lineSmall, h⟩ := yields_guard.mp h
  obtain ⟨column, c₂, two, h⟩ := yields_bind.mp h
  obtain ⟨narrow, c₃, three, h⟩ := yields_bind.mp h
  obtain ⟨same, rfl⟩ := yields_column three
  obtain ⟨rfl, rfl⟩ := yields_pure.mp h
  refine ⟨rfl, rfl, ?_⟩
  have endLine : (UInt32.ofNat (start.2.1.toNat + line)).toNat = start.2.1.toNat + line := by
    rw [UInt32.toNat_ofNat', Nat.mod_eq_of_lt (by omega)]
  have lines : (UInt32.ofNat (start.2.1.toNat + line)).toNat - start.2.1.toNat = line := by omega
  have columns : narrow.toNat - start.2.2.toNat = column := by omega
  unfold encodeEnd
  dsimp only
  rw [if_neg (by rw [UInt32.lt_iff_toNat_lt, UInt16.lt_iff_toNat_lt]; omega), lines, columns]
  exact (covers_compressedNat one).append (covers_compressedNat two)

/-- Points that are read are written in no more bytes. -/
theorem between_of_decodeAfter {last : Option SequencePoint} {fuel : Nat}
    (inside : c.position ≤ c.data.size)
    (h : Yields (decodeAfter fuel last) c points c') :
    points.map SequencePoint.stored = points ∧ (encodeAfter last points).Between c c' := by
  -- The induction follows the reader; the rest starts where the first point has ended.
  induction fuel generalizing last points c with
  | zero =>
    obtain ⟨rfl, rfl⟩ := yields_pure.mp h
    exact ⟨rfl, rfl, inside, [], rfl, Nat.le_refl _⟩
  | succ fuel ih =>
    obtain ⟨more, c₁, here, h⟩ := yields_bind.mp h
    obtain ⟨rfl, rfl⟩ := yields_hasMore.mp here
    split at h
    case isFalse =>
      obtain ⟨rfl, rfl⟩ := yields_pure.mp h
      exact ⟨rfl, rfl, inside, [], rfl, Nat.le_refl _⟩
    case isTrue =>
      obtain ⟨p, c₁, one, h⟩ := yields_bind.mp h
      obtain ⟨rest, c₂, later, h⟩ := yields_bind.mp h
      obtain ⟨rfl, rfl⟩ := yields_pure.mp h
      rw [decodePoint_eq] at one
      obtain ⟨start, c₃, begins, ends⟩ := yields_bind.mp one
      obtain ⟨rfl, kept, finish⟩ := between_of_decodeEnd ends
      have begin' := between_of_decodeBegin begins
      obtain ⟨same, others⟩ := ih (finish.data ▸ finish.inside) later
      have whole := (begin'.append finish).append others
      simp only [bind_assoc, pure_bind] at whole
      refine ⟨by rw [List.map_cons, kept, same], ?_⟩
      rw [encodeAfter_cons]
      exact whole

/-- Points that are read from some bytes can be written, and take no more bytes then. -/
theorem encode_of_decode {data : List UInt8} (h : decode data = .ok points) :
    points.map SequencePoint.stored = points ∧
      ∃ bytes, encode points = .ok bytes ∧ bytes.length ≤ data.length := by
  have read : Yields (decodeAfter data.length none) (Cursor.ofBytes data) points _ := Prod.ext h rfl
  obtain ⟨same, between⟩ := between_of_decodeAfter (Nat.zero_le _) read
  obtain ⟨bytes, written, fits⟩ := between.fits
  have last := between.inside
  refine ⟨same, bytes, written, ?_⟩
  simp only [Cursor.ofBytes, List.size_toArray, Nat.zero_add] at last fits
  exact Nat.le_trans fits last

/-- Just the points at the line of code without source text are hidden. -/
def Marked (points : SequencePoints) : Prop :=
  ∀ p ∈ points, p.isHidden = decide (p.startLine = hiddenLine)

instance (points : SequencePoints) : Decidable points.Marked :=
  inferInstanceAs (Decidable (∀ p ∈ points, _))

/-- Points are stored as they are just if their lines tell which of them are hidden. -/
theorem marked_iff : points.Marked ↔ points.map SequencePoint.stored = points := by
  have kept (p : SequencePoint) : p.stored = p ↔ p.isHidden = decide (p.startLine = hiddenLine) := by
    constructor
    · intro same
      rw [← same]
      rfl
    · intro hidden
      rw [SequencePoint.stored, ← hidden]
  calc points.Marked
      ↔ ∀ p ∈ points, p.stored = id p := forall₂_congr fun p _ => (kept p).symm
    _ ↔ points.map SequencePoint.stored = points.map id := List.map_inj_left.symm
    _ ↔ points.map SequencePoint.stored = points := by rw [List.map_id]

/-- Points that can be written are read back as they were just if their lines tell which of them are
hidden.  Points that were read are such points; they can be written, in no more bytes, and are then read
back. -/
theorem decode_encode_iff_marked :
    (∀ (points : SequencePoints) (bytes : List UInt8), encode points = .ok bytes →
      (decode bytes = .ok points ↔ points.Marked)) ∧
    ∀ (data : List UInt8) (points : SequencePoints), decode data = .ok points →
      points.Marked ∧ ∃ bytes, encode points = .ok bytes ∧ bytes.length ≤ data.length ∧
        decode bytes = .ok points := by
  constructor
  · intro points bytes written
    rw [decode_of_encode written, marked_iff, Except.ok.injEq]
  · intro data points read
    obtain ⟨same, bytes, written, short⟩ := encode_of_decode read
    refine ⟨marked_iff.mpr same, bytes, written, short, ?_⟩
    rw [decode_of_encode written, same]

/-- Three points, the second of which is hidden and the third before the first in the source text. -/
def loopPoints : SequencePoints := [
  { offset := 0, startLine := 12, startColumn := 9, endLine := 12, endColumn := 22, isHidden := false },
  { offset := 5, startLine := hiddenLine, startColumn := 0, endLine := hiddenLine, endColumn := 0
    isHidden := true },
  { offset := 300, startLine := 11, startColumn := 5, endLine := 13, endColumn := 6, isHidden := false }]

theorem decode_encode_iff_marked_loop : ∃ bytes again, encode loopPoints = .ok bytes ∧
    decode bytes = .ok loopPoints ∧ encode loopPoints = .ok again ∧ again.length ≤ bytes.length := by
  have written : encode loopPoints = .ok _ := rfl
  have read := (decode_encode_iff_marked.1 loopPoints _ written).mpr (by decide)
  obtain ⟨-, again, rewritten, short, -⟩ := decode_encode_iff_marked.2 _ loopPoints read
  exact ⟨_, again, written, read, rewritten, short⟩

end SequencePoints

/-- The place of a point in the source text, at the start of the code. -/
def SequencePoint.withoutOffset (p : SequencePoint) : SequencePoint := { p with offset := 0 }

namespace SequencePoints

/-- No point is too far behind the one before it, or the first one behind the start of the code, for
the distance to be written. -/
def Near (points : SequencePoints) : Prop :=
  (0 :: points.map (·.offset.toNat)).IsChain fun low high => high - low < Write.numberLimit

instance (points : SequencePoints) : Decidable points.Near :=
  inferInstanceAs (Decidable (List.IsChain _ _))

/-- Points in the order of their offsets whose places in the source text can be written. -/
structure Orderly (points : SequencePoints) : Prop where
  places : (encode (points.map .withoutOffset)).Defined
  order : points.Pairwise (·.offset ≤ ·.offset)

variable {points : SequencePoints} {last p : SequencePoint} {low high : Nat}

/-- The written form of the distance between the places of two points. -/
private def encodeDistance (last p : SequencePoint) : Write := do
  let lines : Int := p.startLine.toNat - last.startLine.toNat
  if lines < -0x80000000 ∨ 0x80000000 ≤ lines then throw (.malformed (.lineDelta lines))
  let line ← Write.compressedInt (Int32.ofInt lines)
  let columns : Int := p.startColumn.toNat - last.startColumn.toNat
  let column ← Write.compressedInt (Int32.ofInt columns)
  return line ++ column

private theorem encodeStep_eq (last p : SequencePoint) : encodeStep last p =
    if p.offset < last.offset then throw (.malformed (.pointOrder p.offset.toNat))
    else do
      let offset ← Write.compressedNat (p.offset.toNat - last.offset.toNat)
      let distance ← encodeDistance last p
      return offset ++ distance := by
  unfold encodeStep encodeDistance
  split
  case isTrue => rfl
  case isFalse =>
    refine bind_congr fun offset => ?_
    dsimp only
    split
    case isTrue => rfl
    case isFalse => simp only [bind_assoc, pure_bind, List.append_assoc]

private theorem defined_encodeStep_iff : (encodeStep last p).Defined ↔
    last.offset.toNat ≤ p.offset.toNat ∧ p.offset.toNat - last.offset.toNat < Write.numberLimit ∧
      (encodeDistance last p).Defined := by
  rw [encodeStep_eq, ← UInt32.le_iff_toNat_le, ← UInt32.not_lt]
  by_cases back : p.offset < last.offset
  case pos =>
    rw [if_pos back]
    exact ⟨fun ⟨_, h⟩ => (nomatch h), fun h => absurd back h.1⟩
  case neg =>
    rw [if_neg back, and_iff_right back, ← Write.defined_compressedNat_iff]
    exact Write.defined_bind_iff fun _ _ => Write.defined_bind_pure_iff

private theorem defined_encodeStart_iff : (encodeStart p).Defined ↔
    p.offset.toNat < Write.numberLimit ∧ p.startLine.toNat < Write.numberLimit ∧
      p.startColumn.toNat < Write.numberLimit := by
  simp only [← Write.defined_compressedNat_iff]
  exact Write.defined_bind_iff fun _ _ => Write.defined_bind_iff fun _ _ =>
    Write.defined_bind_pure_iff

/-- The start of a point can be written if it is not before the point in front of it nor too far behind
it, and its place in the source text can. -/
private theorem defined_encodeBegin_iff {last : Option SequencePoint} :
    (encodeBegin last p).Defined ↔
      (last.elim 0 (·.offset.toNat) ≤ p.offset.toNat ∧
        p.offset.toNat - last.elim 0 (·.offset.toNat) < Write.numberLimit) ∧
      (encodeBegin (last.map .withoutOffset) p.withoutOffset).Defined := by
  cases last with
  | none =>
    simp only [encodeBegin, Option.map_none, Option.elim_none, defined_encodeStart_iff]
    simp [SequencePoint.withoutOffset, Write.numberLimit]
  | some last =>
    have distance : encodeDistance last.withoutOffset p.withoutOffset = encodeDistance last p := rfl
    simp only [encodeBegin, Option.map_some, Option.elim_some, defined_encodeStep_iff, distance]
    simp [SequencePoint.withoutOffset, Write.numberLimit, and_assoc]

private theorem defined_encodeAfter_iff {last : Option SequencePoint} :
    (encodeAfter last points).Defined ↔
      (last.elim 0 (·.offset.toNat) :: points.map (·.offset.toNat)).IsChain (fun low high =>
        low ≤ high ∧ high - low < Write.numberLimit) ∧
      (encodeAfter (last.map .withoutOffset) (points.map .withoutOffset)).Defined := by
  induction points generalizing last with
  | nil => simp [encodeAfter, Write.defined_pure]
  | cons p rest ih =>
    have parts (last : Option SequencePoint) (p : SequencePoint) (rest : SequencePoints) :
        (encodeAfter last (p :: rest)).Defined ↔ (encodeBegin last p).Defined ∧
          (encodeEnd p).Defined ∧ (encodeAfter (some p) rest).Defined := by
      rw [encodeAfter_cons]
      exact Write.defined_bind_iff fun _ _ => Write.defined_bind_iff fun _ _ =>
        Write.defined_bind_pure_iff
    have finish : encodeEnd p.withoutOffset = encodeEnd p := rfl
    rw [List.map_cons, List.map_cons, parts, parts, defined_encodeBegin_iff, ih, finish,
      List.isChain_cons_cons]
    simp only [Option.elim_some, Option.map_some]
    tauto

/-- Orderly points can be written if they are near. -/
theorem defined_encode_iff : (encode points).Defined ↔ points.Orderly ∧ points.Near := by
  have chains (offsets : List Nat) (low : Nat) : (low :: offsets).IsChain (fun low high =>
      low ≤ high ∧ high - low < Write.numberLimit) ↔ (low :: offsets).IsChain (· ≤ ·) ∧
        (low :: offsets).IsChain fun low high => high - low < Write.numberLimit := by
    induction offsets generalizing low with
    | nil => simp
    | cons high rest ih =>
      rw [List.isChain_cons_cons, List.isChain_cons_cons, List.isChain_cons_cons, ih]
      tauto
  have order : (0 :: points.map (·.offset.toNat)).IsChain (· ≤ ·) ↔
      points.Pairwise (·.offset ≤ ·.offset) := by
    rw [List.isChain_iff_pairwise, List.pairwise_cons, List.pairwise_map]
    simp [UInt32.le_iff_toNat_le]
  rw [encode, defined_encodeAfter_iff, Option.elim_none, chains, order]
  constructor
  · rintro ⟨⟨inOrder, near⟩, places⟩
    exact ⟨⟨places, inOrder⟩, near⟩
  · rintro ⟨⟨places, inOrder⟩, near⟩
    exact ⟨⟨inOrder, near⟩, places⟩

/-- Points that are moved without a change of their order stay orderly. -/
theorem Orderly.relocate (h : points.Orderly) {moved : UInt32 → Option UInt32}
    (keeps : ∀ p ∈ points, ∀ q ∈ points, p.offset ≤ q.offset →
      (moved p.offset).getD p.offset ≤ (moved q.offset).getD q.offset) :
    (points.relocate moved).Orderly where
  places := by
    have same : (points.relocate moved).map SequencePoint.withoutOffset =
        points.map SequencePoint.withoutOffset := by
      rw [SequencePoints.relocate, List.map_map]
      rfl
    rw [same]
    exact h.places
  order := by
    rw [SequencePoints.relocate, List.pairwise_map]
    exact h.order.imp_of_mem fun first second => keeps _ first _ second

end SequencePoints

end Interpose
