import Interpose.Bytes.Buffer
import Interpose.Bytes.Cursor

/-!
# Sequence points

Sequence points connect offsets in the code of a method with places in its source text.  In their
written form each point but the first is given by its distance from the one before it.

## Main definitions

* `SequencePoint` — an offset with the lines and columns it stands for
* `SequencePoints.at?`, `SequencePoints.around?` — the point of an offset
* `SequencePoints.relocate` — the points after code has moved
* `SequencePoints.encode`, `SequencePoints.decode` — the written form
-/

namespace Interpose

/-- The line number of code without source text. -/
def hiddenLine : UInt32 := 0xFEEFEE

/-- An offset in the code with the source text it stands for. -/
structure SequencePoint where
  offset : UInt32
  startLine : UInt32
  startColumn : UInt16
  endLine : UInt32
  endColumn : UInt16
  isHidden : Bool
deriving DecidableEq, Repr, Inhabited

/-- The sequence points of a method, in the order they are written in. -/
abbrev SequencePoints := List SequencePoint

namespace SequencePoints

/-- The first point at exactly the given offset. -/
def at? (points : SequencePoints) (offset : UInt32) : Option SequencePoint :=
  points.find? (·.offset = offset)

/-- The last point before the first one behind the given offset. -/
def around? (points : SequencePoints) (offset : UInt32) : Option SequencePoint :=
  (points.takeWhile (·.offset ≤ offset)).getLast?

/-- The points with each offset replaced by the one that `moved` has for it, if it has one. -/
def relocate (points : SequencePoints) (moved : UInt32 → Option UInt32) : SequencePoints :=
  points.map fun point => { point with offset := (moved point.offset).getD point.offset }

/-- The start of a point, given in full. -/
def encodeStart (point : SequencePoint) : Write := do
  let offset ← Write.compressedNat point.offset.toNat
  let line ← Write.compressedNat point.startLine.toNat
  let column ← Write.compressedNat point.startColumn.toNat
  return offset ++ line ++ column

/-- The start of a point, given by its distance from the point before it. -/
def encodeStep (last point : SequencePoint) : Write := do
  if point.offset < last.offset then throw (.malformed (.pointOrder point.offset.toNat))
  let offset ← Write.compressedNat (point.offset.toNat - last.offset.toNat)
  let lines : Int := point.startLine.toNat - last.startLine.toNat
  if lines < -0x80000000 ∨ 0x80000000 ≤ lines then throw (.malformed (.lineDelta lines))
  let line ← Write.compressedInt (Int32.ofInt lines)
  let columns : Int := point.startColumn.toNat - last.startColumn.toNat
  let column ← Write.compressedInt (Int32.ofInt columns)
  return offset ++ line ++ column

/-- The end of a point, given by its distance from the start. -/
def encodeEnd (point : SequencePoint) : Write := do
  -- Columns may not decrease, not even from one line to a later one.
  if point.endLine < point.startLine ∨ point.endColumn < point.startColumn then
    throw (.malformed .pointEnd)
  let line ← Write.compressedNat (point.endLine.toNat - point.startLine.toNat)
  let column ← Write.compressedNat (point.endColumn.toNat - point.startColumn.toNat)
  return line ++ column

/-- The written form of the points that follow `last`. -/
def encodeAfter (last : Option SequencePoint) : SequencePoints → Write
  | [] => return []
  | point :: rest => do
    let start ← match last with
      | none => encodeStart point
      | some last => encodeStep last point
    let finish ← encodeEnd point
    let others ← encodeAfter (some point) rest
    return start ++ finish ++ others

/-- The written form of sequence points. -/
def encode (points : SequencePoints) : Write := encodeAfter none points

/-- A column, if it is a 16-bit number. -/
def column (value : Int) : Read UInt16 :=
  if 0 ≤ value ∧ value < 0x10000 then return UInt16.ofNat value.toNat
  else Read.malformed (.pointColumn value)

/-- Reads the start of a point, given in full. -/
def decodeStart : Read (UInt32 × UInt32 × UInt16) := do
  let offset ← Read.compressedNat
  let line ← Read.compressedNat
  let column ← column (← Read.compressedNat)
  return (UInt32.ofNat offset, UInt32.ofNat line, column)

/-- Reads the start of a point, given by its distance from the point before it. -/
def decodeStep (last : SequencePoint) : Read (UInt32 × UInt32 × UInt16) := do
  let offset := last.offset.toNat + (← Read.compressedNat)
  if 0x100000000 ≤ offset then Read.malformed .pointOffset
  let line := (last.startLine.toNat : Int) + (← Read.compressedInt)
  if line < 0 ∨ 0x100000000 ≤ line then Read.malformed (.pointLine line)
  let column ← column (last.startColumn.toNat + (← Read.compressedInt))
  return (UInt32.ofNat offset, UInt32.ofNat line.toNat, column)

/-- Reads the point that follows `last`. -/
def decodePoint (last : Option SequencePoint) : Read SequencePoint := do
  let (offset, startLine, startColumn) ← match last with
    | none => decodeStart
    | some last => decodeStep last
  let endLine := startLine.toNat + (← Read.compressedNat)
  if 0x100000000 ≤ endLine then Read.malformed .pointEndLine
  let endColumn ← column (startColumn.toNat + (← Read.compressedNat))
  return {
    offset, startLine, startColumn
    endLine := UInt32.ofNat endLine
    endColumn
    isHidden := startLine = hiddenLine }

/-- Reads points to the end of the data, at most `fuel` of them. -/
def decodeAfter : (fuel : Nat) → (last : Option SequencePoint) → Read SequencePoints
  | 0, _ => return []
  | fuel + 1, last => do
    if ← Read.hasMore then
      let point ← decodePoint last
      return point :: (← decodeAfter fuel (some point))
    else
      return []

/-- The sequence points that bytes stand for; every point takes at least one byte. -/
def decode (bytes : List UInt8) : Except Error SequencePoints :=
  Read.run (decodeAfter bytes.length none) bytes.toArray

end SequencePoints

end Interpose
