import Interpose.Code.Encoder

/-!
# Assembling listings

A listing is a sequence of items: instructions, branches to labels, and the labels themselves.

## Main definitions

* `ListingItem` — one item
* `assemble` — the code that a listing describes
-/

namespace Interpose

/-- One item of a listing. -/
inductive ListingItem where
  | label (name : String)
  /-- An instruction without operand. -/
  | plain (op : Opcode)
  | withToken (op : Opcode) (token : Token)
  | branch (op : Opcode) (label : String)
  | ldarg (index : UInt16)
  | starg (index : UInt16)
  | ldloc (index : UInt16)
  | stloc (index : UInt16)
  | int32 (value : Int32)
  | int64 (value : Int64)
  /-- A double, by its bits. -/
  | float64 (bits : UInt64)
  /-- An instruction as it was read. -/
  | decoded (instruction : Instruction)
deriving DecidableEq, Repr

/-- Writes one item. -/
def ListingItem.emit : ListingItem → Emit Unit
  | label name => Emit.label name
  | plain op => Emit.instruction op
  | withToken op token => Emit.token op token
  | branch op destination => Emit.branch op destination
  | ldarg index => Emit.ldarg index
  | starg index => Emit.starg index
  | ldloc index => Emit.ldloc index
  | stloc index => Emit.stloc index
  | int32 value => Emit.constant value
  | int64 value => Emit.instruction .ldcI8 (some (.int64 value))
  | float64 bits => Emit.instruction .ldcR8 (some (.float64 bits))
  | decoded instruction => Emit.decoded instruction

/-- The code that a listing describes, with its labels. -/
def assemble (items : List ListingItem) : Except Error (List UInt8 × List (String × Nat)) :=
  match (items.forM ListingItem.emit).run {} with
  | (.ok _, encoder) => encoder.finish
  | (.error error, _) => .error error

end Interpose
