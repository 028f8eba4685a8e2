import Interpose.Proofs.Module.Rows

/-!
# Headers of bodies

A body is written behind one of two headers.  The small one is a single byte with the length of the code
and says nothing else, so it is taken for short code without local variables whose stack is not deeper
than the header stands for.  What it does not say is lost: a body behind a small header comes back with
the stack size that every such body has.

## Main definitions

* `Body.isSmall` — the body is written behind the small header
* `Body.toldStack` — the stack size that the header of a body stands for

## Main results

* `Body.length_of_encode`, `Body.length_le_of_decode` — headers take no more bytes than they need
* `Body.toldStack_eq_iff` — when the header of a body stands for its stack size
* `Body.decode_encode_append` — what comes back of a body that was written
-/

namespace Interpose.Body

variable {b : Body} {bytes data : List UInt8}

/-- The body is written behind the small header. -/
def isSmall (b : Body) : Bool := b.fitsTiny && !b.initLocals

/-- The stack size that the header of a body stands for. -/
def toldStack (b : Body) : UInt16 := if b.isSmall then tinyStack else b.maxStack

theorem isSmall_iff : b.isSmall = true ↔
    b.code.length ≤ 63 ∧ b.maxStack ≤ 8 ∧ b.locals = [] ∧ b.initLocals = false := by
  simp only [isSmall, fitsTiny, Bool.and_eq_true, decide_eq_true_eq, List.isEmpty_iff,
    Bool.not_eq_true', and_assoc]
  rfl

/-- A header never stands for less than the stack that the code of its body needs. -/
theorem maxStack_le_toldStack (b : Body) : b.maxStack ≤ b.toldStack := by
  unfold toldStack
  split
  case isTrue small => exact (isSmall_iff.mp small).2.1
  case isFalse => exact UInt16.le_refl _

theorem toldStack_eq_iff : b.toldStack = b.maxStack ↔ (b.isSmall = true → b.maxStack = tinyStack) := by
  unfold toldStack
  split
  case isTrue small => exact ⟨fun same _ => same.symm, fun same => (same small).symm⟩
  case isFalse large => exact ⟨fun _ small => absurd small large, fun _ => rfl⟩

/-- One byte or twelve are added to the code. -/
theorem length_of_encode (written : b.encode = .ok bytes) :
    bytes.length = (if b.isSmall then 1 else fatHeaderSize) + b.code.length := by
  unfold encode at written
  split at written
  case isTrue small =>
    cases written
    rw [isSmall, if_pos small, List.length_cons, Nat.add_comm]
  case isFalse large =>
    obtain ⟨-, written⟩ := guard_eq_ok_iff.mp written
    cases written
    rw [isSmall, if_neg large]
    simp only [List.length_append, length_littleEndian, fatHeaderSize]

/-- Bodies that are read can be written, in no more bytes than they were read from. -/
theorem length_le_of_decode {used : Nat} (read : decode data = .ok (b, used)) :
    ∃ bytes, b.encode = .ok bytes ∧ bytes.length ≤ used := by
  obtain ⟨bytes, written⟩ := defined_encode_iff.mpr (of_decode read).1
  refine ⟨bytes, written, ?_⟩
  rw [length_of_encode written]
  unfold decode at read
  split at read
  case h_1 => cases read
  case h_2 first rest =>
    split at read
    case h_1 =>
      -- What is read behind a small header is small itself.
      unfold decodeTiny at read
      dsimp only at read
      split at read
      case isTrue => cases read
      case isFalse enough =>
        cases read
        have length : (((first :: rest).drop 1).take (first.toNat / 4)).length = first.toNat / 4 := by
          rw [List.length_take, List.length_drop]
          omega
        have byte := first.toNat_lt
        have small : isSmall { initLocals := false
                               code := ((first :: rest).drop 1).take (first.toNat / 4) } = true :=
          isSmall_iff.mpr ⟨by rw [length]; omega, UInt16.le_refl 8, rfl, rfl⟩
        rw [if_pos small, length, Nat.add_comm]
    case h_2 =>
      unfold decodeFat at read
      simp only [guard_eq_ok_iff] at read
      obtain ⟨-, -, enough, -, read⟩ := read
      cases read
      have length := List.length_take_le (ofLittleEndian (((first :: rest).drop 4).take 4))
        ((first :: rest).drop fatHeaderSize)
      have header (b : Body) : (if b.isSmall then 1 else fatHeaderSize) ≤ fatHeaderSize := by
        split <;> decide
      exact Nat.add_le_add (header _) length
    case h_3 => cases read

/-- A body with code of less than 2³² bytes is found behind its header, whatever follows: its code, and
whether its local variables start out with defaults.  Its stack size is what the header stands for: its
own, or that of all small bodies, which is not less. -/
theorem decode_encode_append (b : Body) (short : b.code.length < 0x100000000) (tail : List UInt8) :
    ∃ bytes read, b.encode = .ok bytes ∧ decode (bytes ++ tail) = .ok (read, bytes.length) ∧
      read.code = b.code ∧ read.initLocals = b.initLocals ∧
      read.maxStack = (if b.code.length ≤ 63 ∧ b.maxStack ≤ 8 ∧ b.locals = [] ∧ b.initLocals = false
        then 8 else b.maxStack) ∧ b.maxStack ≤ read.maxStack := by
  obtain ⟨bytes, written⟩ := defined_encode_iff.mpr short
  have told : b.toldStack = if b.code.length ≤ 63 ∧ b.maxStack ≤ 8 ∧ b.locals = [] ∧
      b.initLocals = false then 8 else b.maxStack := by
    simp only [toldStack, isSmall_iff, tinyStack]
  exact ⟨bytes, _, written, decode_of_encode written tail, rfl, rfl, told, b.maxStack_le_toldStack⟩

/-- A body that returns a number, with a stack that is deeper than small bodies have. -/
def deepBody : Body := { maxStack := 300, initLocals := false, code := [0x17, 0x2A] }

theorem decode_encode_append_deep : deepBody.code.length < 0x100000000 ∧ ∃ bytes read,
    deepBody.encode = .ok bytes ∧ decode (bytes ++ [0x00]) = .ok (read, bytes.length) ∧
      read.code = [0x17, 0x2A] ∧ read.initLocals = false ∧ read.maxStack = 300 := by
  obtain ⟨bytes, read, written, found, code, marked, stack, -⟩ :=
    decode_encode_append deepBody (by decide) [0x00]
  exact ⟨by decide, bytes, read, written, found, code, marked, stack⟩

/-- The stack size of a small body need not come back: here a body that needs one place comes back with
eight. -/
theorem not_forall_maxStack_comes_back : ¬ ∀ (b : Body) (tail : List UInt8),
    b.code.length < 0x100000000 → ∃ bytes read, b.encode = .ok bytes ∧
      decode (bytes ++ tail) = .ok (read, bytes.length) ∧ read.code = b.code ∧
        read.maxStack = b.maxStack ∧ read.initLocals = b.initLocals := by
  intro claimed
  obtain ⟨bytes, read, written, found, -, stack, -⟩ :=
    claimed { maxStack := 1, initLocals := false, code := [0x2A] } [] (by decide)
  cases written
  cases found
  cases stack

end Interpose.Body
