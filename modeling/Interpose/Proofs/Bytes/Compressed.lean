import Interpose.Proofs.Bytes.Canonical

/-!
# Numbers of variable width

Numbers and integers are written in one, two or four bytes, most significant byte first.  Those of 29
bits can be written, all others are refused before a byte is there; what was written is read back
whatever follows it, and nothing shorter is read as the same number.

## Main definitions

* `ReadsShortest` — bytes are read as a value, and no fewer bytes are
* `Append` — computations that put bytes behind those of a buffer
* `Append.compressedNat`, `Append.compressedInt` — numbers, put there byte by byte
* `Append.PutsShortest`, `Append.Rejects` — what is put there is read back, or nothing is put there

## Main results

* `unfoldSign_foldSign`, `takes_compressedInt`, `covers_compressedInt` — integers are read back
* `Append.compressedNat_eq`, `Append.compressedInt_eq` — byte by byte or at once, the outcome is the
  same
* `Append.writes_just_29_bits` — which numbers and integers are written, and how they are read back
-/

namespace Interpose

section Signs

/-- A 32-bit integer is the number with its bits, or that less the width. -/
private theorem toInt_eq_ite (n : Int32) : n.toInt = if n.toUInt32.toNat < 0x80000000 then
    (n.toUInt32.toNat : Int) else n.toUInt32.toNat - 0x100000000 := by
  have bits : n.toInt = _ := BitVec.toInt_eq_toNat_cond n.toBitVec
  rw [bits]
  show (if 2 * n.toUInt32.toNat < 2 ^ 32 then (n.toUInt32.toNat : Int) else
    n.toUInt32.toNat - (2 ^ 32 : Nat)) = _
  split <;> split <;> omega

/-- The sign goes to the lowest bit. -/
theorem toNat_foldSign (n : Int32) : (Write.foldSign n).toNat =
    if 0 ≤ n.toInt then 2 * n.toInt.toNat else 2 * (-1 - n.toInt).toNat + 1 := by
  have small := n.toUInt32.toNat_lt
  have value := toInt_eq_ite n
  have sign : (0 : Int32) ≤ n ↔ 0 ≤ n.toInt := Int32.le_iff_toInt_le
  have shift (k : Nat) : k <<< 1 = 2 * k := by rw [Nat.shiftLeft_eq, Nat.pow_one, Nat.mul_comm]
  have odd (k : Nat) : 2 * k ||| 1 = 2 * k + 1 := by
    rw [← shift, Nat.shiftLeft_add_eq_or_of_lt (by decide)]
  unfold Write.foldSign
  -- The bits of a negative number are told by its distance from the width.
  by_cases positive : 0 ≤ n.toInt
  case pos =>
    rw [if_pos positive, if_pos (sign.mpr positive), UInt32.toNat_shiftLeft]
    show n.toUInt32.toNat <<< 1 % 2 ^ 32 = _
    rw [shift]
    split at value <;> omega
  case neg =>
    rw [if_neg positive, if_neg (mt sign.mp positive), UInt32.toNat_or, UInt32.toNat_shiftLeft,
      UInt32.toNat_not, ← odd]
    show (0xFFFFFFFF - n.toUInt32.toNat) <<< 1 % 2 ^ 32 ||| 1 = _
    rw [shift]
    congr 1
    split at value <;> omega

theorem unfoldSign_foldSign (n : Int32) : Read.unfoldSign (Write.foldSign n).toNat = n.toInt := by
  rw [toNat_foldSign, Read.unfoldSign]
  split <;> split <;> omega

theorem foldSign_unfoldSign {n : Nat} (small : n < 0x100000000) :
    (Write.foldSign (Int32.ofInt (Read.unfoldSign n))).toNat = n := by
  have range : -2 ^ 31 ≤ Read.unfoldSign n ∧ Read.unfoldSign n < 2 ^ 31 := by
    unfold Read.unfoldSign
    split <;> omega
  rw [toNat_foldSign, Int32.toInt_ofInt_of_le range.1 range.2, Read.unfoldSign]
  split <;> split <;> omega

/-- An integer of variable width is read back. -/
theorem takes_compressedInt {n : Int32} {bytes : List UInt8}
    (h : Write.compressedInt n = .ok bytes) : Takes Read.compressedInt bytes n.toInt := by
  have number := (takes_compressedNat h).map Read.unfoldSign
  rwa [unfoldSign_foldSign] at number

/-- An integer of variable width that is read is written in no more bytes. -/
theorem covers_compressedInt :
    Covers Read.compressedInt fun n => Write.compressedInt (Int32.ofInt n) := by
  intro c n c' h
  obtain ⟨k, c₁, number, h⟩ := yields_bind.mp h
  obtain ⟨rfl, rfl⟩ := yields_pure.mp h
  have small := gives_compressedNat number
  unfold Write.numberLimit at small
  show (Write.compressedNat (Write.foldSign (Int32.ofInt (Read.unfoldSign k))).toNat).Between c c₁
  rw [foldSign_unfoldSign (by omega)]
  exact covers_compressedNat number

/-- Integers of variable width have 29 bits. -/
theorem gives_compressedInt : Gives Read.compressedInt fun n => -0x10000000 ≤ n ∧ n < 0x10000000 := by
  refine gives_compressedNat.bind fun k small => gives_pure ?_
  unfold Write.numberLimit at small
  unfold Read.unfoldSign
  split <;> omega

end Signs

/-- The bytes are read as the value whatever follows them, and fewer bytes never are. -/
structure ReadsShortest {α : Type} (read : Read α) (bytes : List UInt8) (a : α) : Prop where
  takes : Takes read bytes a
  shortest : ∀ ⦃other c'⦄, Yields read (.ofBytes other) a c' → bytes.length ≤ other.length

/-- What is written in no more bytes than it is read from is read from no fewer. -/
theorem Takes.readsShortest {α : Type} {read : Read α} {write : α → Write} {bytes : List UInt8}
    {a : α} (h : Takes read bytes a) (covers : Covers read write) (wrote : write a = .ok bytes) :
    ReadsShortest read bytes a where
  takes := h
  shortest other c' yields := by
    have between := covers yields
    obtain ⟨again, wroteAgain, fits⟩ := between.fits
    cases wrote.symm.trans wroteAgain
    have inside := between.inside
    simp only [Cursor.ofBytes, List.size_toArray] at fits inside
    omega

/-- A computation that puts bytes behind those of a buffer.  What it has put there before it fails
stays there. -/
abbrev Append := ExceptT Error (StateM Bytes)

namespace Append

/-- Puts one byte behind the buffer. -/
def byte (b : UInt8) : Append Unit := modify fun buffer => buffer ++ [b]

/-- Puts a 32-bit number behind the buffer, byte by byte. -/
def compressedNat (n : UInt32) : Append Unit := do
  if n.toNat ≤ 0x7F then
    byte n.toUInt8
  else if n.toNat ≤ 0x3FFF then
    byte ((n >>> 8).toUInt8 ||| 0x80)
    byte n.toUInt8
  else if n.toNat ≤ 0x1FFFFFFF then
    byte ((n >>> 24).toUInt8 ||| 0xC0)
    byte (n >>> 16).toUInt8
    byte (n >>> 8).toUInt8
    byte n.toUInt8
  else
    throw (.malformed (.compressedRange n.toNat))

/-- Puts a 32-bit integer behind the buffer.  The distance of a negative one from minus one is
computed in 64 bits. -/
def compressedInt (n : Int32) : Append Unit :=
  compressedNat (if 0 ≤ n then n.toUInt32 <<< 1
    else (-n.toInt64 - 1).toUInt64.toUInt32 <<< 1 ||| 1)

/-- Puts all bytes of a written form behind the buffer, if there is one. -/
def all (w : Write) : Append Unit := do
  let bytes ← (w : Except Error Bytes)
  modify fun buffer => buffer ++ bytes

variable {buffer buffer' : Bytes} {w : Write}

theorem yields_all {bytes : Bytes} (h : w = .ok bytes) :
    Yields (all w) buffer () (buffer ++ bytes) :=
  yields_liftM_bind.mpr ⟨bytes, h, rfl⟩

theorem fails_all {e : Error} (h : w = .error e) : Fails (all w) buffer e buffer :=
  fails_liftM_bind.mpr (.inl ⟨h, rfl⟩)

theorem byte_eq_all (b : UInt8) : byte b = all (.ok [b]) := rfl

theorem byte_all (b : UInt8) (bytes : Bytes) :
    (do byte b; all (.ok bytes)) = all (.ok (b :: bytes)) := by
  funext buffer
  show (Except.ok (), buffer ++ [b] ++ bytes) = (Except.ok (), buffer ++ b :: bytes)
  rw [List.append_assoc]
  rfl

/-- A number below 64 leaves the two upper bits of a byte free. -/
private theorem or_eq_add {low high : Nat} (small : low < 0x40) (h : high % 0x40 = 0) :
    low ||| high = high + low := by
  obtain ⟨m, rfl⟩ := Nat.dvd_of_mod_eq_zero h
  rw [Nat.or_comm]
  exact (Nat.two_pow_add_eq_or_of_lt (i := 6) small m).symm

/-- The upper bits of a number, with those that tell the width. -/
private theorem tagged_shiftRight (n shift : UInt32) (tag : UInt8) (narrow : shift.toNat < 32)
    (small : n.toNat / 2 ^ shift.toNat < 0x40) (high : tag.toNat % 0x40 = 0) :
    (n >>> shift).toUInt8 ||| tag = UInt8.ofNat (tag.toNat + n.toNat / 2 ^ shift.toNat) := by
  have shifted : (n >>> shift).toNat = n.toNat / 2 ^ shift.toNat := by
    rw [UInt32.toNat_shiftRight, Nat.mod_eq_of_lt narrow, Nat.shiftRight_eq_div_pow]
  apply UInt8.toNat_inj.mp
  rw [UInt8.toNat_or, UInt32.toNat_toUInt8, shifted, Nat.mod_eq_of_lt (by omega),
    or_eq_add small high, UInt8.toNat_ofNat_of_lt']
  have := tag.toNat_lt
  show _ < 2 ^ 8
  omega

private theorem shiftRight_toUInt8 {n : UInt32} {shift : UInt32} (narrow : shift.toNat < 32) :
    (n >>> shift).toUInt8 = UInt8.ofNat (n.toNat / 2 ^ shift.toNat) := by
  apply UInt8.toNat_inj.mp
  rw [UInt32.toNat_toUInt8, UInt32.toNat_shiftRight, Nat.mod_eq_of_lt narrow,
    Nat.shiftRight_eq_div_pow, UInt8.toNat_ofNat']

/-- The range of a number is looked at before its first byte is put there, so it is the same to put
all bytes there at once. -/
theorem compressedNat_eq (n : UInt32) : compressedNat n = all (Write.compressedNat n.toNat) := by
  unfold compressedNat Write.compressedNat
  -- There is one case for each width; the byte that tells it is the only one that is more than cut.
  simp only [← Nat.lt_succ_iff]
  split
  case isTrue => rfl
  case isFalse =>
    split
    case isTrue small =>
      have tagged := tagged_shiftRight n 8 0x80 (by decide)
        (Nat.div_lt_of_lt_mul small) (by decide)
      rw [tagged, byte_eq_all n.toUInt8, byte_all]
      rfl
    case isFalse =>
      split
      case isTrue small =>
        have tagged := tagged_shiftRight n 24 0xC0 (by decide)
          (Nat.div_lt_of_lt_mul (Nat.lt_of_lt_of_le small (by decide))) (by decide)
        rw [tagged, shiftRight_toUInt8 (by decide), shiftRight_toUInt8 (by decide),
          byte_eq_all n.toUInt8, byte_all, byte_all, byte_all]
        rfl
      case isFalse => rfl

/-- The distance of a negative number from minus one has the opposite bits. -/
private theorem neg_sub_one_toUInt32 (n : Int32) :
    (-n.toInt64 - 1).toUInt64.toUInt32 = ~~~ n.toUInt32 := by
  have narrow : (n.toBitVec.signExtend 64).setWidth 32 = n.toBitVec := by
    apply BitVec.eq_of_getLsbD_eq
    intro i h
    have wide : i < 64 := Nat.lt_trans h (by decide)
    simp only [BitVec.getLsbD_setWidth, BitVec.getLsbD_signExtend, h, wide, if_pos, decide_true,
      Bool.true_and]
  have opposite : -(n.toBitVec.signExtend 64) - 1 = ~~~ n.toBitVec.signExtend 64 := by
    rw [BitVec.neg_eq_not_add]
    exact BitVec.add_sub_cancel _ _
  apply UInt32.toBitVec_inj.mp
  show (-(n.toBitVec.signExtend 64) - 1).setWidth 32 = ~~~ n.toBitVec
  rw [opposite, BitVec.setWidth_not (by decide), narrow]

theorem compressedInt_eq (n : Int32) : compressedInt n = all (Write.compressedInt n) := by
  unfold compressedInt
  rw [compressedNat_eq, neg_sub_one_toUInt32]
  rfl

/-- Behind any buffer, the bytes are put from which the value is read, and from no fewer. -/
def PutsShortest {α : Type} (put : Append Unit) (read : Read α) (a : α) : Prop :=
  ∃ bytes, ReadsShortest read bytes a ∧ ∀ buffer, Yields put buffer () (buffer ++ bytes)

/-- Every buffer is left as it is. -/
def Rejects (put : Append Unit) (e : Error) : Prop := ∀ buffer, Fails put buffer e buffer

/-- A number that has a written form is put there, another one is rejected. -/
theorem all_compressedNat {n : Nat} {α : Type} {read : Read α} {a : α}
    (reads : ∀ bytes, Write.compressedNat n = .ok bytes → ReadsShortest read bytes a) :
    n < Write.numberLimit ∧ PutsShortest (all (Write.compressedNat n)) read a ∨
      Write.numberLimit ≤ n ∧
        Rejects (all (Write.compressedNat n)) (.malformed (.compressedRange n)) := by
  by_cases small : n < Write.numberLimit
  case pos =>
    obtain ⟨bytes, wrote⟩ := Write.defined_compressedNat_iff.mpr small
    exact .inl ⟨small, bytes, reads bytes wrote, fun _ => yields_all wrote⟩
  case neg =>
    refine .inr ⟨Nat.not_lt.mp small, fun _ => fails_all ?_⟩
    unfold Write.numberLimit at small
    rw [Write.compressedNat, if_neg (by omega), if_neg (by omega), if_neg small]
    rfl

/-- A number of 29 bits is put behind the buffer, in the fewest bytes from which it is read, and so is
an integer of 29 bits; all others are rejected, and the buffer is left as it was. -/
theorem writes_just_29_bits (n : UInt32) (k : Int32) :
    (n.toNat ≤ 0x1FFFFFFF ∧ PutsShortest (compressedNat n) Read.compressedNat n.toNat ∨
      0x1FFFFFFF < n.toNat ∧
        Rejects (compressedNat n) (.malformed (.compressedRange n.toNat))) ∧
    ((-2 ^ 28 ≤ k.toInt ∧ k.toInt < 2 ^ 28) ∧
        PutsShortest (compressedInt k) Read.compressedInt k.toInt ∨
      ¬ (-2 ^ 28 ≤ k.toInt ∧ k.toInt < 2 ^ 28) ∧
        Rejects (compressedInt k) (.malformed (.compressedRange (Write.foldSign k).toNat))) := by
  constructor
  · rw [compressedNat_eq]
    have reads (bytes) (wrote : Write.compressedNat n.toNat = .ok bytes) :=
      (takes_compressedNat wrote).readsShortest covers_compressedNat wrote
    obtain ⟨small, puts⟩ | ⟨large, rejects⟩ := all_compressedNat reads
    · exact .inl ⟨Nat.le_of_lt_succ small, puts⟩
    · exact .inr ⟨large, rejects⟩
  · -- An integer is written as the number to which it is folded, with the sign in the lowest bit.
    have folded : (Write.foldSign k).toNat < Write.numberLimit ↔
        -2 ^ 28 ≤ k.toInt ∧ k.toInt < 2 ^ 28 := by
      rw [toNat_foldSign, Write.numberLimit]
      split <;> omega
    have same : Write.compressedInt (Int32.ofInt k.toInt) = Write.compressedInt k :=
      congrArg Write.compressedInt (Int32.ofInt_toInt k)
    have reads (bytes) (wrote : Write.compressedInt k = .ok bytes) :=
      (takes_compressedInt wrote).readsShortest covers_compressedInt (same.trans wrote)
    rw [compressedInt_eq, ← folded]
    obtain ⟨small, puts⟩ | ⟨large, rejects⟩ := all_compressedNat reads
    · exact .inl ⟨small, puts⟩
    · exact .inr ⟨Nat.not_lt.mpr large, rejects⟩

end Append

end Interpose
