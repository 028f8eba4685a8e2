import Interpose.Bytes.Cursor
import Interpose.Proofs.Outcome
import Mathlib.Algebra.Ring.Int.Defs
import Mathlib.Algebra.Ring.Nat

/-!
# Reads in front of known bytes

What a read does is decided by the bytes behind the position of the cursor.  A read that takes the
bytes it is put in front of, whatever follows them, can be put in sequence with others, and so the
reads of a whole format are made of the reads of its parts.

## Main definitions

* `Cursor.Faces` — the bytes behind the position
* `Cursor.skip` — the cursor further on
* `Takes` — a read takes certain bytes and gives a value

## Main results

* `ofLittleEndian_littleEndian` — reading a word back gives the number modulo the width
* `Takes.bind`, `Takes.map` — reads in sequence
* `takes_byte`, `takes_word` — the reads that all others are made of
-/

namespace Interpose

namespace Cursor

/-- The bytes behind the position of a cursor are the given ones. -/
def Faces (c : Cursor) (bytes : List UInt8) : Prop :=
  c.position ≤ c.data.size ∧ c.rest = bytes

/-- The cursor the given number of bytes further on. -/
def skip (c : Cursor) (count : Nat) : Cursor := { c with position := c.position + count }

variable {c : Cursor} {bytes tail : List UInt8} {b : UInt8}

@[simp] theorem skip_data (count : Nat) : (c.skip count).data = c.data := rfl

@[simp] theorem skip_position (count : Nat) : (c.skip count).position = c.position + count := rfl

@[simp] theorem skip_zero : c.skip 0 = c := rfl

theorem skip_skip (first second : Nat) : (c.skip first).skip second = c.skip (first + second) := by
  simp only [skip, Nat.add_assoc]

theorem faces_ofBytes (bytes : List UInt8) : (ofBytes bytes).Faces bytes := by
  simp [Faces, ofBytes, rest]

theorem Faces.size_eq (h : c.Faces bytes) : c.data.size = c.position + bytes.length := by
  have length := congrArg List.length h.2
  simp only [rest, List.length_drop, Array.length_toList] at length
  have := h.1
  omega

theorem Faces.skip (h : c.Faces (bytes ++ tail)) : (c.skip bytes.length).Faces tail := by
  have size := h.size_eq
  simp only [List.length_append] at size
  refine ⟨by simp only [skip_data, skip_position]; omega, ?_⟩
  have shifted := congrArg (List.drop bytes.length) h.2
  simpa [rest, List.drop_drop] using shifted

theorem Faces.getElem? (h : c.Faces (b :: tail)) : c.data[c.position]? = some b := by
  have first := congrArg (fun list => list[0]?) h.2
  simpa [rest] using first

theorem Faces.extract (h : c.Faces (bytes ++ tail)) :
    (c.data.extract c.position (c.position + bytes.length)).toList = bytes := by
  have taken := congrArg (List.take bytes.length) h.2
  simp only [rest, List.take_left] at taken
  simp only [Array.toList_extract, List.extract_eq_take_drop, Nat.add_sub_cancel_left]
  exact taken

theorem Faces.hasMore (h : c.Faces bytes) : c.hasMore = !bytes.isEmpty := by
  have size := h.size_eq
  cases bytes with
  | nil => simp [Cursor.hasMore, size]
  | cons b tail => simp [Cursor.hasMore, size]

theorem Faces.remaining (h : c.Faces bytes) : c.remaining = bytes.length := by
  rw [Cursor.remaining, h.size_eq]
  omega

end Cursor

section Cursors

variable {c c' : Cursor} {n : Nat}

theorem yields_position : Yields Read.position c n c' ↔ c.position = n ∧ c = c' := by
  unfold Read.position
  rw [yields_get_bind]
  exact yields_pure

theorem yields_remaining : Yields Read.remaining c n c' ↔ c.remaining = n ∧ c = c' := by
  unfold Read.remaining
  rw [yields_get_bind]
  exact yields_pure

theorem yields_hasMore {more : Bool} :
    Yields Read.hasMore c more c' ↔ c.hasMore = more ∧ c = c' := by
  unfold Read.hasMore
  rw [yields_get_bind]
  exact yields_pure

theorem yields_byte {b : UInt8} :
    Yields Read.byte c b c' ↔ c.data[c.position]? = some b ∧ c.skip 1 = c' := by
  unfold Read.byte
  rw [yields_get_bind]
  cases c.data[c.position]? with
  | none => simp [yields_throw]
  | some first =>
    simp only [yields_set_bind, yields_pure, Option.some.injEq]
    rfl

theorem yields_seek {u : Unit} :
    Yields (Read.seek n) c u c' ↔ n ≤ c.data.size ∧ { c with position := n } = c' := by
  unfold Read.seek
  rw [yields_get_bind, yields_guard, yields_set, Nat.not_lt]

theorem length_of_bytes {taken : List UInt8} (h : Yields (Read.bytes n) c taken c') :
    taken.length = n := by
  unfold Read.bytes at h
  rw [yields_get_bind, yields_guard, yields_set_bind] at h
  obtain ⟨enough, h⟩ := h
  obtain ⟨rfl, -⟩ := yields_pure.mp h
  simp only [Array.toList_extract, List.extract_eq_take_drop, List.length_take, List.length_drop,
    Array.length_toList]
  omega

/-- A length is a number, and so many bytes are left behind it. -/
theorem yields_length : Yields Read.length c n c' ↔
    Yields Read.compressedNat c n c' ∧ n ≤ c'.remaining := by
  unfold Read.length
  rw [yields_bind]
  constructor
  · rintro ⟨n, c₁, number, h⟩
    obtain ⟨left, c₂, here, h⟩ := yields_bind.mp h
    obtain ⟨rfl, rfl⟩ := yields_remaining.mp here
    obtain ⟨enough, h⟩ := yields_guard.mp h
    obtain ⟨rfl, rfl⟩ := yields_pure.mp h
    exact ⟨number, Nat.not_lt.mp enough⟩
  · rintro ⟨number, enough⟩
    exact ⟨n, c', number, (yields_remaining.mpr ⟨rfl, rfl⟩).bind
      (yields_guard.mpr ⟨Nat.not_lt.mpr enough, yields_pure.mpr ⟨rfl, rfl⟩⟩)⟩

theorem length_of_times {α : Type} {read : Read α} {values : List α}
    (h : Yields (Read.times read n) c values c') : values.length = n := by
  induction n generalizing c c' values with
  | zero =>
    obtain ⟨rfl, -⟩ := yields_pure.mp h
    rfl
  | succ n ih =>
    obtain ⟨a, c₁, -, h⟩ := yields_bind.mp h
    obtain ⟨rest, c₂, later, h⟩ := yields_bind.mp h
    obtain ⟨rfl, -⟩ := yields_pure.mp h
    rw [List.length_cons, ih later]

/-- Text in UTF-16 is the number of its units, and so many units that spell it. -/
theorem yields_utf16 {text : String} : Yields Read.utf16 c text c' ↔ ∃ units c₁,
    Yields Read.compressedNat c (List.length units) c₁ ∧ 2 * units.length ≤ c₁.remaining ∧
      Yields (Read.times Read.word16 units.length) c₁ units c' ∧
        ofUtf16Units? units = some text := by
  unfold Read.utf16
  rw [yields_bind]
  constructor
  · rintro ⟨n, c₁, number, h⟩
    obtain ⟨left, c₂, here, h⟩ := yields_bind.mp h
    obtain ⟨rfl, rfl⟩ := yields_remaining.mp here
    obtain ⟨enough, h⟩ := yields_guard.mp h
    obtain ⟨units, c₂, taken, spell⟩ := yields_bind.mp h
    obtain rfl := length_of_times taken
    cases spelled : ofUtf16Units? units with
    | some text =>
      rw [spelled] at spell
      obtain ⟨rfl, rfl⟩ := yields_pure.mp spell
      exact ⟨units, c₁, number, Nat.not_lt.mp enough, taken, spelled⟩
    | none =>
      rw [spelled] at spell
      exact (yields_throw.mp spell).elim
  · rintro ⟨units, c₁, number, enough, taken, spelled⟩
    refine ⟨units.length, c₁, number, (yields_remaining.mpr ⟨rfl, rfl⟩).bind
      (yields_guard.mpr ⟨Nat.not_lt.mpr enough, taken.bind ?_⟩)⟩
    rw [spelled]
    exact yields_pure.mpr ⟨rfl, rfl⟩

end Cursors

/-- In front of the given bytes a read succeeds with the given value and takes just these bytes. -/
def Takes {α : Type} (read : Read α) (bytes : List UInt8) (a : α) : Prop :=
  ∀ ⦃c : Cursor⦄ ⦃tail : List UInt8⦄, c.Faces (bytes ++ tail) →
    Yields read c a (c.skip bytes.length)

section Sequences

variable {α β : Type} {x : Read α} {k : α → Read β} {u v bytes : List UInt8} {a : α} {b : β}

theorem takes_pure (a : α) : Takes (pure a) [] a := fun _ _ _ => yields_pure.mpr ⟨rfl, rfl⟩

/-- A result that is known already takes no bytes. -/
theorem takes_liftM {result : Except Error α} (h : result = .ok a) : Takes (liftM result) [] a :=
  fun _ _ _ => yields_liftM.mpr ⟨h, rfl⟩

theorem Takes.bind (hx : Takes x u a) (hk : Takes (k a) v b) :
    Takes (x >>= k) (u ++ v) b := by
  intro c tail h
  rw [List.append_assoc] at h
  refine yields_bind.mpr ⟨a, _, hx h, ?_⟩
  rw [List.length_append, ← Cursor.skip_skip]
  exact hk h.skip

theorem Takes.map (hx : Takes x bytes a) (f : α → β) :
    Takes (x >>= fun a => pure (f a)) bytes (f a) := by
  have both := hx.bind (k := fun a => pure (f a)) (takes_pure (f a))
  rwa [List.append_nil] at both

end Sequences

theorem takes_byte (b : UInt8) : Takes Read.byte [b] b := by
  intro c tail h
  unfold Read.byte
  refine (yields_get.mpr ⟨rfl, rfl⟩).bind ?_
  rw [h.getElem?]
  exact (yields_of_set _ _).bind (yields_pure.mpr ⟨rfl, rfl⟩)

theorem takes_bytes (bytes : List UInt8) : Takes (Read.bytes bytes.length) bytes bytes := by
  intro c tail h
  have size := h.size_eq
  rw [List.length_append] at size
  unfold Read.bytes
  refine (yields_get.mpr ⟨rfl, rfl⟩).bind ?_
  rw [if_neg (by omega), h.extract]
  exact (yields_of_set _ _).bind (yields_pure.mpr ⟨rfl, rfl⟩)

theorem ofLittleEndian_littleEndian (width n : Nat) :
    ofLittleEndian (littleEndian width n) = n % 256 ^ width := by
  induction width generalizing n with
  | zero => simp [littleEndian, ofLittleEndian, Nat.mod_one]
  | succ width ih =>
    have split : n % 256 ^ (width + 1) = n % 256 + 256 * (n / 256 % 256 ^ width) := by
      rw [Nat.pow_succ', Nat.mod_mul]
    rw [littleEndian, ofLittleEndian, ih, UInt8.toNat_ofNat', split]

theorem ofLittleEndian_lt (bytes : List UInt8) : ofLittleEndian bytes < 256 ^ bytes.length := by
  induction bytes with
  | nil => simp [ofLittleEndian]
  | cons byte rest ih =>
    have := byte.toNat_lt
    simp only [ofLittleEndian, List.length_cons, Nat.pow_succ']
    omega

theorem length_flatMap_littleEndian {α : Type} (width : Nat) (number : α → Nat) (values : List α) :
    (values.flatMap fun a => littleEndian width (number a)).length = width * values.length := by
  induction values with
  | nil => rfl
  | cons a rest ih =>
    rw [List.flatMap_cons, List.length_append, length_littleEndian, ih, List.length_cons,
      Nat.mul_succ, Nat.add_comm]

theorem takes_word (width n : Nat) :
    Takes (Read.word width) (littleEndian width n) (n % 256 ^ width) := by
  have bytes := takes_bytes (littleEndian width n)
  rw [length_littleEndian] at bytes
  rw [← ofLittleEndian_littleEndian]
  exact bytes.map ofLittleEndian

theorem takes_word16 (n : UInt16) : Takes Read.word16 (littleEndian 2 n.toNat) n := by
  have small : n.toNat % 256 ^ 2 = n.toNat := Nat.mod_eq_of_lt n.toNat_lt
  have word := (takes_word 2 n.toNat).map UInt16.ofNat
  rwa [small, UInt16.ofNat_toNat] at word

theorem takes_word32 (n : UInt32) : Takes Read.word32 (littleEndian 4 n.toNat) n := by
  have small : n.toNat % 256 ^ 4 = n.toNat := Nat.mod_eq_of_lt n.toNat_lt
  have word := (takes_word 4 n.toNat).map UInt32.ofNat
  rwa [small, UInt32.ofNat_toNat] at word

theorem takes_word64 (n : UInt64) : Takes Read.word64 (littleEndian 8 n.toNat) n := by
  have small : n.toNat % 256 ^ 8 = n.toNat := Nat.mod_eq_of_lt n.toNat_lt
  have word := (takes_word 8 n.toNat).map UInt64.ofNat
  rwa [small, UInt64.ofNat_toNat] at word

theorem takes_token (t : Token) : Takes Read.token (littleEndian 4 t.value.toNat) t :=
  (takes_word32 t.value).map Token.mk

end Interpose
