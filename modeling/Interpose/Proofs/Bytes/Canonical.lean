import Interpose.Proofs.Bytes.Storing

/-!
# What is read can be written

The numbers and lengths that reads accept are small enough to be written, so whatever is made of them
has a written form.  Numbers and lengths may have been read from more bytes than they need; they are
written in the fewest.

## Main definitions

* `Gives` — what a read gives whenever it succeeds
* `Write.Defined` — a value has a written form
* `Write.Between`, `Covers` — what a read gives has a written form that is not longer than what was
  read

## Main results

* `Write.defined_compressedNat_iff`, `Write.defined_list_iff`, … — which values have a written form
* `covers_compressedNat` — numbers of variable width are written in the fewest bytes
* `gives_utf8`, `gives_utf16`, `Gives.list` — strings and lists that are read have a written form
-/

namespace Interpose

/-- Whenever the read succeeds, what it gives has the property. -/
def Gives {α : Type} (read : Read α) (Q : α → Prop) : Prop :=
  ∀ ⦃c : Cursor⦄ ⦃a : α⦄ ⦃c' : Cursor⦄, Yields read c a c' → Q a

section Gives

variable {α β : Type} {x : Read α} {k : α → Read β} {P : α → Prop} {Q : β → Prop} {c : Prop}
  [Decidable c] {read read' : Read β} {b : β}

theorem gives_pure (h : Q b) : Gives (pure b : Read β) Q := by
  intro c b' c' yields
  obtain ⟨rfl, -⟩ := yields_pure.mp yields
  exact h

theorem gives_throw (e : Error) : Gives (throw e : Read β) Q := fun _ _ _ h =>
  (yields_throw.mp h).elim

theorem gives_throw_bind (e : Error) : Gives ((throw e : Read α) >>= k) Q := fun _ _ _ h =>
  (yields_throw_bind.mp h).elim

theorem gives_of_any (x : Read α) : Gives x fun _ => True := fun _ _ _ _ => trivial

theorem Gives.bind (hx : Gives x P) (hk : ∀ a, P a → Gives (k a) Q) : Gives (x >>= k) Q := by
  intro c b c' h
  obtain ⟨a, c₁, first, second⟩ := yields_bind.mp h
  exact hk a (hx first) second

theorem Gives.ite (h : c → Gives read Q) (h' : ¬ c → Gives read' Q) :
    Gives (if c then read else read') Q := by
  split
  case isTrue holds => exact h holds
  case isFalse fails => exact h' fails

theorem Gives.times {read : Read α} (h : Gives read P) (count : Nat) :
    Gives (Read.times read count) fun values => ∀ a ∈ values, P a := by
  induction count with
  | zero => exact gives_pure (by simp)
  | succ count ih =>
    exact h.bind fun a holds => ih.bind fun rest all =>
      gives_pure (List.forall_mem_cons.mpr ⟨holds, all⟩)

end Gives

namespace Write

/-- The value has a written form. -/
def Defined (w : Write) : Prop := ∃ bytes, w = .ok bytes

/-- The first number that is too large for a number of variable width. -/
def numberLimit : Nat := 0x20000000

variable {α : Type} {n : Nat}

theorem defined_pure (bytes : Bytes) : Defined (pure bytes) := ⟨bytes, rfl⟩

/-- A sequence has a written form if its members do. -/
theorem defined_bind_iff {x : Write} {k : Bytes → Write} {P : Prop}
    (h : ∀ bytes, x = .ok bytes → ((k bytes).Defined ↔ P)) :
    Defined (x >>= k) ↔ x.Defined ∧ P := by
  constructor
  · rintro ⟨bytes, written⟩
    obtain ⟨first, wrote, written⟩ := bind_eq_ok_iff.mp written
    exact ⟨⟨first, wrote⟩, (h first wrote).mp ⟨bytes, written⟩⟩
  · rintro ⟨⟨first, wrote⟩, holds⟩
    obtain ⟨bytes, written⟩ := (h first wrote).mpr holds
    exact ⟨bytes, bind_eq_ok_iff.mpr ⟨first, wrote, written⟩⟩

/-- What is put behind the last member does not matter. -/
theorem defined_bind_pure_iff {x : Write} {f : Bytes → Bytes} :
    Defined (x >>= fun bytes => pure (f bytes)) ↔ x.Defined :=
  (defined_bind_iff (P := True) fun _ _ => iff_true_intro (defined_pure _)).trans (and_true _).to_iff

theorem defined_compressedNat_iff : (compressedNat n).Defined ↔ n < numberLimit := by
  unfold compressedNat numberLimit
  split
  · exact ⟨fun _ => by omega, fun _ => defined_pure _⟩
  · split
    · exact ⟨fun _ => by omega, fun _ => defined_pure _⟩
    · split
      · exact ⟨fun _ => by omega, fun _ => defined_pure _⟩
      · exact ⟨fun ⟨_, h⟩ => (nomatch h), fun _ => by omega⟩

theorem defined_length_iff : (length n).Defined ↔ n < numberLimit := by
  unfold length
  split
  case isTrue => exact defined_compressedNat_iff
  case isFalse large =>
    unfold numberLimit
    exact ⟨fun ⟨_, h⟩ => (nomatch h), fun _ => by omega⟩

theorem defined_utf8_iff {text : String} :
    (utf8 text).Defined ↔ text.toUTF8.data.toList.length < numberLimit :=
  defined_bind_pure_iff.trans defined_length_iff

theorem defined_utf16_iff {text : String} :
    (utf16 text).Defined ↔ (utf16Units text).length < numberLimit :=
  defined_bind_pure_iff.trans defined_length_iff

theorem defined_concat_iff {write : α → Write} {values : List α} :
    (concat write values).Defined ↔ ∀ a ∈ values, (write a).Defined := by
  induction values with
  | nil => exact ⟨fun _ => by simp, fun _ => defined_pure _⟩
  | cons a rest ih =>
    rw [List.forall_mem_cons, ← ih]
    exact defined_bind_iff fun _ _ => defined_bind_pure_iff

theorem defined_list_iff {write : α → Write} {values : List α} :
    (list write values).Defined ↔ values.length < numberLimit ∧ ∀ a ∈ values, (write a).Defined := by
  rw [← defined_length_iff, ← defined_concat_iff]
  exact defined_bind_iff fun _ _ => defined_bind_pure_iff

end Write

/-- There is a written form that is not longer than the bytes between two places. -/
structure Write.Between (w : Write) (c c' : Cursor) : Prop where
  data : c'.data = c.data
  inside : c'.position ≤ c.data.size
  fits : ∃ bytes, w = .ok bytes ∧ c.position + bytes.length ≤ c'.position

/-- What a read gives has a written form that is not longer than what was read. -/
def Covers {α : Type} (read : Read α) (write : α → Write) : Prop :=
  ∀ ⦃c : Cursor⦄ ⦃a : α⦄ ⦃c' : Cursor⦄, Yields read c a c' → (write a).Between c c'

theorem Write.Between.defined {w : Write} {c c' : Cursor} (h : w.Between c c') : w.Defined := by
  obtain ⟨bytes, written, -⟩ := h.fits
  exact ⟨bytes, written⟩

/-- What fits between two places, and what fits behind it, fit together. -/
theorem Write.Between.append {x y : Write} {c c₁ c' : Cursor} (hx : x.Between c c₁)
    (hy : y.Between c₁ c') : Between (do return (← x) ++ (← y)) c c' := by
  obtain ⟨first, wroteFirst, fitsFirst⟩ := hx.fits
  obtain ⟨second, wroteSecond, fitsSecond⟩ := hy.fits
  refine ⟨hy.data.trans hx.data, hx.data ▸ hy.inside, first ++ second, ?_, ?_⟩
  · exact bind_eq_ok_iff.mpr ⟨first, wroteFirst, bind_eq_ok_iff.mpr ⟨second, wroteSecond, rfl⟩⟩
  · rw [List.length_append]
    omega

section Text

variable {text : String}

theorem toUTF8_of_fromUTF8? {bytes : ByteArray} (h : String.fromUTF8? bytes = some text) :
    text.toUTF8 = bytes := by
  unfold String.fromUTF8? at h
  split at h
  · cases h
    rfl
  · cases h

theorem toNat_ofNat {n : Nat} (valid : n.isValidChar) : (Char.ofNat n).toNat = n := by
  rw [Char.ofNat, dif_pos valid]
  rfl

/-- A unit that is no surrogate is that of its character. -/
theorem charUnits_of_unit {unit : UInt16} (low : ¬ isLowSurrogate unit = true)
    (high : ¬ isHighSurrogate unit = true) : charUnits (Char.ofNat unit.toNat) = [unit] := by
  have small := unit.toNat_lt
  simp only [isLowSurrogate, isHighSurrogate, Bool.and_eq_true, decide_eq_true_eq] at low high
  have valid : unit.toNat.isValidChar := by
    unfold Nat.isValidChar
    omega
  rw [charUnits, toNat_ofNat valid, if_pos small, UInt16.ofNat_toNat]

/-- A pair of surrogates are the units of the character they spell. -/
theorem charUnits_of_pair {high low : UInt16} (h : isHighSurrogate high = true)
    (l : isLowSurrogate low = true) :
    charUnits (Char.ofNat (0x10000 + (high.toNat - 0xD800) * 0x400 + (low.toNat - 0xDC00))) =
      [high, low] := by
  simp only [isLowSurrogate, isHighSurrogate, Bool.and_eq_true, decide_eq_true_eq] at h l
  generalize point : 0x10000 + (high.toNat - 0xD800) * 0x400 + (low.toNat - 0xDC00) = n
  have valid : n.isValidChar := by
    unfold Nat.isValidChar
    omega
  -- The halves of ten bits are found again as quotient and remainder.
  have first : 0xD800 + (n - 0x10000) / 0x400 = high.toNat := by omega
  have second : 0xDC00 + (n - 0x10000) % 0x400 = low.toNat := by omega
  rw [charUnits, toNat_ofNat valid, if_neg (by omega)]
  dsimp only
  rw [first, second, UInt16.ofNat_toNat, UInt16.ofNat_toNat]

/-- Units that spell characters are the units of these characters. -/
theorem flatMap_charUnits_of_charsOfUnits? {units : List UInt16} {chars : List Char}
    (h : charsOfUnits? units = some chars) : chars.flatMap charUnits = units := by
  -- Three of the cases are surrogates without their other half, which spell nothing.
  fun_induction charsOfUnits? units generalizing chars with
  | case1 =>
    cases h
    rfl
  | case2 => cases h
  | case3 high _ isHigh low rest isLow point =>
    rename_i ih
    obtain ⟨others, spelled, rfl⟩ := Option.map_eq_some_iff.mp h
    rw [List.flatMap_cons, ih spelled, charUnits_of_pair isHigh isLow]
    rfl
  | case4 => cases h
  | case5 => cases h
  | case6 unit rest low high ih =>
    obtain ⟨others, spelled, rfl⟩ := Option.map_eq_some_iff.mp h
    rw [List.flatMap_cons, ih spelled, charUnits_of_unit low high]
    rfl

/-- Units that spell a text are its units. -/
theorem utf16Units_of_ofUtf16Units? {units : List UInt16} (h : ofUtf16Units? units = some text) :
    utf16Units text = units := by
  obtain ⟨chars, spelled, rfl⟩ := Option.map_eq_some_iff.mp h
  rw [utf16Units, String.toList_ofList, flatMap_charUnits_of_charsOfUnits? spelled]

end Text

/-- Small numbers take few bytes. -/
theorem Write.exists_compressedNat {n : Nat} (count : Nat) (enough : n < 0x80 ∧ count = 1 ∨
    n < 0x4000 ∧ count = 2 ∨ n < numberLimit ∧ count = 4) :
    ∃ bytes, compressedNat n = .ok bytes ∧ bytes.length ≤ count := by
  unfold numberLimit at enough
  unfold compressedNat
  split
  · exact ⟨_, rfl, by simp only [List.length_singleton]; omega⟩
  · split
    · exact ⟨_, rfl, by simp only [List.length_cons, List.length_nil]; omega⟩
    · rw [if_pos (by omega)]
      exact ⟨_, rfl, by simp only [List.length_cons, List.length_nil]; omega⟩

/-- Numbers of variable width are written in the fewest bytes. -/
theorem covers_compressedNat : Covers Read.compressedNat Write.compressedNat := by
  have inside {c : Cursor} {b : UInt8} (found : c.data[c.position]? = some b) :
      c.position < c.data.size := (Array.getElem?_eq_some_iff.mp found).1
  intro c n c' h
  -- It is enough to know that not too few bytes were read.
  have within (count : Nat) (moved : c.skip count = c') (last : c.position + count ≤ c.data.size)
      (enough : n < 0x80 ∧ count = 1 ∨ n < 0x4000 ∧ count = 2 ∨ n < Write.numberLimit ∧ count = 4) :
      (Write.compressedNat n).Between c c' := by
    obtain ⟨bytes, written, few⟩ := Write.exists_compressedNat count enough
    rw [← moved]
    exact ⟨rfl, last, bytes, written, Nat.add_le_add_left few _⟩
  unfold Write.numberLimit at within
  unfold Read.compressedNat at h
  obtain ⟨first, c₁, one, h⟩ := yields_bind.mp h
  obtain ⟨found, rfl⟩ := yields_byte.mp one
  have firstInside := inside found
  have firstSmall := first.toNat_lt
  split at h
  case isTrue small =>
    obtain ⟨rfl, rfl⟩ := yields_pure.mp h
    exact within 1 rfl (by omega) (.inl ⟨UInt8.lt_iff_toNat_lt.mp small, rfl⟩)
  case isFalse =>
    split at h
    case isTrue =>
      obtain ⟨second, c₂, one, h⟩ := yields_bind.mp h
      obtain ⟨found, rfl⟩ := yields_byte.mp one
      have secondInside := inside found
      have secondSmall := second.toNat_lt
      obtain ⟨rfl, rfl⟩ := yields_pure.mp h
      simp only [Cursor.skip_data, Cursor.skip_position] at secondInside
      exact within 2 rfl (by omega) (.inr (.inl ⟨by omega, rfl⟩))
    case isFalse =>
      split at h
      case isTrue =>
        obtain ⟨second, c₂, one, h⟩ := yields_bind.mp h
        obtain ⟨-, rfl⟩ := yields_byte.mp one
        obtain ⟨third, c₃, one, h⟩ := yields_bind.mp h
        obtain ⟨-, rfl⟩ := yields_byte.mp one
        obtain ⟨fourth, c₄, one, h⟩ := yields_bind.mp h
        obtain ⟨found, rfl⟩ := yields_byte.mp one
        have fourthInside := inside found
        have secondSmall := second.toNat_lt
        have thirdSmall := third.toNat_lt
        have fourthSmall := fourth.toNat_lt
        obtain ⟨rfl, rfl⟩ := yields_pure.mp h
        simp only [Cursor.skip_data, Cursor.skip_position] at fourthInside
        exact within 4 rfl (by omega) (.inr (.inr ⟨by omega, rfl⟩))
      case isFalse => exact (yields_throw.mp h).elim

/-- Numbers of variable width have 29 bits. -/
theorem gives_compressedNat : Gives Read.compressedNat (· < Write.numberLimit) := fun _ _ _ h => by
  exact Write.defined_compressedNat_iff.mp (covers_compressedNat h).defined

/-- A number that is read keeps its value in 32 bits. -/
theorem Write.toNat_ofNat_lt {n : Nat} (small : n < numberLimit) :
    (UInt32.ofNat n).toNat < numberLimit := by
  unfold numberLimit at small ⊢
  rw [UInt32.toNat_ofNat']
  omega

theorem gives_length : Gives Read.length (· < Write.numberLimit) := fun _ _ _ h =>
  gives_compressedNat (yields_length.mp h).1

theorem gives_utf8 : Gives Read.utf8 fun text => (Write.utf8 text).Defined := by
  intro c text c' h
  obtain ⟨count, c₁, counted, h⟩ := yields_bind.mp h
  obtain ⟨start, c₂, -, h⟩ := yields_bind.mp h
  obtain ⟨bytes, c₃, taken, h⟩ := yields_bind.mp h
  rw [Write.defined_utf8_iff]
  cases known : String.fromUTF8? ⟨bytes.toArray⟩ with
  | none =>
    rw [known] at h
    exact (yields_throw.mp h).elim
  | some text =>
    rw [known] at h
    obtain ⟨rfl, -⟩ := yields_pure.mp h
    rw [toUTF8_of_fromUTF8? known, length_of_bytes taken]
    exact gives_length counted

theorem Gives.list {α : Type} {read : Read α} {P : α → Prop} (h : Gives read P) :
    Gives (Read.list read) fun values =>
      values.length < Write.numberLimit ∧ ∀ a ∈ values, P a := by
  intro c values c' yields
  obtain ⟨count, c₁, counted, yields⟩ := yields_bind.mp yields
  have length := length_of_times yields
  exact ⟨length ▸ gives_length counted, h.times count yields⟩

theorem gives_utf16 : Gives Read.utf16 fun text => (Write.utf16 text).Defined := by
  intro c text c' h
  obtain ⟨units, c₁, number, -, -, spelled⟩ := yields_utf16.mp h
  rw [Write.defined_utf16_iff, utf16Units_of_ofUtf16Units? spelled]
  exact gives_compressedNat number

end Interpose
