import Interpose.Bytes.Buffer
import Interpose.Proofs.Bytes.Reading

/-!
# Reading back what was written

What was written is read back as it was if a condition holds that only reads ask for, such as a limit
on nesting; if the condition fails, so does the read.

## Main definitions

* `TakesIf` — a read takes certain bytes and gives a value, just if a condition holds
* `TakesOr` — the same, and it is known how the read fails otherwise
* `EndsIf` — the same as `TakesIf` at the end of the data

## Main results

* `TakesIf.bind`, `TakesOr.bind` — reads in sequence
* `takesIf_iff` — a read that takes its bytes under a condition fails otherwise, in whatever way
* `takesOr_list`, `takesIf_list` — lists
* `takes_compressedNat` — numbers of variable width
* `takes_utf8`, `takes_utf16` — strings
-/

namespace Interpose

/-- In front of the given bytes a read succeeds just if a condition holds.  It then gives the given
value and takes just these bytes. -/
def TakesIf {α : Type} (P : Prop) (read : Read α) (bytes : List UInt8) (a : α) : Prop :=
  ∀ ⦃c : Cursor⦄ ⦃tail : List UInt8⦄, c.Faces (bytes ++ tail) →
    ∀ a' c', Yields read c a' c' ↔ P ∧ a' = a ∧ c' = c.skip bytes.length

/-- At the end of the data a read takes the given bytes just if a condition holds, and then gives the
given value. -/
def EndsIf {α : Type} (P : Prop) (read : Read α) (bytes : List UInt8) (a : α) : Prop :=
  ∀ ⦃c : Cursor⦄, c.Faces bytes →
    ∀ a' c', Yields read c a' c' ↔ P ∧ a' = a ∧ c' = c.skip bytes.length

/-- In front of the given bytes a read fails, with an error of the given kind. -/
def Refuses {α : Type} (kind : Error → Prop) (read : Read α) (bytes : List UInt8) : Prop :=
  ∀ ⦃c : Cursor⦄ ⦃tail : List UInt8⦄, c.Faces (bytes ++ tail) → ∃ e c', kind e ∧ Fails read c e c'

/-- In front of the given bytes a read gives the given value and takes just these bytes if a condition
holds.  Otherwise it fails, with an error of the given kind. -/
structure TakesOr {α : Type} (kind : Error → Prop) (P : Prop) (read : Read α) (bytes : List UInt8)
    (a : α) : Prop where
  takes : P → Takes read bytes a
  refuses : ¬ P → Refuses kind read bytes

section Sequences

variable {α β : Type} {x : Read α} {k : α → Read β} {u v bytes : List UInt8} {a : α} {b : β}
  {P Q : Prop} {kind : Error → Prop} {e : Error}

theorem TakesIf.takes (h : TakesIf P x bytes a) (holds : P) : Takes x bytes a :=
  fun _ _ faces => (h faces a _).mpr ⟨holds, rfl, rfl⟩

/-- A sequence fails where its first member does. -/
theorem Refuses.bind (h : Refuses kind x u) : Refuses kind (x >>= k) (u ++ v) := by
  intro c tail faces
  rw [List.append_assoc] at faces
  obtain ⟨e, c', known, fails⟩ := h faces
  exact ⟨e, c', known, fails_bind.mpr (.inl fails)⟩

/-- It fails as well where its first member has taken its bytes and the rest fails. -/
theorem Takes.bind_refuses (hx : Takes x u a) (hk : Refuses kind (k a) v) :
    Refuses kind (x >>= k) (u ++ v) := by
  intro c tail faces
  rw [List.append_assoc] at faces
  obtain ⟨e, c', known, fails⟩ := hk faces.skip
  exact ⟨e, c', known, fails_bind.mpr (.inr ⟨a, _, hx faces, fails⟩)⟩

theorem Takes.takesOr (h : Takes x bytes a) : TakesOr kind True x bytes a :=
  ⟨fun _ => h, fun none => absurd trivial none⟩

theorem TakesOr.congr (h : TakesOr kind P x bytes a) (same : P ↔ Q) : TakesOr kind Q x bytes a := by
  rwa [propext same] at h

theorem takesOr_throw (known : kind e) : TakesOr kind False (throw e : Read α) bytes a :=
  ⟨False.elim, fun _ c _ _ => ⟨e, c, known, fails_throw.mpr ⟨rfl, rfl⟩⟩⟩

theorem TakesOr.bind (hx : TakesOr kind P x u a) (hk : TakesOr kind Q (k a) v b) :
    TakesOr kind (P ∧ Q) (x >>= k) (u ++ v) b where
  takes := fun ⟨first, second⟩ => (hx.takes first).bind (hk.takes second)
  refuses fails := by
    by_cases first : P
    · exact (hx.takes first).bind_refuses (hk.refuses fun second => fails ⟨first, second⟩)
    · exact (hx.refuses first).bind

/-- What comes first may always succeed. -/
theorem Takes.bindOr (hx : Takes x u a) (hk : TakesOr kind Q (k a) v b) :
    TakesOr kind Q (x >>= k) (u ++ v) b :=
  (hx.takesOr.bind hk).congr (true_and Q).to_iff

theorem TakesOr.map (hx : TakesOr kind P x bytes a) (f : α → β) :
    TakesOr kind P (x >>= fun a => pure (f a)) bytes (f a) := by
  have both := hx.bind (k := fun a => pure (f a)) (takes_pure (f a)).takesOr
  rw [List.append_nil] at both
  exact both.congr (and_true P).to_iff

/-- What is read may depend on where the cursor is. -/
theorem TakesOr.position_bind {k : Nat → Read β} (h : ∀ p, TakesOr kind P (k p) bytes b) :
    TakesOr kind P (Read.position >>= k) bytes b where
  takes holds := fun c _ faces =>
    (yields_position.mpr ⟨rfl, rfl⟩).bind ((h c.position).takes holds faces)
  refuses none := fun c _ faces => by
    obtain ⟨e, c', known, fails⟩ := (h c.position).refuses none faces
    exact ⟨e, c', known, fails_bind.mpr (.inr ⟨_, c, yields_position.mpr ⟨rfl, rfl⟩, fails⟩)⟩

/-- A read that succeeds just if a condition holds fails otherwise, in whatever way. -/
theorem takesIf_iff : TakesIf P x bytes a ↔ TakesOr (fun _ => True) P x bytes a := by
  constructor
  · refine fun h => ⟨h.takes, fun none c tail faces => ?_⟩
    obtain ⟨a', c', yields⟩ | ⟨e, c', fails⟩ := yields_or_fails x c
    · exact absurd ((h faces a' c').mp yields).1 none
    · exact ⟨e, c', trivial, fails⟩
  · intro h c tail faces a' c'
    constructor
    · intro yields
      by_cases holds : P
      · obtain ⟨rfl, rfl⟩ := (h.takes holds faces).unique yields
        exact ⟨holds, rfl, rfl⟩
      · obtain ⟨e, c₁, -, fails⟩ := h.refuses holds faces
        exact absurd fails yields.not_fails
    · rintro ⟨holds, rfl, rfl⟩
      exact h.takes holds faces

/-- How a read fails may be left open. -/
theorem TakesOr.takesIf (h : TakesOr kind P x bytes a) : TakesIf P x bytes a := by
  refine takesIf_iff.mpr ⟨h.takes, fun none c tail faces => ?_⟩
  obtain ⟨e, c', -, fails⟩ := h.refuses none faces
  exact ⟨e, c', trivial, fails⟩

theorem Takes.takesIf (h : Takes x bytes a) : TakesIf True x bytes a :=
  takesIf_iff.mpr h.takesOr

theorem TakesIf.congr (h : TakesIf P x bytes a) (same : P ↔ Q) : TakesIf Q x bytes a := by
  rwa [propext same] at h

theorem TakesIf.bind (hx : TakesIf P x u a) (hk : TakesIf Q (k a) v b) :
    TakesIf (P ∧ Q) (x >>= k) (u ++ v) b :=
  takesIf_iff.mpr ((takesIf_iff.mp hx).bind (takesIf_iff.mp hk))

theorem Takes.bindIf (hx : Takes x u a) (hk : TakesIf Q (k a) v b) :
    TakesIf Q (x >>= k) (u ++ v) b :=
  takesIf_iff.mpr (hx.bindOr (takesIf_iff.mp hk))

theorem TakesIf.map (hx : TakesIf P x bytes a) (f : α → β) :
    TakesIf P (x >>= fun a => pure (f a)) bytes (f a) :=
  takesIf_iff.mpr ((takesIf_iff.mp hx).map f)

theorem TakesIf.position_bind {k : Nat → Read β} (h : ∀ p, TakesIf P (k p) bytes b) :
    TakesIf P (Read.position >>= k) bytes b :=
  takesIf_iff.mpr (.position_bind fun p => takesIf_iff.mp (h p))

theorem EndsIf.congr (h : EndsIf P x bytes a) (same : P ↔ Q) : EndsIf Q x bytes a := by
  rwa [propext same] at h

/-- What comes last may rely on the condition of what comes first. -/
theorem TakesIf.bindEnd (hx : TakesIf P x u a) (hk : P → EndsIf Q (k a) v b) :
    EndsIf (P ∧ Q) (x >>= k) (u ++ v) b := by
  intro c faces b' c'
  rw [yields_bind, List.length_append, ← Cursor.skip_skip, and_assoc]
  constructor
  · rintro ⟨a', c₁, first, second⟩
    obtain ⟨holds, rfl, rfl⟩ := (hx faces a' c₁).mp first
    exact ⟨holds, (hk holds faces.skip b' c').mp second⟩
  · rintro ⟨holds, second⟩
    exact ⟨a, _, (hx faces a _).mpr ⟨holds, rfl, rfl⟩, (hk holds faces.skip b' c').mpr second⟩

theorem Takes.bindEnd (hx : Takes x u a) (hk : EndsIf Q (k a) v b) :
    EndsIf Q (x >>= k) (u ++ v) b :=
  (hx.takesIf.bindEnd fun _ => hk).congr (true_and Q).to_iff

end Sequences

/-- A number of variable width is read back. -/
theorem takes_compressedNat {n : Nat} {bytes : List UInt8} (h : Write.compressedNat n = .ok bytes) :
    Takes Read.compressedNat bytes n := by
  unfold Write.compressedNat at h
  unfold Read.compressedNat
  -- The first byte tells the width by its upper bits and holds the upper bits of the number below
  -- them, so there is one case for each width.
  split at h
  case isTrue small =>
    cases h
    have first : (UInt8.ofNat n).toNat = n := by
      rw [UInt8.toNat_ofNat']
      omega
    refine (takes_byte (UInt8.ofNat n)).bind (v := []) ?_
    rw [if_pos (by rw [UInt8.lt_iff_toNat_lt, first]; exact small), first]
    exact takes_pure n
  case isFalse =>
    split at h
    case isTrue medium =>
      cases h
      have first : (UInt8.ofNat (0x80 + n / 0x100)).toNat = 0x80 + n / 0x100 := by
        rw [UInt8.toNat_ofNat']
        omega
      refine (takes_byte _).bind (v := [UInt8.ofNat n]) ?_
      have value : (0x80 + n / 0x100) % 64 * 256 + (UInt8.ofNat n).toNat = n := by
        rw [UInt8.toNat_ofNat']
        omega
      have second := (takes_byte (UInt8.ofNat n)).map fun second : UInt8 =>
        (0x80 + n / 0x100) % 64 * 256 + second.toNat
      rw [if_neg (by rw [UInt8.lt_iff_toNat_lt, first]; simp),
        if_pos (by rw [UInt8.lt_iff_toNat_lt, first]; simp; omega), first]
      rwa [value] at second
    case isFalse =>
      split at h
      case isTrue large =>
        cases h
        have first : (UInt8.ofNat (0xC0 + n / 0x1000000)).toNat = 0xC0 + n / 0x1000000 := by
          rw [UInt8.toNat_ofNat']
          omega
        have value : (0xC0 + n / 0x1000000) % 32 * 0x1000000 +
            (UInt8.ofNat (n / 0x10000)).toNat * 0x10000 + (UInt8.ofNat (n / 0x100)).toNat * 0x100 +
            (UInt8.ofNat n).toNat = n := by
          simp only [UInt8.toNat_ofNat']
          omega
        refine (takes_byte _).bind (v := [_, _, _]) ?_
        rw [if_neg (by rw [UInt8.lt_iff_toNat_lt, first]; simp; omega),
          if_neg (by rw [UInt8.lt_iff_toNat_lt, first]; simp),
          if_pos (by rw [UInt8.lt_iff_toNat_lt, first]; simp; omega), first]
        refine (takes_byte _).bind (v := [_, _]) ((takes_byte _).bind (v := [_]) ?_)
        have fourth := (takes_byte (UInt8.ofNat n)).map fun fourth : UInt8 =>
          (0xC0 + n / 0x1000000) % 32 * 0x1000000 + (UInt8.ofNat (n / 0x10000)).toNat * 0x10000 +
            (UInt8.ofNat (n / 0x100)).toNat * 0x100 + fourth.toNat
        rwa [value] at fourth
      case isFalse => cases h

theorem Write.compressedNat_ne_nil {n : Nat} {bytes : List UInt8}
    (h : Write.compressedNat n = .ok bytes) : bytes ≠ [] := by
  rintro rfl
  unfold Write.compressedNat at h
  split at h
  · cases h
  · split at h
    · cases h
    · split at h <;> cases h

theorem compressedNat_of_length {n : Nat} {bytes : List UInt8} (h : Write.length n = .ok bytes) :
    Write.compressedNat n = .ok bytes := by
  unfold Write.length at h
  split at h
  case isTrue => exact h
  case isFalse => cases h

/-- A length is read back if so many bytes follow. -/
theorem takesOr_length_bind {β : Type} {k : Nat → Read β} {n : Nat} {count bytes : List UInt8} {b : β}
    {kind : Error → Prop} {P : Prop} (wrote : Write.length n = .ok count) (enough : n ≤ bytes.length)
    (h : TakesOr kind P (k n) bytes b) : TakesOr kind P (Read.length >>= k) (count ++ bytes) b := by
  have number := takes_compressedNat (compressedNat_of_length wrote)
  -- A length is refused if not so many bytes are left, so those behind it take part.
  have counted {c : Cursor} {tail : List UInt8} (faces : c.Faces (count ++ (bytes ++ tail))) :
      Yields Read.length c n (c.skip count.length) := by
    have left := faces.skip.remaining
    rw [List.length_append] at left
    exact yields_length.mpr ⟨number faces, by omega⟩
  constructor
  · intro holds c tail faces
    rw [List.append_assoc] at faces
    rw [List.length_append, ← Cursor.skip_skip]
    exact (counted faces).bind (h.takes holds faces.skip)
  · intro none c tail faces
    rw [List.append_assoc] at faces
    obtain ⟨e, c', known, fails⟩ := h.refuses none faces.skip
    exact ⟨e, c', known, fails_bind.mpr (.inr ⟨n, _, counted faces, fails⟩)⟩

theorem takesIf_length_bind {β : Type} {k : Nat → Read β} {n : Nat} {count bytes : List UInt8} {b : β}
    {P : Prop} (wrote : Write.length n = .ok count) (enough : n ≤ bytes.length)
    (h : TakesIf P (k n) bytes b) : TakesIf P (Read.length >>= k) (count ++ bytes) b :=
  (takesOr_length_bind wrote enough (takesIf_iff.mp h)).takesIf

section Lists

variable {α : Type} {read : Read α} {write : α → Write} {values : List α} {bytes : List UInt8}
  {P : α → Prop} {kind : Error → Prop}

/-- Values that are read back one by one are read back one behind the other. -/
theorem takesOr_times
    (h : ∀ a ∈ values, ∀ bytes, write a = .ok bytes → TakesOr kind (P a) read bytes a)
    (written : Write.concat write values = .ok bytes) :
    TakesOr kind (∀ a ∈ values, P a) (Read.times read values.length) bytes values := by
  induction values generalizing bytes with
  | nil =>
    cases written
    exact (takes_pure []).takesOr.congr (by simp)
  | cons a rest ih =>
    obtain ⟨first, wroteFirst, written⟩ := bind_eq_ok_iff.mp written
    obtain ⟨others, wroteOthers, written⟩ := bind_eq_ok_iff.mp written
    cases written
    obtain ⟨here, later⟩ := List.forall_mem_cons.mp h
    exact ((here first wroteFirst).bind ((ih later wroteOthers).map _)).congr
      List.forall_mem_cons.symm

theorem takesIf_times (h : ∀ a ∈ values, ∀ bytes, write a = .ok bytes → TakesIf (P a) read bytes a)
    (written : Write.concat write values = .ok bytes) :
    TakesIf (∀ a ∈ values, P a) (Read.times read values.length) bytes values :=
  (takesOr_times (fun a member bytes wrote => takesIf_iff.mp (h a member bytes wrote))
    written).takesIf

/-- Values that take some bytes each are no more than their bytes. -/
theorem length_le_of_concat (some : ∀ a ∈ values, ∀ bytes, write a = .ok bytes → bytes ≠ [])
    (written : Write.concat write values = .ok bytes) : values.length ≤ bytes.length := by
  induction values generalizing bytes with
  | nil => exact Nat.zero_le _
  | cons a rest ih =>
    obtain ⟨first, wroteFirst, written⟩ := bind_eq_ok_iff.mp written
    obtain ⟨others, wroteOthers, written⟩ := bind_eq_ok_iff.mp written
    cases written
    obtain ⟨here, later⟩ := List.forall_mem_cons.mp some
    have positive := List.length_pos_iff.mpr (here first wroteFirst)
    have := ih later wroteOthers
    rw [List.length_cons, List.length_append]
    omega

/-- So are lists with their number in front. -/
theorem takesOr_list
    (h : ∀ a ∈ values, ∀ bytes, write a = .ok bytes → TakesOr kind (P a) read bytes a)
    (some : ∀ a ∈ values, ∀ bytes, write a = .ok bytes → bytes ≠ [])
    (written : Write.list write values = .ok bytes) :
    TakesOr kind (∀ a ∈ values, P a) (Read.list read) bytes values := by
  obtain ⟨count, wroteCount, written⟩ := bind_eq_ok_iff.mp written
  obtain ⟨contents, wroteContents, written⟩ := bind_eq_ok_iff.mp written
  cases written
  exact takesOr_length_bind wroteCount (length_le_of_concat some wroteContents)
    (takesOr_times h wroteContents)

theorem takesIf_list (h : ∀ a ∈ values, ∀ bytes, write a = .ok bytes → TakesIf (P a) read bytes a)
    (some : ∀ a ∈ values, ∀ bytes, write a = .ok bytes → bytes ≠ [])
    (written : Write.list write values = .ok bytes) :
    TakesIf (∀ a ∈ values, P a) (Read.list read) bytes values :=
  (takesOr_list (fun a member bytes wrote => takesIf_iff.mp (h a member bytes wrote)) some
    written).takesIf

/-- Values that always have a written form are written one behind the other. -/
theorem Write.concat_map {f : α → α} (same : ∀ a, write (f a) = write a) (values : List α) :
    Write.concat write (values.map f) = Write.concat write values := by
  induction values with
  | nil => rfl
  | cons a rest ih => rw [List.map_cons, Write.concat, Write.concat, same, ih]

/-- A list stays as it is written if its members do. -/
theorem Write.list_map {f : α → α} (same : ∀ a, write (f a) = write a) (values : List α) :
    Write.list write (values.map f) = Write.list write values := by
  rw [Write.list, Write.list, List.length_map, Write.concat_map same]

theorem Write.concat_pure (write : α → Bytes) (values : List α) :
    Write.concat (fun a => pure (write a)) values = .ok (values.flatMap write) := by
  induction values with
  | nil => rfl
  | cons a rest ih =>
    rw [Write.concat, ih]
    rfl

end Lists

section Text

variable {text : String} {bytes : List UInt8}

/-- Text is read back as it was. -/
theorem takes_utf8 (h : Write.utf8 text = .ok bytes) : Takes Read.utf8 bytes text := by
  obtain ⟨count, wroteCount, written⟩ := bind_eq_ok_iff.mp h
  cases written
  have known : String.fromUTF8? ⟨text.toUTF8.data.toList.toArray⟩ = some text :=
    dif_pos text.isValidUTF8
  refine (takesIf_length_bind wroteCount (Nat.le_refl _) (.position_bind fun start => ?_)).takes
    trivial
  conv => arg 3; rw [← List.append_nil text.toUTF8.data.toList]
  refine ((takes_bytes text.toUTF8.data.toList).bind ?_).takesIf
  rw [known]
  exact takes_pure text

/-- The units of a character spell it. -/
theorem charsOfUnits?_append (c : Char) (rest : List UInt16) :
    charsOfUnits? (charUnits c ++ rest) = (charsOfUnits? rest).map (c :: ·) := by
  have valid := c.valid
  unfold charUnits
  split
  case isTrue small =>
    have unit : (UInt16.ofNat c.toNat).toNat = c.toNat := by
      rw [UInt16.toNat_ofNat']
      omega
    -- Characters of one unit are no surrogates, so the unit is not taken for half of a pair.
    have apart : c.toNat < 0xD800 ∨ 0xDFFF < c.toNat := by
      rcases valid with low | high
      · exact .inl low
      · exact .inr high.1
    have low : isLowSurrogate (UInt16.ofNat c.toNat) = false := by
      simp only [isLowSurrogate, unit, Bool.and_eq_false_iff, decide_eq_false_iff_not]
      omega
    have high : isHighSurrogate (UInt16.ofNat c.toNat) = false := by
      simp only [isHighSurrogate, unit, Bool.and_eq_false_iff, decide_eq_false_iff_not]
      omega
    rw [List.singleton_append, charsOfUnits?.eq_def]
    simp only [low, high, unit, Char.ofNat_toNat, Bool.false_eq_true, if_false]
  case isFalse large =>
    have below : c.toNat < 0x110000 := by
      rcases valid with low | high
      · exact Nat.lt_trans low (by decide)
      · exact high.2
    obtain ⟨above, here⟩ := Nat.exists_eq_add_of_le (Nat.not_lt.mp large)
    -- The distance from the first character of two units is cut in two halves of ten bits.
    have first : (UInt16.ofNat (0xD800 + above / 0x400)).toNat = 0xD800 + above / 0x400 := by
      rw [UInt16.toNat_ofNat']
      omega
    have second : (UInt16.ofNat (0xDC00 + above % 0x400)).toNat = 0xDC00 + above % 0x400 := by
      rw [UInt16.toNat_ofNat']
      omega
    have firstLow : isLowSurrogate (UInt16.ofNat (0xD800 + above / 0x400)) = false := by
      simp only [isLowSurrogate, first, Bool.and_eq_false_iff, decide_eq_false_iff_not]
      omega
    have firstHigh : isHighSurrogate (UInt16.ofNat (0xD800 + above / 0x400)) = true := by
      simp only [isHighSurrogate, first, Bool.and_eq_true, decide_eq_true_eq]
      omega
    have secondLow : isLowSurrogate (UInt16.ofNat (0xDC00 + above % 0x400)) = true := by
      simp only [isLowSurrogate, second, Bool.and_eq_true, decide_eq_true_eq]
      omega
    have point : 0x10000 + (0xD800 + above / 0x400 - 0xD800) * 0x400 +
        (0xDC00 + above % 0x400 - 0xDC00) = c.toNat := by omega
    have units : c.toNat - 0x10000 = above := by omega
    rw [units, List.cons_append, List.singleton_append, charsOfUnits?.eq_def]
    simp only [firstLow, firstHigh, secondLow, first, second, point, Char.ofNat_toNat,
      Bool.false_eq_true, if_false, if_true]

/-- The units of a string spell it. -/
theorem ofUtf16Units?_utf16Units (text : String) : ofUtf16Units? (utf16Units text) = some text := by
  have chars (list : List Char) : charsOfUnits? (list.flatMap charUnits) = some list := by
    induction list with
    | nil => rfl
    | cons c rest ih => rw [List.flatMap_cons, charsOfUnits?_append, ih, Option.map_some]
  rw [ofUtf16Units?, utf16Units, chars, Option.map_some, String.ofList_toList]

theorem Write.utf16_ne_nil (h : Write.utf16 text = .ok bytes) : bytes ≠ [] := by
  obtain ⟨count, wroteCount, h⟩ := bind_eq_ok_iff.mp h
  cases h
  exact List.append_ne_nil_of_left_ne_nil
    (Write.compressedNat_ne_nil (compressedNat_of_length wroteCount)) _

/-- Text is read back from its units. -/
theorem takes_utf16 (h : Write.utf16 text = .ok bytes) : Takes Read.utf16 bytes text := by
  obtain ⟨count, wroteCount, written⟩ := bind_eq_ok_iff.mp h
  cases written
  have number := takes_compressedNat (compressedNat_of_length wroteCount)
  have units : Takes (Read.times Read.word16 (utf16Units text).length)
      ((utf16Units text).flatMap fun unit => littleEndian 2 unit.toNat) (utf16Units text) := by
    refine (takesIf_times (P := fun _ => True) (fun unit _ bytes written => ?_) (Write.concat_pure
      (fun unit : UInt16 => littleEndian 2 unit.toNat) (utf16Units text))).takes fun _ _ => trivial
    cases written
    exact (takes_word16 unit).takesIf
  intro c tail faces
  rw [List.append_assoc] at faces
  -- The number counts units and not bytes, so it is not read as a length.
  have left := faces.skip.remaining
  rw [List.length_append, length_flatMap_littleEndian] at left
  rw [List.length_append, ← Cursor.skip_skip]
  exact yields_utf16.mpr ⟨_, _, number faces, by omega, units faces.skip,
    ofUtf16Units?_utf16Units text⟩

end Text

end Interpose
