import Interpose.Proofs.Bytes.Reading
import Interpose.Proofs.Ty.Codec

/-!
# Reads and more data

A read that succeeds goes on to succeed, with the same value and in the same place, if there is more
data behind what there was.  Reads that ask how much data is left are no exception: they only ever
ask for enough.

## Main definitions

* `Cursor.append` — the cursor with more data
* `Persists` — a read does the same if there is more data
* `Closes` — a read succeeds with its data but not with more

## Main results

* `Persists.bind`, `Closes.bind` — reads in sequence
* `persists_utf8`, `Persists.list`, `persists_utf16` — values with their length in front
* `Ty.persists_decode` — types
-/

namespace Interpose

namespace Cursor

/-- The cursor with more data behind what there was. -/
def append (c : Cursor) (tail : List UInt8) : Cursor := { c with data := c.data ++ tail.toArray }

/-- The position is not behind the end. -/
def Inside (c : Cursor) : Prop := c.position ≤ c.data.size

variable {c : Cursor} {tail : List UInt8}

@[simp] theorem append_position : (c.append tail).position = c.position := rfl

@[simp] theorem append_size : (c.append tail).data.size = c.data.size + tail.length := by
  simp [append]

theorem remaining_append : c.remaining ≤ (c.append tail).remaining := by
  simp only [remaining, append_size, append_position]
  omega

theorem hasMore_append (inside : c.Inside) (some : tail ≠ []) : (c.append tail).hasMore = true := by
  have positive := List.length_pos_iff.mpr some
  unfold Inside at inside
  simp only [hasMore, append_size, append_position, decide_eq_true_eq]
  omega

end Cursor

/-- If a read succeeds, it does the same if there is more data, and it stays inside its data. -/
def Persists {α : Type} (read : Read α) : Prop :=
  ∀ ⦃c : Cursor⦄ ⦃a : α⦄ ⦃c' : Cursor⦄, c.Inside → Yields read c a c' →
    c'.Inside ∧ ∀ tail, Yields read (c.append tail) a (c'.append tail)

/-- If a read succeeds, it does not if there is more data. -/
def Closes {α : Type} (read : Read α) : Prop :=
  ∀ ⦃c : Cursor⦄ ⦃a : α⦄ ⦃c' : Cursor⦄, c.Inside → Yields read c a c' →
    ∀ tail, tail ≠ [] → ∀ a' c'', ¬ Yields read (c.append tail) a' c''

section Sequences

variable {α β : Type} {x : Read α} {k : α → Read β} {c : Prop} [Decidable c] {read read' : Read α}

theorem persists_pure (a : α) : Persists (pure a : Read α) := by
  intro c a' c' inside h
  obtain ⟨rfl, rfl⟩ := yields_pure.mp h
  exact ⟨inside, fun tail => yields_pure.mpr ⟨rfl, rfl⟩⟩

theorem persists_liftM (result : Except Error α) : Persists (liftM result : Read α) := by
  intro c a c' inside h
  obtain ⟨rfl, rfl⟩ := yields_liftM.mp h
  exact ⟨inside, fun tail => yields_liftM.mpr ⟨rfl, rfl⟩⟩

/-- What fails anyway persists. -/
theorem persists_throw (e : Error) : Persists (throw e : Read α) := fun _ _ _ _ h =>
  (yields_throw.mp h).elim

theorem persists_throw_bind (e : Error) (k : α → Read β) : Persists ((throw e : Read α) >>= k) :=
  fun _ _ _ _ h => (yields_throw_bind.mp h).elim

theorem Persists.bind (hx : Persists x) (hk : ∀ a, Persists (k a)) : Persists (x >>= k) := by
  intro c b c' inside h
  obtain ⟨a, c₁, first, second⟩ := yields_bind.mp h
  obtain ⟨inside, first⟩ := hx inside first
  obtain ⟨inside, second⟩ := hk a inside second
  exact ⟨inside, fun tail => (first tail).bind (second tail)⟩

theorem Persists.map (hx : Persists x) (f : α → β) : Persists (f <$> x) := by
  rw [map_eq_pure_bind]
  exact hx.bind fun a => persists_pure (f a)

theorem Persists.ite (h : c → Persists read) (h' : ¬ c → Persists read') :
    Persists (if c then read else read') := by
  split
  case isTrue holds => exact h holds
  case isFalse fails => exact h' fails

/-- A sequence succeeds with no more data than it needs if its last member does. -/
theorem Closes.bind (hx : Persists x) (hk : ∀ a, Closes (k a)) : Closes (x >>= k) := by
  intro c b c' inside h tail some b' c'' again
  obtain ⟨a, c₁, first, second⟩ := yields_bind.mp h
  obtain ⟨a', c₂, first', second'⟩ := yields_bind.mp again
  obtain ⟨inside, first⟩ := hx inside first
  -- The first member has taken the same bytes in both runs, so the last one starts at one place.
  obtain ⟨rfl, rfl⟩ := (first tail).unique first'
  exact hk a inside second tail some b' c'' second'

theorem Closes.ite {read read' : Read α} (h : c → Closes read) (h' : ¬ c → Closes read') :
    Closes (if c then read else read') := by
  split
  case isTrue holds => exact h holds
  case isFalse fails => exact h' fails

theorem closes_throw_bind (e : Error) (k : α → Read β) : Closes ((throw e : Read α) >>= k) :=
  fun _ _ _ _ h => (yields_throw_bind.mp h).elim

end Sequences

section Numbers

theorem persists_position : Persists Read.position := by
  intro c n c' inside h
  obtain ⟨rfl, rfl⟩ := yields_position.mp h
  exact ⟨inside, fun tail => yields_position.mpr ⟨rfl, rfl⟩⟩

theorem persists_byte : Persists Read.byte := by
  intro c b c' inside h
  unfold Read.byte at h ⊢
  rw [yields_get_bind] at h
  cases found : c.data[c.position]? with
  | none =>
    rw [found] at h
    exact (yields_throw.mp h).elim
  | some b =>
    rw [found] at h
    obtain ⟨bound, -⟩ := Array.getElem?_eq_some_iff.mp found
    simp only [yields_set_bind, yields_pure] at h
    obtain ⟨rfl, rfl⟩ := h
    refine ⟨bound, fun tail => ?_⟩
    have here : (c.append tail).data[(c.append tail).position]? = some b :=
      (Array.getElem?_append_left bound).trans found
    rw [yields_get_bind, here]
    simp only [yields_set_bind, yields_pure, true_and]
    rfl

theorem persists_bytes (count : Nat) : Persists (Read.bytes count) := by
  intro c taken c' inside h
  unfold Read.bytes at h ⊢
  rw [yields_get_bind, yields_guard, yields_set_bind, yields_pure] at h
  obtain ⟨enough, rfl, rfl⟩ := h
  have within : c.position + count ≤ c.data.toList.length := by
    rw [Array.length_toList]
    omega
  refine ⟨Nat.not_lt.mp enough, fun tail => ?_⟩
  rw [yields_get_bind, yields_guard, yields_set_bind, yields_pure, Cursor.append_size,
    Cursor.append_position]
  refine ⟨by omega, ?_, rfl⟩
  simp only [Cursor.append, Array.toList_extract, Array.toList_append, List.extract_eq_take_drop,
    Nat.add_sub_cancel_left]
  -- All that is taken is in front of what was added.
  rw [List.drop_append_of_le_length (by omega),
    List.take_append_of_le_length (by rw [List.length_drop]; omega)]

theorem persists_word (width : Nat) : Persists (Read.word width) :=
  (persists_bytes width).bind fun _ => persists_pure _

theorem persists_word16 : Persists Read.word16 := (persists_word 2).bind fun _ => persists_pure _

theorem persists_word32 : Persists Read.word32 := (persists_word 4).bind fun _ => persists_pure _

theorem persists_token : Persists Read.token := persists_word32.bind fun _ => persists_pure _

theorem persists_compressedNat : Persists Read.compressedNat := by
  refine persists_byte.bind fun first => .ite (fun _ => persists_pure _) fun _ => .ite ?_ fun _ =>
    .ite ?_ fun _ => persists_throw _
  · exact fun _ => persists_byte.bind fun _ => persists_pure _
  · exact fun _ => persists_byte.bind fun _ => persists_byte.bind fun _ => persists_byte.bind
      fun _ => persists_pure _

/-- There are not fewer bytes left if there is more data. -/
theorem persists_length : Persists Read.length := by
  intro c n c' inside h
  obtain ⟨number, enough⟩ := yields_length.mp h
  obtain ⟨inside, number⟩ := persists_compressedNat inside number
  exact ⟨inside, fun tail => yields_length.mpr
    ⟨number tail, Nat.le_trans enough Cursor.remaining_append⟩⟩

end Numbers

section Values

variable {α : Type} {read : Read α}

theorem persists_utf8 : Persists Read.utf8 := by
  refine persists_length.bind fun count => persists_position.bind fun start =>
    (persists_bytes count).bind fun bytes => ?_
  cases String.fromUTF8? ⟨bytes.toArray⟩ with
  | some text => exact persists_pure text
  | none => exact persists_throw _

theorem Persists.times (h : Persists read) (count : Nat) : Persists (Read.times read count) := by
  induction count with
  | zero => exact persists_pure []
  | succ count ih => exact h.bind fun _ => ih.bind fun _ => persists_pure _

theorem Persists.list (h : Persists read) : Persists (Read.list read) :=
  persists_length.bind h.times

theorem persists_utf16 : Persists Read.utf16 := by
  intro c text c' inside h
  obtain ⟨units, c₁, number, enough, taken, spelled⟩ := yields_utf16.mp h
  obtain ⟨inside, number⟩ := persists_compressedNat inside number
  obtain ⟨inside, taken⟩ := persists_word16.times _ inside taken
  exact ⟨inside, fun tail => yields_utf16.mpr ⟨units, _, number tail,
    Nat.le_trans enough Cursor.remaining_append, taken tail, spelled⟩⟩

theorem Ty.persists_decodeLevels (levels : Nat) : Persists (decodeLevels levels) := by
  induction levels with
  | zero => exact persists_throw _
  | succ levels ih =>
    refine persists_position.bind fun offset => persists_byte.bind fun element => ?_
    cases Builtin.ofElement? element with
    | some type => exact persists_pure _
    | none =>
      -- The element bytes in the order in which they are compared.
      exact .ite (fun _ => persists_utf8.bind fun _ => persists_pure _) fun _ =>
        .ite (fun _ => persists_utf8.bind fun _ => persists_pure _) fun _ =>
        .ite (fun _ => ih.bind fun _ => ih.list.bind fun _ => persists_pure _) fun _ =>
        .ite (fun _ => persists_compressedNat.bind fun _ => persists_pure _) fun _ =>
        .ite (fun _ => persists_compressedNat.bind fun _ => persists_pure _) fun _ =>
        .ite (fun _ => ih.bind fun _ => persists_pure _) fun _ =>
        .ite (fun _ => ih.bind fun _ => persists_pure _) fun _ => persists_throw _

theorem Ty.persists_decode : Persists decode := persists_decodeLevels _

theorem Ty.persists_decodeList : Persists decodeList := persists_decode.list

end Values

end Interpose
