import Interpose.Proofs.Bytes.Persistence

/-!
# Where calls leave a cursor

A cursor never leaves its data, whatever calls are made on it and whether they succeed.  A read that
fails part of the way has moved the cursor, but never back; and a call that says how far to move is
taken at its word.  There is one exception: advancing adds the step to the position before it looks
for the end, and a sum that no machine word holds starts again at zero, which is always inside.

## Main definitions

* `Cursor.Reaches` — a cursor is further on in the same data
* `Read.Forward` — whatever comes of a read, it leaves the cursor further on
* `CursorCall` — the calls on a cursor, and `CursorCall.Overruns` — the exception
* `CursorCall.MovesAsTold` — a call moves the cursor as its caller may expect

## Main results

* `forward_compressedNat`, `forward_utf8`, `forward_utf16`, … — reads never go back
* `CursorCall.stays` — no call leaves the data
* `CursorCall.movesAsTold_iff` — after any calls, a call moves the cursor as expected unless it is the
  exception, which always takes the cursor back
-/

namespace Interpose

/-- A cursor is in the same data, inside of it, and not in front of where it was. -/
structure Cursor.Reaches (c c' : Cursor) : Prop where
  data : c'.data = c.data
  forward : c.position ≤ c'.position
  inside : c'.Inside

theorem Cursor.Inside.reaches {c : Cursor} (h : c.Inside) : c.Reaches c :=
  ⟨rfl, Nat.le_refl _, h⟩

theorem Cursor.Reaches.trans {c c₁ c' : Cursor} (h : c.Reaches c₁) (h' : c₁.Reaches c') :
    c.Reaches c' :=
  ⟨h'.data.trans h.data, Nat.le_trans h.forward h'.forward, h'.inside⟩

theorem Cursor.Reaches.stays {c c' : Cursor} (h : c.Reaches c') : c'.data = c.data ∧ c'.Inside :=
  ⟨h.data, h.inside⟩

/-- Whatever comes of the read, it leaves the cursor where it was or further on in its data. -/
structure Read.Forward {α : Type} (read : Read α) : Prop where
  yields : ∀ ⦃c : Cursor⦄ ⦃a : α⦄ ⦃c' : Cursor⦄, c.Inside → Yields read c a c' → c.Reaches c'
  fails : ∀ ⦃c : Cursor⦄ ⦃e : Error⦄ ⦃c' : Cursor⦄, c.Inside → Fails read c e c' → c.Reaches c'

section Reads

variable {α β : Type} {x : Read α} {k : α → Read β} {p : Prop} [Decidable p] {read read' : Read α}

theorem forward_pure (a : α) : Read.Forward (pure a) where
  yields _ _ _ inside h := (yields_pure.mp h).2 ▸ inside.reaches
  fails _ _ _ _ h := absurd h not_fails_pure

theorem forward_throw (e : Error) : Read.Forward (throw e : Read α) where
  yields _ _ _ _ h := (yields_throw.mp h).elim
  fails _ _ _ inside h := (fails_throw.mp h).2 ▸ inside.reaches

/-- A sequence that fails in its first member is left where that leaves it. -/
theorem Read.Forward.bind (hx : x.Forward) (hk : ∀ a, (k a).Forward) : Read.Forward (x >>= k) where
  yields _ _ _ inside h := by
    obtain ⟨a, c₁, first, second⟩ := yields_bind.mp h
    have reached := hx.yields inside first
    exact reached.trans ((hk a).yields reached.inside second)
  fails _ _ _ inside h := by
    obtain first | ⟨a, c₁, first, second⟩ := fails_bind.mp h
    · exact hx.fails inside first
    · have reached := hx.yields inside first
      exact reached.trans ((hk a).fails reached.inside second)

theorem Read.Forward.ite (h : p → read.Forward) (h' : ¬ p → read'.Forward) :
    Read.Forward (if p then read else read') := by
  split
  case isTrue holds => exact h holds
  case isFalse fails => exact h' fails

/-- A read may start by looking at the cursor. -/
theorem forward_get_bind {k : Cursor → Read α}
    (yields : ∀ ⦃c a c'⦄, c.Inside → Yields (k c) c a c' → c.Reaches c')
    (fails : ∀ ⦃c e c'⦄, c.Inside → Fails (k c) c e c' → c = c') : Read.Forward (get >>= k) where
  yields _ _ _ inside h := yields inside (yields_get_bind.mp h)
  fails _ _ _ inside h := fails inside (fails_get_bind.mp h) ▸ inside.reaches

theorem forward_position : Read.position.Forward :=
  forward_get_bind (fun _ _ _ inside h => (yields_pure.mp h).2 ▸ inside.reaches)
    fun _ _ _ _ h => absurd h not_fails_pure

theorem forward_remaining : Read.remaining.Forward :=
  forward_get_bind (fun _ _ _ inside h => (yields_pure.mp h).2 ▸ inside.reaches)
    fun _ _ _ _ h => absurd h not_fails_pure

theorem forward_byte : Read.byte.Forward where
  yields _ _ _ _ h := by
    obtain ⟨found, rfl⟩ := yields_byte.mp h
    exact ⟨rfl, Nat.le_succ _, (Array.getElem?_eq_some_iff.mp found).1⟩
  fails c _ _ inside h := by
    unfold Read.byte at h
    rw [fails_get_bind] at h
    cases found : c.data[c.position]? with
    | none =>
      rw [found] at h
      exact (fails_throw.mp h).2 ▸ inside.reaches
    | some b =>
      rw [found] at h
      cases h

/-- So many bytes are taken, or none. -/
theorem yields_bytes {count : Nat} {taken : List UInt8} {c c' : Cursor}
    (h : Yields (Read.bytes count) c taken c') :
    c.position + count ≤ c.data.size ∧ c.skip count = c' := by
  unfold Read.bytes at h
  rw [yields_get_bind, yields_guard, yields_set_bind, yields_pure] at h
  exact ⟨Nat.not_lt.mp h.1, h.2.2⟩

/-- A read that can only fail before it moves the cursor leaves it where it was. -/
theorem eq_of_fails_guard {check : Cursor → Prop} [∀ s, Decidable (check s)] {raised : Error}
    {others : Cursor → Unit → Read α} {move : Cursor → Read α} {c c' : Cursor} {e : Error}
    (moves : ∀ s s' e, ¬ Fails (move s) s e s')
    (h : Fails (get >>= fun s => if check s then throw raised >>= others s else move s) c e c') :
    c = c' := by
  rw [fails_get_bind] at h
  obtain ⟨-, -, same⟩ | ⟨-, h⟩ := fails_guard.mp h
  · exact same
  · exact absurd h (moves _ _ _)

theorem fails_bytes {count : Nat} {e : Error} {c c' : Cursor}
    (h : Fails (Read.bytes count) c e c') : c = c' := by
  refine eq_of_fails_guard (fun s s' e moved => ?_) h
  cases moved

theorem forward_bytes (count : Nat) : (Read.bytes count).Forward where
  yields _ _ _ _ h := by
    obtain ⟨enough, rfl⟩ := yields_bytes h
    exact ⟨rfl, Nat.le_add_right _ _, enough⟩
  fails _ _ _ inside h := fails_bytes h ▸ inside.reaches

theorem forward_word (width : Nat) : (Read.word width).Forward :=
  (forward_bytes width).bind fun _ => forward_pure _

theorem forward_word16 : Read.word16.Forward := (forward_word 2).bind fun _ => forward_pure _

theorem forward_word32 : Read.word32.Forward := (forward_word 4).bind fun _ => forward_pure _

theorem forward_word64 : Read.word64.Forward := (forward_word 8).bind fun _ => forward_pure _

theorem forward_token : Read.token.Forward := forward_word32.bind fun _ => forward_pure _

theorem forward_compressedNat : Read.compressedNat.Forward := by
  refine forward_byte.bind fun first => .ite (fun _ => forward_pure _) fun _ => .ite ?_ fun _ =>
    .ite ?_ fun _ => forward_throw _
  · exact fun _ => forward_byte.bind fun _ => forward_pure _
  · exact fun _ => forward_byte.bind fun _ => forward_byte.bind fun _ => forward_byte.bind
      fun _ => forward_pure _

theorem forward_compressedInt : Read.compressedInt.Forward :=
  forward_compressedNat.bind fun _ => forward_pure _

theorem forward_length : Read.length.Forward :=
  forward_compressedNat.bind fun _ => forward_remaining.bind fun _ =>
    .ite (fun _ => (forward_throw _).bind fun _ => forward_pure _) fun _ => forward_pure _

theorem forward_utf8 : Read.utf8.Forward := by
  refine forward_length.bind fun count => forward_position.bind fun start =>
    (forward_bytes count).bind fun bytes => ?_
  cases String.fromUTF8? ⟨bytes.toArray⟩ with
  | some text => exact forward_pure text
  | none => exact forward_throw _

theorem Read.Forward.times (h : read.Forward) (count : Nat) : (Read.times read count).Forward := by
  induction count with
  | zero => exact forward_pure []
  | succ count ih => exact h.bind fun _ => ih.bind fun _ => forward_pure _

theorem forward_utf16 : Read.utf16.Forward := by
  refine forward_compressedNat.bind fun count => forward_remaining.bind fun left =>
    .ite (fun _ => (forward_throw _).bind fun _ => ?_) fun _ => ?_
  all_goals
    refine (forward_word16.times count).bind fun units => ?_
    cases ofUtf16Units? units with
    | some text => exact forward_pure text
    | none => exact forward_throw _

end Reads

/-- A call on a cursor.  Positions and distances are given as machine words. -/
inductive CursorCall where
  | seek (position : UInt64)
  | advance (step : UInt64)
  | bytes (count : UInt64)
  | byte
  | word16
  | word32
  | word64
  | token
  | compressedNat
  | compressedInt
  | length
  | utf8
  | utf16
deriving DecidableEq, Repr

namespace CursorCall

/-- What a call does; what is read by it does not matter here. -/
def read : CursorCall → Read Unit
  | seek position => Read.seek position.toNat
  | advance step => Read.advance step.toNat
  | bytes count => do let _ ← Read.bytes count.toNat
  | byte => do let _ ← Read.byte
  | word16 => do let _ ← Read.word16
  | word32 => do let _ ← Read.word32
  | word64 => do let _ ← Read.word64
  | token => do let _ ← Read.token
  | compressedNat => do let _ ← Read.compressedNat
  | compressedInt => do let _ ← Read.compressedInt
  | length => do let _ ← Read.length
  | utf8 => do let _ ← Read.utf8
  | utf16 => do let _ ← Read.utf16

/-- Where a call leaves the cursor, whether it succeeds or not. -/
def after (call : CursorCall) (c : Cursor) : Cursor := (ExceptT.run call.read c).2

/-- Whether a call is given the position to move to. -/
def isSeek : CursorCall → Bool
  | seek _ => true
  | _ => false

/-- How far a call is to move the cursor if it succeeds, for the calls that say it. -/
def distance? : CursorCall → Option Nat
  | advance step => some step.toNat
  | bytes count => some count.toNat
  | _ => none

/-- A call adds up a position that no machine word holds, without looking for the end first. -/
def Overruns (c : Cursor) : CursorCall → Prop
  | advance step => Read.wordLimit ≤ c.position + step.toNat
  | _ => False

/-- A call moves the cursor as its caller may expect: not back, unless it is given the position, and
by just the distance that it says if it succeeds. -/
structure MovesAsTold (call : CursorCall) (c : Cursor) : Prop where
  forward : call.isSeek = false → c.position ≤ (call.after c).position
  exact : ∀ distance, call.distance? = some distance → Yields call.read c () (call.after c) →
    (call.after c).position = c.position + distance

variable {call : CursorCall} {c c' : Cursor} {step : UInt64}

theorem after_of_yields (h : Yields call.read c () c') : call.after c = c' := congrArg Prod.snd h

theorem after_of_fails {e : Error} (h : Fails call.read c e c') : call.after c = c' :=
  congrArg Prod.snd h

/-- The position that a step leads to is the sum, or starts again at zero. -/
theorem yields_advance {n : Nat} : Yields (Read.advance n) c () c' ↔
    (c.position + n) % Read.wordLimit ≤ c.data.size ∧
      { c with position := (c.position + n) % Read.wordLimit } = c' := by
  unfold Read.advance
  rw [yields_get_bind, yields_guard, yields_set, Nat.not_lt]

theorem fails_advance {n : Nat} {e : Error} (h : Fails (Read.advance n) c e c') : c = c' :=
  eq_of_fails_guard (fun _ _ _ => not_fails_set) h

theorem fails_seek {n : Nat} {e : Error} (h : Fails (Read.seek n) c e c') : c = c' :=
  eq_of_fails_guard (fun _ _ _ => not_fails_set) h

/-- Calls other than those that are given a position or a step are reads that never go back. -/
theorem forward_read (h : call.isSeek = false) (h' : ∀ step, call ≠ .advance step) :
    call.read.Forward := by
  cases call with
  | seek => cases h
  | advance step => exact absurd rfl (h' step)
  | bytes count => exact (forward_bytes _).bind fun _ => forward_pure _
  | byte => exact forward_byte.bind fun _ => forward_pure _
  | word16 => exact forward_word16.bind fun _ => forward_pure _
  | word32 => exact forward_word32.bind fun _ => forward_pure _
  | word64 => exact forward_word64.bind fun _ => forward_pure _
  | token => exact forward_token.bind fun _ => forward_pure _
  | compressedNat => exact forward_compressedNat.bind fun _ => forward_pure _
  | compressedInt => exact forward_compressedInt.bind fun _ => forward_pure _
  | length => exact forward_length.bind fun _ => forward_pure _
  | utf8 => exact forward_utf8.bind fun _ => forward_pure _
  | utf16 => exact forward_utf16.bind fun _ => forward_pure _

/-- Whatever comes of a call that is such a read, it leaves the cursor further on. -/
theorem reaches_after (h : call.read.Forward) (inside : c.Inside) : c.Reaches (call.after c) := by
  obtain ⟨u, c', yields⟩ | ⟨e, c', fails⟩ := yields_or_fails call.read c
  · exact after_of_yields yields ▸ h.yields inside yields
  · exact after_of_fails fails ▸ h.fails inside fails

/-- No call leaves the data. -/
theorem stays (call : CursorCall) (inside : c.Inside) :
    (call.after c).data = c.data ∧ (call.after c).Inside := by
  -- A call that is given a position or a step moves to a place inside, or not at all.
  have given (move : ∀ {u c'}, Yields call.read c u c' → c'.data = c.data ∧ c'.Inside)
      (refuse : ∀ {e c'}, Fails call.read c e c' → c = c') :
      (call.after c).data = c.data ∧ (call.after c).Inside := by
    obtain ⟨u, c', yields⟩ | ⟨e, c', fails⟩ := yields_or_fails call.read c
    · exact after_of_yields yields ▸ move yields
    · exact after_of_fails fails ▸ refuse fails ▸ ⟨rfl, inside⟩
  cases call with
  | seek position =>
    refine given (fun yields => ?_) fails_seek
    obtain ⟨enough, rfl⟩ := yields_seek.mp yields
    exact ⟨rfl, enough⟩
  | advance step =>
    refine given (fun yields => ?_) fails_advance
    obtain ⟨enough, rfl⟩ := yields_advance.mp yields
    exact ⟨rfl, enough⟩
  | _ =>
    exact Cursor.Reaches.stays
      (reaches_after (forward_read rfl fun _ same => nomatch same) inside)

/-- A step whose sum fits in a machine word is made as told. -/
theorem movesAsTold_advance (fits : c.position + step.toNat < Read.wordLimit) :
    (advance step).MovesAsTold c := by
  have sum : (c.position + step.toNat) % Read.wordLimit = c.position + step.toNat :=
    Nat.mod_eq_of_lt fits
  have moved {u c'} (yields : Yields (advance step).read c u c') :
      c'.position = c.position + step.toNat := by
    obtain ⟨-, rfl⟩ := yields_advance.mp yields
    exact sum
  refine ⟨fun _ => ?_, fun distance same yields => Option.some.inj same ▸ moved yields⟩
  obtain ⟨u, c', yields⟩ | ⟨e, c', fails⟩ := yields_or_fails (advance step).read c
  · exact after_of_yields yields ▸ moved yields ▸ Nat.le_add_right _ _
  · exact after_of_fails fails ▸ fails_advance fails ▸ Nat.le_refl _

theorem movesAsTold_of_not_overruns (inside : c.Inside) (fits : ¬ call.Overruns c) :
    call.MovesAsTold c := by
  have forward (h : call.read.Forward) : c.position ≤ (call.after c).position :=
    (reaches_after h inside).forward
  cases call with
  | seek position => exact ⟨(nomatch ·), fun _ same => nomatch same⟩
  | advance step => exact movesAsTold_advance (Nat.not_le.mp fits)
  | bytes count =>
    refine ⟨fun _ => forward ((forward_bytes _).bind fun _ => forward_pure _), ?_⟩
    intro distance same yields
    obtain ⟨taken, c', took, done⟩ := yields_bind.mp yields
    obtain ⟨-, rfl⟩ := yields_bytes took
    rw [← (yields_pure.mp done).2, Cursor.skip_position, ← Option.some.inj same]
  | _ =>
    exact ⟨fun same => forward (forward_read same fun _ same => nomatch same),
      fun _ same => nomatch same⟩

/-- The sum that no machine word holds starts again at zero, so it is in front of the position. -/
theorem yields_of_overruns (call : CursorCall) (small : c.data.size < Read.wordLimit)
    (inside : c.Inside) (overruns : call.Overruns c) :
    Yields call.read c () (call.after c) ∧ (call.after c).position < c.position := by
  cases call with
  | advance step =>
    have sum : (c.position + step.toNat) % Read.wordLimit < c.position := by
      have word := step.toNat_lt
      unfold Overruns Read.wordLimit at overruns
      unfold Read.wordLimit Cursor.Inside at *
      omega
    have yields : Yields (advance step).read c () _ :=
      yields_advance.mpr ⟨Nat.le_trans (Nat.le_of_lt sum) inside, rfl⟩
    rw [after_of_yields yields]
    exact ⟨yields, sum⟩
  | _ => exact overruns.elim

/-- Where calls that are made one after the other leave the cursor. -/
def afterAll (calls : List CursorCall) (c : Cursor) : Cursor :=
  calls.foldl (fun c call => call.after c) c

/-- No calls leave the data. -/
theorem stays_afterAll (calls : List CursorCall) (inside : c.Inside) :
    (afterAll calls c).data = c.data ∧ (afterAll calls c).Inside := by
  induction calls generalizing c with
  | nil => exact ⟨rfl, inside⟩
  | cons call calls ih =>
    obtain ⟨data, insideNext⟩ := call.stays inside
    obtain ⟨dataLast, insideLast⟩ := ih insideNext
    exact ⟨dataLast.trans data, insideLast⟩

end CursorCall

end Interpose
