import Interpose.Module.Container
import Interpose.Proofs.Bytes.Persistence
import Interpose.Proofs.Module.Loading

/-!
# Containers are prefix-free

A container has no length in front, and still no container begins another one: every read takes the
same bytes whatever follows them, and behind the last of them nothing may be left.

## Main results

* `Body.decode_append` — a body is read from all bytes that are left, but does not depend on those
  behind it
* `Module.closes_decodeContainer` — a container is read just if nothing follows it
* `Module.decode_prefix_free` — no proper prefix and no proper extension of a container is one
-/

namespace Interpose

section Bodies

variable {data tail : List UInt8} {first : UInt8} {result : Body × Nat}

theorem Body.decodeTiny_append (h : decodeTiny first data = .ok result) :
    decodeTiny first (data ++ tail) = .ok result := by
  unfold decodeTiny at h ⊢
  dsimp only at h ⊢
  split at h
  case isTrue => cases h
  case isFalse enough =>
    rw [if_neg (by rw [List.length_append]; omega), List.drop_append_of_le_length (by omega),
      List.take_append_of_le_length (by rw [List.length_drop]; omega)]
    exact h

theorem Body.decodeFat_append (h : decodeFat data = .ok result) :
    decodeFat (data ++ tail) = .ok result := by
  have taken (start count : Nat) (inside : start + count ≤ data.length) :
      ((data ++ tail).drop start).take count = (data.drop start).take count := by
    rw [List.drop_append_of_le_length (by omega),
      List.take_append_of_le_length (by rw [List.length_drop]; omega)]
  unfold decodeFat at h ⊢
  simp only [guard_eq_ok_iff, List.length_append] at h ⊢
  obtain ⟨header, size, enough, sections, h⟩ := h
  unfold fatHeaderSize at header enough ⊢
  -- The fields of the header are all in front of what was added.
  have flags := taken 0 2 (by omega)
  have stack := taken 2 2 (by omega)
  have length := taken 4 4 (by omega)
  rw [List.drop_zero, List.drop_zero] at flags
  rw [flags, stack, length]
  refine ⟨by omega, size, by omega, sections, ?_⟩
  rw [taken _ _ (by omega)]
  exact h

/-- A body is read from its start, whatever is behind it. -/
theorem Body.decode_append (h : decode data = .ok result) : decode (data ++ tail) = .ok result := by
  cases data with
  | nil => cases h
  | cons first rest =>
    rw [List.cons_append]
    unfold decode at h ⊢
    dsimp only at h ⊢
    split at h
    case h_1 => exact decodeTiny_append h
    case h_2 => exact decodeFat_append h
    case h_3 => cases h

/-- All bytes that are left are looked at. -/
private theorem yields_rest {c : Cursor} (inside : c.Inside) :
    Yields (Read.bytes c.remaining) c c.rest (c.skip c.remaining) := by
  have faces : c.Faces (c.rest ++ []) := ⟨inside, (List.append_nil _).symm⟩
  have length : c.rest.length = c.remaining := by
    simp [Cursor.rest, Cursor.remaining]
  have taken := takes_bytes c.rest faces
  rwa [length] at taken

/-- A body is looked for in all bytes that are left, but only its own count. -/
theorem Body.persists_decodeWithLocals : Persists decodeWithLocals := by
  refine Ty.persists_decodeList.bind fun locals => ?_
  intro c body c' inside h
  obtain ⟨start, c₁, here, h⟩ := yields_bind.mp h
  obtain ⟨rfl, rfl⟩ := yields_position.mp here
  obtain ⟨left, c₁, here, h⟩ := yields_bind.mp h
  obtain ⟨rfl, rfl⟩ := yields_remaining.mp here
  obtain ⟨rest, c₁, here, h⟩ := yields_bind.mp h
  obtain ⟨rfl, rfl⟩ := (yields_rest inside).unique here
  obtain ⟨⟨found, used⟩, known, h⟩ := yields_liftM_bind.mp h
  obtain ⟨u, c₂, moved, h⟩ := yields_bind.mp h
  obtain ⟨within, rfl⟩ := yields_seek.mp moved
  obtain ⟨rfl, rfl⟩ := yields_pure.mp h
  -- With more data more is left, but the body found in it is the same, and so is its end.
  refine ⟨within, fun tail => ?_⟩
  have inside' : (c.append tail).Inside := by
    unfold Cursor.Inside at inside ⊢
    rw [Cursor.append_size, Cursor.append_position]
    omega
  have more : (c.append tail).rest = c.rest ++ tail := by
    unfold Cursor.Inside at inside
    simp only [Cursor.rest, Cursor.append, Array.toList_append]
    exact List.drop_append_of_le_length (by rwa [Array.length_toList])
  refine (yields_position.mpr ⟨rfl, rfl⟩).bind ((yields_remaining.mpr ⟨rfl, rfl⟩).bind
    ((yields_rest inside').bind (yields_liftM_bind.mpr ⟨(found, used), ?_, ?_⟩)))
  · rw [more]
    exact decode_append known
  · refine ((yields_seek (u := ())).mpr ⟨?_, rfl⟩).bind (yields_pure.mpr ⟨rfl, rfl⟩)
    simp only [Cursor.skip_data, Cursor.append_size, Cursor.append_position] at within ⊢
    omega

end Bodies

section Rows

theorem TypeDef.persists_decode : Persists decode := by
  refine persists_utf8.bind fun name => persists_word32.bind fun flags =>
    persists_compressedNat.bind fun arity => persists_byte.bind fun marker => ?_
  exact .ite (fun _ => (persists_pure none).bind fun _ => Ty.persists_decodeList.bind
      fun _ => persists_pure _) fun _ =>
    .ite (fun _ => (Ty.persists_decode.map some).bind fun _ => Ty.persists_decodeList.bind
      fun _ => persists_pure _) fun _ => persists_throw_bind _ _

theorem FieldDef.persists_decode : Persists decode :=
  persists_token.bind fun _ => persists_utf8.bind fun _ => Ty.persists_decode.bind fun _ =>
    persists_byte.bind fun _ => persists_pure _

theorem MethodDef.persists_decode : Persists decode := by
  refine persists_token.bind fun owner => persists_utf8.bind fun name =>
    persists_word16.bind fun flags => persists_compressedNat.bind fun arity =>
    Ty.persists_decodeList.bind fun parameters => Ty.persists_decode.bind fun returnType =>
    persists_byte.bind fun marker => ?_
  exact .ite (fun _ => (persists_pure none).bind fun _ => persists_pure _) fun _ =>
    .ite (fun _ => (Body.persists_decodeWithLocals.map some).bind fun _ => persists_pure _)
      fun _ => persists_throw_bind _ _

theorem MethodSig.persists_decode : Persists decode :=
  persists_byte.bind fun _ => persists_compressedNat.bind fun _ =>
    Ty.persists_decodeList.bind fun _ => Ty.persists_decode.bind fun _ => persists_pure _

theorem MemberRef.persists_decode : Persists decode :=
  Ty.persists_decode.bind fun _ => persists_utf8.bind fun _ =>
    MethodSig.persists_decode.bind fun _ => persists_pure _

theorem MethodSpec.persists_decode : Persists decode :=
  persists_token.bind fun _ => Ty.persists_decodeList.bind fun _ => persists_pure _

end Rows

namespace Module

variable {α : Type} {read : Read α} {add : α → Edit Unit}

theorem persists_editing (m : Module) (change : Edit α) : Persists (m.editing change) := by
  intro c m' c' inside h
  obtain ⟨rfl, changed⟩ := yields_editing.mp h
  exact ⟨inside, fun tail => yields_editing.mpr ⟨rfl, changed⟩⟩

theorem persists_decodeTable (h : Persists read) (m : Module) :
    Persists (m.decodeTable read add) := by
  refine persists_length.bind fun count => ?_
  induction count generalizing m with
  | zero => exact persists_pure m
  | succ count ih => exact h.bind fun row => (m.persists_editing (add row)).bind fun m => ih m

theorem persists_decodeSymbols : Persists decodeSymbols :=
  persists_token.bind fun _ => persists_length.bind fun count => (persists_bytes count).bind
    fun _ => (persists_liftM _).bind fun _ => persists_pure _

/-- Behind a container nothing is left. -/
theorem closes_checks (specs : List MethodSpec) (m : Module) : Closes (do
    if ← Read.hasMore then Read.malformed (.trailingBytes (← Read.remaining))
    specs.forM fun spec => m.checkMethodSpec spec
    return m) := by
  intro c m' c' inside h tail some m'' c'' again
  obtain ⟨more, c₁, here, again⟩ := yields_bind.mp again
  obtain ⟨rfl, rfl⟩ := yields_hasMore.mp here
  rw [Cursor.hasMore_append inside some] at again
  obtain ⟨left, c₁, here, again⟩ := yields_bind.mp again
  exact yields_throw_bind.mp again

/-- A container is only read if nothing follows it. -/
theorem closes_decodeContainer : Closes decodeContainer := by
  unfold decodeContainer
  refine .bind (persists_bytes _) fun magic => .ite (fun _ => closes_throw_bind _ _) fun _ => ?_
  refine .bind (persists_word 2) fun version => .ite (fun _ => closes_throw_bind _ _) fun _ => ?_
  refine .bind (persists_word 2) fun flags => .bind persists_utf8 fun name =>
    .bind (persists_bytes 16) fun versionId => ?_
  refine .bind (persists_decodeTable TypeDef.persists_decode _) fun m =>
    .bind (persists_decodeTable FieldDef.persists_decode m) fun m =>
    .bind (persists_decodeTable MethodDef.persists_decode m) fun m => ?_
  refine .bind MemberRef.persists_decode.list fun memberRefs =>
    .bind MethodSpec.persists_decode.list fun methodSpecs =>
    .bind Ty.persists_decode.list fun typeSpecs => .bind persists_utf16.list fun userStrings => ?_
  refine .bind (persists_decodeTable persists_token _) fun m => ?_
  exact .ite (fun _ => .bind (persists_decodeTable persists_decodeSymbols m)
      fun m => closes_checks methodSpecs m)
    fun _ => .bind (persists_pure m) fun m => closes_checks methodSpecs m

variable {m m' : Module} {data tail : List UInt8}

/-- What follows a container is one thing too much. -/
theorem decode_append_ne_ok (h : decode data = .ok m) (some : tail ≠ []) :
    decode (data ++ tail) ≠ .ok m' := by
  intro again
  obtain ⟨-, c, read⟩ := decode_eq_ok_iff.mp h
  obtain ⟨-, c', read'⟩ := decode_eq_ok_iff.mp again
  have longer : Cursor.ofBytes (data ++ tail) = (Cursor.ofBytes data).append tail := by
    simp [Cursor.ofBytes, Cursor.append]
  rw [longer] at read'
  exact closes_decodeContainer (Nat.zero_le _) read tail some m' c' read'

/-- Containers are prefix-free: no data that a container properly begins, and none that it properly
extends, is read. -/
theorem decode_prefix_free (h : decode data = .ok m) :
    (∀ front, front <+: data → front ≠ data → ∃ error, decode front = .error error) ∧
    ∀ tail, tail ≠ [] → ∃ error, decode (data ++ tail) = .error error := by
  constructor
  · rintro front ⟨tail, rfl⟩ proper
    -- A proper prefix that is read would make the whole an extension of it.
    have some : tail ≠ [] := by
      rintro rfl
      exact proper (List.append_nil front).symm
    cases read : decode front with
    | ok m' => exact absurd h (decode_append_ne_ok read some)
    | error error => exact ⟨error, rfl⟩
  · intro tail some
    cases read : decode (data ++ tail) with
    | ok m' => exact absurd read (decode_append_ne_ok h some)
    | error error => exact ⟨error, rfl⟩

/-- The container that wastes bytes is read, but only as a whole and alone. -/
theorem decode_prefix_free_wasteful : ∃ m, decode wastefulContainer = .ok m ∧
    (∀ front, front <+: wastefulContainer → front ≠ wastefulContainer →
      ∃ error, decode front = .error error) ∧
    ∀ tail, tail ≠ [] → ∃ error, decode (wastefulContainer ++ tail) = .error error := by
  have loads : (decode wastefulContainer).toOption.isSome = true := by decide +kernel
  obtain ⟨m, read⟩ := Option.isSome_iff_exists.mp loads
  exact ⟨m, toOption_eq_some_iff.mp read, decode_prefix_free (toOption_eq_some_iff.mp read)⟩

end Module

end Interpose
