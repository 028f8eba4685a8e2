import Interpose.Module.Container
import Interpose.Proofs.SequencePoints
import Interpose.Proofs.Ty.Codec

/-!
# Rows are read back

A row of a table that is written is read back if all types that it mentions are shallow.  It comes back
as it was, apart from what has no meaning: the unused bits of flags, how deep the stack of a small body
gets, and the sequence points of bodies, which are kept behind the tables.

## Main definitions

* `TypeDef.stored`, `Body.stored`, `MethodDef.stored` — what is kept of a row
* `TypeDef.mentioned`, `MethodDef.mentioned`, … — the types that a row mentions

## Main results

* `Body.decode_of_encode` — header and code of a body are read back, whatever follows
* `TypeDef.takesIf_decode`, `MethodDef.takesIf_decode`, … — rows are read back
-/

namespace Interpose

section Optional

variable {α β γ : Type} {write : α → Write} {read : Read β} {f : α → β} {bytes rest : List UInt8}
  {value : Option α} {P : α → Prop} {Q : Prop}

/-- The written form of what may be missing: a mark that tells whether it is there comes first. -/
def Write.marked (write : α → Write) : Option α → Write
  | some a => return 1 :: (← write a)
  | none => return [0]

theorem Write.defined_marked_iff :
    (Write.marked write value).Defined ↔ ∀ a ∈ value, (write a).Defined := by
  cases value with
  | none => exact ⟨fun _ => by simp, fun _ => defined_pure _⟩
  | some a =>
    refine defined_bind_pure_iff.trans ?_
    simp

/-- What may be missing is read back by its mark. -/
theorem takesIf_marked {k : Option β → Read γ} {c : γ} (error : UInt8 → Error)
    (h : ∀ a ∈ value, ∀ bytes, write a = .ok bytes → TakesIf (P a) read bytes (f a))
    (written : Write.marked write value = .ok bytes)
    (later : TakesIf Q (k (value.map f)) rest c) :
    TakesIf ((∀ a ∈ value, P a) ∧ Q) (Read.byte >>= fun marker =>
      if marker = 0 then pure none >>= k
      else if marker = 1 then some <$> read >>= k
      else throw (error marker) >>= k) (bytes ++ rest) c := by
  cases value with
  | none =>
    cases written
    refine (takes_byte 0).bindIf ?_
    rw [if_pos rfl, pure_bind]
    exact later.congr (by simp)
  | some a =>
    obtain ⟨contents, wrote, written⟩ := bind_eq_ok_iff.mp written
    cases written
    refine (takes_byte 1).bindIf (v := contents ++ rest) ?_
    rw [if_neg (by decide), if_pos rfl, map_eq_pure_bind]
    exact (((h a rfl contents wrote).map some).bind later).congr (by simp)

/-- What may be missing is read if its mark says that it is there. -/
theorem gives_marked {k : Option β → Read γ} {R : β → Prop} {S : γ → Prop} (error : UInt8 → Error)
    (h : Gives read R) (later : ∀ value : Option β, (∀ b ∈ value, R b) → Gives (k value) S) :
    Gives (Read.byte >>= fun marker =>
      if marker = 0 then pure none >>= k
      else if marker = 1 then some <$> read >>= k
      else throw (error marker) >>= k) S := by
  refine (gives_of_any _).bind fun marker _ => .ite (fun _ => ?_) fun _ => .ite (fun _ => ?_)
    fun _ => gives_throw_bind _
  · rw [pure_bind]
    exact later none (by simp)
  · rw [map_eq_pure_bind, bind_assoc]
    refine h.bind fun b holds => ?_
    rw [pure_bind]
    exact later (some b) (by simpa using holds)

end Optional

section Rows

variable {bytes : List UInt8}

/-- What is kept of a type definition: its flags lose the bits that mean nothing. -/
def TypeDef.stored (d : TypeDef) : TypeDef := { d with flags := .ofBits d.flags.bits }

/-- The types that a type definition mentions. -/
def TypeDef.mentioned (d : TypeDef) : List Ty := d.base.toList ++ d.interfaces

/-- A definition is written with its base type marked. -/
theorem TypeDef.encode_eq (d : TypeDef) : d.encode = (do
    let name ← Write.utf8 d.name
    let arity ← Write.compressedNat d.genericArity.toNat
    let base ← Write.marked Ty.encode d.base
    let interfaces ← Ty.encodeList d.interfaces
    return name ++ (littleEndian 4 d.flags.bits.toNat ++ (arity ++ (base ++ interfaces)))) := by
  unfold encode
  simp only [List.append_assoc]
  cases d.base <;> simp [Write.marked]

theorem TypeDef.defined_encode_iff {d : TypeDef} : d.encode.Defined ↔
    (Write.utf8 d.name).Defined ∧ d.genericArity.toNat < Write.numberLimit ∧
      d.interfaces.length < Write.numberLimit ∧ ∀ type ∈ d.mentioned, type.encode.Defined := by
  have types : (∀ type ∈ d.base, type.encode.Defined) ∧ d.interfaces.length < Write.numberLimit ∧
      (∀ type ∈ d.interfaces, type.encode.Defined) ↔ d.interfaces.length < Write.numberLimit ∧
        ∀ type ∈ d.mentioned, type.encode.Defined := by
    rw [and_left_comm]
    simp only [mentioned, List.forall_mem_append, Option.mem_toList, Option.mem_def]
  rw [encode_eq, ← types, ← Write.defined_compressedNat_iff, ← Write.defined_list_iff,
    ← Write.defined_marked_iff]
  exact Write.defined_bind_iff fun _ _ => Write.defined_bind_iff fun _ _ =>
    Write.defined_bind_iff fun _ _ => Write.defined_bind_pure_iff

theorem TypeFlags.ofBits_ofBits (bits : UInt32) : ofBits (ofBits bits).bits = ofBits bits := by
  rw [ofBits, ofBits, UInt32.and_assoc, UInt32.and_self]

/-- Definitions that are read can be written, and have no flags without meaning. -/
theorem TypeDef.gives_decode : Gives decode fun d =>
    d.encode.Defined ∧ (∀ type ∈ d.mentioned, type.Shallow) ∧ d.stored = d := by
  refine gives_utf8.bind fun name wroteName => (gives_of_any _).bind fun flags _ =>
    gives_compressedNat.bind fun arity small =>
    gives_marked (fun marker => .malformed (.baseMarker marker)) Ty.gives_decode fun base first =>
    Ty.gives_decodeList.bind fun interfaces rest => gives_pure ?_
  obtain ⟨few, rest⟩ := rest
  refine ⟨defined_encode_iff.mpr ⟨wroteName, Write.toNat_ofNat_lt small, few, ?_⟩, ?_, ?_⟩
  · rintro type member
    rcases List.mem_append.mp member with member | member
    · exact (first type (Option.mem_toList.mp member)).1
    · exact (rest type member).1
  · rintro type member
    rcases List.mem_append.mp member with member | member
    · exact (first type (Option.mem_toList.mp member)).2
    · exact (rest type member).2
  · rw [stored, TypeFlags.ofBits_ofBits]

theorem TypeDef.encode_ne_nil {d : TypeDef} (written : d.encode = .ok bytes) : bytes ≠ [] := by
  rintro rfl
  rw [encode_eq] at written
  obtain ⟨name, -, written⟩ := bind_eq_ok_iff.mp written
  obtain ⟨arity, -, written⟩ := bind_eq_ok_iff.mp written
  obtain ⟨base, -, written⟩ := bind_eq_ok_iff.mp written
  obtain ⟨interfaces, -, written⟩ := bind_eq_ok_iff.mp written
  simp [littleEndian, pure, Except.pure] at written

theorem TypeDef.takesIf_decode {d : TypeDef} (written : d.encode = .ok bytes) :
    TakesIf (∀ type ∈ d.mentioned, type.Shallow) decode bytes d.stored := by
  rw [encode_eq] at written
  obtain ⟨name, wroteName, written⟩ := bind_eq_ok_iff.mp written
  obtain ⟨arity, wroteArity, written⟩ := bind_eq_ok_iff.mp written
  obtain ⟨base, wroteBase, written⟩ := bind_eq_ok_iff.mp written
  obtain ⟨interfaces, wroteInterfaces, written⟩ := bind_eq_ok_iff.mp written
  cases written
  have parts : (∀ type ∈ d.base, type.Shallow) ∧ (∀ type ∈ d.interfaces, type.Shallow) ↔
      ∀ type ∈ d.mentioned, type.Shallow := by
    simp only [mentioned, List.forall_mem_append, Option.mem_toList, Option.mem_def]
  have same : d.stored = { d with
      base := d.base.map id
      flags := .ofBits d.flags.bits
      genericArity := UInt32.ofNat d.genericArity.toNat } := by
    rw [Option.map_id_fun, id, UInt32.ofNat_toNat, stored]
  unfold TypeDef.decode
  refine .congr ((takes_utf8 wroteName).bindIf ((takes_word32 _).bindIf
    ((takes_compressedNat wroteArity).bindIf ?_))) parts
  refine takesIf_marked (f := id) (fun marker => .malformed (.baseMarker marker))
    (fun _ _ _ wrote => Ty.takesIf_decode wrote) wroteBase ?_
  rw [same]
  exact (Ty.takesIf_decodeList wroteInterfaces).map _

private theorem ne_zero_of_flag (b : Bool) : decide ((if b then (1 : UInt8) else 0) ≠ 0) = b := by
  cases b <;> rfl

theorem FieldDef.defined_encode_iff {d : FieldDef} :
    d.encode.Defined ↔ (Write.utf8 d.name).Defined ∧ d.type.encode.Defined :=
  Write.defined_bind_iff fun _ _ => Write.defined_bind_pure_iff

theorem FieldDef.gives_decode : Gives decode fun d => d.encode.Defined ∧ d.type.Shallow :=
  (gives_of_any _).bind fun _ _ => gives_utf8.bind fun _ wroteName =>
    Ty.gives_decode.bind fun _ type => (gives_of_any _).bind fun _ _ =>
      gives_pure ⟨defined_encode_iff.mpr ⟨wroteName, type.1⟩, type.2⟩

theorem FieldDef.encode_ne_nil {d : FieldDef} (written : d.encode = .ok bytes) : bytes ≠ [] := by
  rintro rfl
  obtain ⟨name, -, written⟩ := bind_eq_ok_iff.mp written
  obtain ⟨type, -, written⟩ := bind_eq_ok_iff.mp written
  simp [Write.flag, pure, Except.pure] at written

theorem FieldDef.takesIf_decode {d : FieldDef} (written : d.encode = .ok bytes) :
    TakesIf d.type.Shallow decode bytes d := by
  obtain ⟨name, wroteName, written⟩ := bind_eq_ok_iff.mp written
  obtain ⟨type, wroteType, written⟩ := bind_eq_ok_iff.mp written
  cases written
  have mark := ((takes_byte (if d.isStatic then 1 else 0)).map fun isStatic : UInt8 =>
    ({ owner := d.owner, name := d.name, type := d.type, isStatic := isStatic ≠ 0 } : FieldDef))
  rw [ne_zero_of_flag] at mark
  simp only [List.append_assoc]
  unfold FieldDef.decode
  exact .congr ((takes_token _).bindIf ((takes_utf8 wroteName).bindIf
    ((Ty.takesIf_decode wroteType).bind mark.takesIf))) (and_true _).to_iff

/-- The types that a method signature mentions. -/
def MethodSig.mentioned (s : MethodSig) : List Ty := s.parameters ++ [s.returnType]

theorem MethodSig.defined_encode_iff {signature : MethodSig} : signature.encode.Defined ↔
    signature.genericArity.toNat < Write.numberLimit ∧
      signature.parameters.length < Write.numberLimit ∧
        ∀ type ∈ signature.mentioned, type.encode.Defined := by
  have types : ((Ty.encodeList signature.parameters).Defined ∧ signature.returnType.encode.Defined) ↔
      signature.parameters.length < Write.numberLimit ∧
        ∀ type ∈ signature.mentioned, type.encode.Defined := by
    rw [mentioned, List.forall_mem_append, List.forall_mem_singleton, ← and_assoc]
    exact and_congr_left fun _ => Write.defined_list_iff
  rw [← types, ← Write.defined_compressedNat_iff]
  exact Write.defined_bind_iff fun _ _ => Write.defined_bind_iff fun _ _ =>
    Write.defined_bind_pure_iff

theorem MethodSig.gives_decode : Gives decode fun signature =>
    signature.encode.Defined ∧ ∀ type ∈ signature.mentioned, type.Shallow := by
  refine (gives_of_any _).bind fun _ _ => gives_compressedNat.bind fun arity small =>
    Ty.gives_decodeList.bind fun parameters first => Ty.gives_decode.bind fun returnType last =>
    gives_pure ?_
  have types {P : Ty → Prop} (first : ∀ type ∈ parameters, P type) (last : P returnType) :
      ∀ type ∈ parameters ++ [returnType], P type :=
    List.forall_mem_append.mpr ⟨first, List.forall_mem_singleton.mpr last⟩
  exact ⟨defined_encode_iff.mpr ⟨Write.toNat_ofNat_lt small, first.1,
    types (fun type member => (first.2 type member).1) last.1⟩,
    types (fun type member => (first.2 type member).2) last.2⟩

theorem MethodSig.takesIf_decode {signature : MethodSig} (written : signature.encode = .ok bytes) :
    TakesIf (∀ type ∈ signature.mentioned, type.Shallow) decode bytes signature := by
  obtain ⟨arity, wroteArity, written⟩ := bind_eq_ok_iff.mp written
  obtain ⟨parameters, wroteParameters, written⟩ := bind_eq_ok_iff.mp written
  obtain ⟨returnType, wroteReturnType, written⟩ := bind_eq_ok_iff.mp written
  cases written
  have parts : (∀ type ∈ signature.parameters, type.Shallow) ∧ signature.returnType.Shallow ↔
      ∀ type ∈ signature.mentioned, type.Shallow := by
    rw [mentioned, List.forall_mem_append, List.forall_mem_singleton]
  simp only [List.append_assoc]
  unfold MethodSig.decode
  refine .congr ((takes_byte _).bindIf ((takes_compressedNat wroteArity).bindIf
    ((Ty.takesIf_decodeList wroteParameters).bind ?_))) parts
  rw [ne_zero_of_flag, UInt32.ofNat_toNat]
  exact (Ty.takesIf_decode wroteReturnType).map _

/-- The types that a reference to a method mentions. -/
def MemberRef.mentioned (r : MemberRef) : List Ty := r.parent :: r.signature.mentioned

theorem MemberRef.defined_encode_iff {r : MemberRef} : r.encode.Defined ↔
    r.parent.encode.Defined ∧ (Write.utf8 r.name).Defined ∧ r.signature.encode.Defined :=
  Write.defined_bind_iff fun _ _ => Write.defined_bind_iff fun _ _ => Write.defined_bind_pure_iff

theorem MemberRef.gives_decode : Gives decode fun r =>
    r.encode.Defined ∧ ∀ type ∈ r.mentioned, type.Shallow :=
  Ty.gives_decode.bind fun _ parent => gives_utf8.bind fun _ wroteName =>
    MethodSig.gives_decode.bind fun _ signature => gives_pure
      ⟨defined_encode_iff.mpr ⟨parent.1, wroteName, signature.1⟩,
        List.forall_mem_cons.mpr ⟨parent.2, signature.2⟩⟩

theorem MemberRef.encode_ne_nil {r : MemberRef} (written : r.encode = .ok bytes) : bytes ≠ [] := by
  rintro rfl
  obtain ⟨parent, wroteParent, written⟩ := bind_eq_ok_iff.mp written
  obtain ⟨name, -, written⟩ := bind_eq_ok_iff.mp written
  obtain ⟨signature, -, written⟩ := bind_eq_ok_iff.mp written
  simp [Ty.encode_ne_nil wroteParent, pure, Except.pure] at written

theorem MemberRef.takesIf_decode {r : MemberRef} (written : r.encode = .ok bytes) :
    TakesIf (∀ type ∈ r.mentioned, type.Shallow) decode bytes r := by
  obtain ⟨parent, wroteParent, written⟩ := bind_eq_ok_iff.mp written
  obtain ⟨name, wroteName, written⟩ := bind_eq_ok_iff.mp written
  obtain ⟨signature, wroteSignature, written⟩ := bind_eq_ok_iff.mp written
  cases written
  simp only [List.append_assoc]
  unfold MemberRef.decode
  exact .congr ((Ty.takesIf_decode wroteParent).bind ((takes_utf8 wroteName).bindIf
    ((MethodSig.takesIf_decode wroteSignature).map _))) List.forall_mem_cons.symm

theorem MethodSpec.defined_encode_iff {spec : MethodSpec} : spec.encode.Defined ↔
    spec.instantiation.length < Write.numberLimit ∧
      ∀ type ∈ spec.instantiation, type.encode.Defined :=
  Write.defined_bind_pure_iff.trans Write.defined_list_iff

theorem MethodSpec.gives_decode : Gives decode fun spec =>
    spec.encode.Defined ∧ ∀ type ∈ spec.instantiation, type.Shallow :=
  (gives_of_any _).bind fun _ _ => Ty.gives_decodeList.bind fun _ types => gives_pure
    ⟨defined_encode_iff.mpr ⟨types.1, fun type member => (types.2 type member).1⟩,
      fun type member => (types.2 type member).2⟩

theorem MethodSpec.encode_ne_nil {spec : MethodSpec} (written : spec.encode = .ok bytes) :
    bytes ≠ [] := by
  rintro rfl
  obtain ⟨instantiation, -, written⟩ := bind_eq_ok_iff.mp written
  simp [Write.token, littleEndian, pure, Except.pure] at written

theorem MethodSpec.takesIf_decode {spec : MethodSpec} (written : spec.encode = .ok bytes) :
    TakesIf (∀ type ∈ spec.instantiation, type.Shallow) decode bytes spec := by
  obtain ⟨instantiation, wroteInstantiation, written⟩ := bind_eq_ok_iff.mp written
  cases written
  unfold MethodSpec.decode
  exact (takes_token _).bindIf ((Ty.takesIf_decodeList wroteInstantiation).map _)

/-- What is kept of a body without its sequence points: small bodies do not tell how deep their stack
is. -/
def Body.stored (b : Body) : Body :=
  { b with maxStack := if b.fitsTiny && !b.initLocals then tinyStack else b.maxStack, points := [] }

/-- Code behind a small header. -/
private theorem Body.decodeTiny_header (first : UInt8) {code : List UInt8}
    (size : first.toNat / 4 = code.length) (tail : List UInt8) :
    decodeTiny first (first :: (code ++ tail)) =
      .ok ({ initLocals := false, code }, code.length + 1) := by
  unfold decodeTiny
  simp only [size]
  rw [if_neg (by simp), List.drop_one, List.tail_cons, List.take_left]
  rfl

/-- Code behind a large header. -/
private theorem Body.decodeFat_header {flags maxStack : Nat} {code : List UInt8}
    (small : flags < 0x10000) (header : flags / 0x1000 = 3) (sections : flags / moreSections % 2 = 0)
    (stack : maxStack < 0x10000) (short : code.length < 0x100000000) (tail : List UInt8) :
    decodeFat (littleEndian 2 flags ++ (littleEndian 2 maxStack ++ (littleEndian 4 code.length ++
      (littleEndian 4 0 ++ (code ++ tail))))) =
      .ok ({ maxStack := UInt16.ofNat maxStack
             initLocals := decide (flags / initLocalsFlag % 2 = 1), code },
        fatHeaderSize + code.length) := by
  -- The parts of the header are read at fixed places, so each is found behind those in front of it.
  have word (width n : Nat) (rest : List UInt8) :
      ofLittleEndian ((littleEndian width n ++ rest).take width) = n % 256 ^ width := by
    rw [List.take_left' (length_littleEndian width n), ofLittleEndian_littleEndian]
  have behind (width n : Nat) (rest : List UInt8) :
      (littleEndian width n ++ rest).drop width = rest :=
    List.drop_left' (length_littleEndian width n)
  generalize data : littleEndian 2 flags ++ (littleEndian 2 maxStack ++ (littleEndian 4 code.length ++
    (littleEndian 4 0 ++ (code ++ tail)))) = bytes
  have afterFlags : bytes.drop 2 = _ := data ▸ behind 2 flags _
  have afterStack : bytes.drop 4 = littleEndian 4 code.length ++ (littleEndian 4 0 ++
      (code ++ tail)) := by
    rw [← behind 2 maxStack (_ ++ _), ← afterFlags, List.drop_drop]
  have afterHeader : bytes.drop fatHeaderSize = code ++ tail := by
    rw [← behind 4 0 (code ++ tail), ← behind 4 code.length (_ ++ _), ← afterStack, List.drop_drop,
      List.drop_drop, fatHeaderSize]
  have flagsRead : ofLittleEndian (bytes.take 2) = flags := by
    rw [← data, word]
    exact Nat.mod_eq_of_lt small
  have stackRead : ofLittleEndian ((bytes.drop 2).take 2) = maxStack := by
    rw [afterFlags, word]
    exact Nat.mod_eq_of_lt stack
  have sizeRead : ofLittleEndian ((bytes.drop 4).take 4) = code.length := by
    rw [afterStack, word]
    exact Nat.mod_eq_of_lt short
  have length : bytes.length = fatHeaderSize + (code.length + tail.length) := by
    simp [← data, fatHeaderSize]
    omega
  have whole : flags / 0x1000 * 4 = fatHeaderSize := by rw [header, fatHeaderSize]
  unfold decodeFat
  simp only [flagsRead, stackRead, sizeRead, afterHeader, List.take_left, whole]
  rw [if_neg (by omega), if_neg (by simp), if_neg (by omega), if_neg (by omega)]
  rfl

/-- The code of a body is found behind its header, whatever follows. -/
theorem Body.decode_of_encode {b : Body} (written : b.encode = .ok bytes) (tail : List UInt8) :
    decode (bytes ++ tail) = .ok ({ b.stored with locals := [] }, bytes.length) := by
  unfold encode at written
  split at written
  case isTrue tiny =>
    cases written
    obtain ⟨fits, plain⟩ := Bool.and_eq_true_iff.mp tiny
    have short : b.code.length ≤ 63 := by
      simp only [fitsTiny, Bool.and_eq_true, decide_eq_true_eq] at fits
      exact fits.1.1
    have first : (UInt8.ofNat (b.code.length * 4 + 2)).toNat = b.code.length * 4 + 2 := by
      rw [UInt8.toNat_ofNat']
      omega
    have kind : (UInt8.ofNat (b.code.length * 4 + 2)).toNat % 4 = 2 := by
      rw [first]
      omega
    rw [List.cons_append, decode, kind]
    simp only
    rw [decodeTiny_header _ (by rw [first]; omega), stored, if_pos tiny]
    rw [Bool.not_eq_true'] at plain
    rw [plain]
    rfl
  case isFalse fat =>
    by_cases large : 0x100000000 ≤ b.code.length
    case pos =>
      rw [if_pos large] at written
      cases written
    case neg =>
      rw [if_neg large] at written
      -- All that the reader looks at in the flags of a large header.
      obtain ⟨flags, here, small, header, sections, kind, init⟩ : ∃ flags : Nat,
          3 * 0x1000 + (3 + if b.initLocals then initLocalsFlag else 0) = flags ∧
          flags < 0x10000 ∧ flags / 0x1000 = 3 ∧ flags / moreSections % 2 = 0 ∧
          (UInt8.ofNat flags).toNat % 4 = 3 ∧
          decide (flags / initLocalsFlag % 2 = 1) = b.initLocals := by
        refine ⟨_, rfl, ?_⟩
        cases b.initLocals <;> exact ⟨by decide, rfl, rfl, rfl, rfl⟩
      dsimp only at written
      rw [here] at written
      cases written
      have found := decodeFat_header small header sections b.maxStack.toNat_lt (Nat.not_le.mp large)
        tail
      have chosen (rest : List UInt8) :
          decode (littleEndian 2 flags ++ rest) = decodeFat (littleEndian 2 flags ++ rest) := by
        show decode (UInt8.ofNat flags :: _) = decodeFat (UInt8.ofNat flags :: _)
        rw [decode, kind]
        rfl
      simp only [List.append_assoc]
      rw [chosen, found, init, stored, if_neg fat, UInt16.ofNat_toNat]
      simp [fatHeaderSize]
      omega

/-- The code of a body can be written if its length can be said in 32 bits. -/
theorem Body.defined_encode_iff {b : Body} : b.encode.Defined ↔ b.code.length < 0x100000000 := by
  unfold encode
  split
  case isTrue tiny =>
    have short : b.code.length ≤ 63 := by
      simp only [fitsTiny, Bool.and_eq_true, decide_eq_true_eq] at tiny
      exact tiny.1.1.1
    exact ⟨fun _ => by omega, fun _ => Write.defined_pure _⟩
  case isFalse =>
    by_cases large : 0x100000000 ≤ b.code.length
    · rw [if_pos large]
      exact ⟨fun ⟨_, h⟩ => (nomatch h), fun small => absurd small (Nat.not_lt.mpr large)⟩
    · rw [if_neg large]
      exact ⟨fun _ => Nat.not_le.mp large, fun _ => Write.defined_pure _⟩

/-- A body that is found has code whose length can be said in 32 bits, and nothing that is kept
outside. -/
theorem Body.of_decode {data : List UInt8} {b : Body} {used : Nat} (h : decode data = .ok (b, used)) :
    b.code.length < 0x100000000 ∧ b.points = [] := by
  unfold decode at h
  split at h
  case h_1 => cases h
  case h_2 first rest =>
    split at h
    case h_1 =>
      unfold decodeTiny at h
      dsimp only at h
      split at h
      case isTrue => cases h
      case isFalse =>
        cases h
        -- The length of a small body is in its first byte.
        have := first.toNat_lt
        simp only [List.length_take]
        exact ⟨by omega, trivial⟩
    case h_2 =>
      unfold decodeFat at h
      simp only [guard_eq_ok_iff] at h
      obtain ⟨-, -, -, -, h⟩ := h
      cases h
      refine ⟨Nat.lt_of_le_of_lt (List.length_take_le _ _) (Nat.lt_of_lt_of_le
        (ofLittleEndian_lt _) (Nat.pow_le_pow_right (by decide) (List.length_take_le 4 _))), rfl⟩
    case h_3 => cases h

theorem Body.defined_encodeWithLocals_iff {b : Body} : b.encodeWithLocals.Defined ↔
    (b.locals.length < Write.numberLimit ∧ ∀ type ∈ b.locals, type.encode.Defined) ∧
      b.code.length < 0x100000000 := by
  rw [← Write.defined_list_iff, ← defined_encode_iff]
  exact Write.defined_bind_iff fun _ _ => Write.defined_bind_pure_iff

/-- Bodies that are read can be written, and have no sequence points yet. -/
theorem Body.gives_decodeWithLocals : Gives decodeWithLocals fun b =>
    b.encodeWithLocals.Defined ∧ (∀ type ∈ b.locals, type.Shallow) ∧ b.points = [] := by
  refine Ty.gives_decodeList.bind fun locals types => (gives_of_any _).bind fun start _ =>
    (gives_of_any _).bind fun left _ => (gives_of_any _).bind fun rest _ => ?_
  intro c b c' yields
  obtain ⟨⟨body, used⟩, found, yields⟩ := yields_liftM_bind.mp yields
  obtain ⟨small, none⟩ := of_decode found
  obtain ⟨u, c₁, -, yields⟩ := yields_bind.mp yields
  obtain ⟨rfl, -⟩ := yields_pure.mp yields
  exact ⟨defined_encodeWithLocals_iff.mpr
    ⟨⟨types.1, fun type member => (types.2 type member).1⟩, small⟩,
    fun type member => (types.2 type member).2, none⟩

/-- A body is looked for in all bytes that are left, and the cursor goes back behind it. -/
theorem Body.takesIf_decodeWithLocals {b : Body} (written : b.encodeWithLocals = .ok bytes) :
    TakesIf (∀ type ∈ b.locals, type.Shallow) decodeWithLocals bytes b.stored := by
  obtain ⟨locals, wroteLocals, written⟩ := bind_eq_ok_iff.mp written
  obtain ⟨body, wroteBody, written⟩ := bind_eq_ok_iff.mp written
  cases written
  unfold decodeWithLocals
  refine .congr ((Ty.takesIf_decodeList wroteLocals).bind (Takes.takesIf ?_)) (and_true _).to_iff
  intro c tail faces
  have size := faces.size_eq
  rw [List.length_append] at size
  have all : Takes (Read.bytes (body ++ tail).length) (body ++ tail) (body ++ tail) := takes_bytes _
  refine (yields_position.mpr ⟨rfl, rfl⟩).bind ((yields_remaining.mpr ⟨rfl, rfl⟩).bind ?_)
  rw [faces.remaining]
  refine (@all c [] (by rwa [List.append_nil])).bind ?_
  refine yields_liftM_bind.mpr ⟨_, decode_of_encode wroteBody tail, ?_⟩
  exact ((yields_seek (u := ())).mpr ⟨by rw [Cursor.skip_data]; omega, rfl⟩).bind
    (yields_pure.mpr ⟨rfl, rfl⟩)

/-- What is kept of a method definition without sequence points. -/
def MethodDef.stored (d : MethodDef) : MethodDef :=
  { d with flags := .ofBits d.flags.bits, body := d.body.map Body.stored }

/-- The types that the body of a method mentions, if it has one. -/
def MethodDef.locals (d : MethodDef) : List Ty := (d.body.map Body.locals).getD []

/-- The types that a method definition mentions. -/
def MethodDef.mentioned (d : MethodDef) : List Ty := d.parameters ++ d.returnType :: d.locals

/-- A definition is written with its body marked. -/
theorem MethodDef.encode_eq (d : MethodDef) : d.encode = (do
    let name ← Write.utf8 d.name
    let arity ← Write.compressedNat d.genericArity.toNat
    let parameters ← Ty.encodeList d.parameters
    let returnType ← d.returnType.encode
    let body ← Write.marked Body.encodeWithLocals d.body
    return Write.token d.owner ++ (name ++ (littleEndian 2 d.flags.bits.toNat ++ (arity ++
      (parameters ++ (returnType ++ body)))))) := by
  unfold encode
  simp only [List.append_assoc]
  cases d.body <;> simp [Write.marked]

theorem MethodDef.defined_encode_iff {d : MethodDef} : d.encode.Defined ↔
    (Write.utf8 d.name).Defined ∧ d.genericArity.toNat < Write.numberLimit ∧
      d.parameters.length < Write.numberLimit ∧ d.locals.length < Write.numberLimit ∧
        (∀ b ∈ d.body, b.code.length < 0x100000000) ∧
          ∀ type ∈ d.mentioned, type.encode.Defined := by
  have parts : (d.parameters.length < Write.numberLimit ∧
      ∀ type ∈ d.parameters, type.encode.Defined) ∧ d.returnType.encode.Defined ∧
        (∀ b ∈ d.body, b.encodeWithLocals.Defined) ↔
      d.parameters.length < Write.numberLimit ∧ d.locals.length < Write.numberLimit ∧
        (∀ b ∈ d.body, b.code.length < 0x100000000) ∧
          ∀ type ∈ d.mentioned, type.encode.Defined := by
    simp only [Body.defined_encodeWithLocals_iff, mentioned, locals, List.forall_mem_append,
      List.forall_mem_cons]
    cases d.body with
    | none => simp [Write.numberLimit, and_assoc]
    | some b =>
      simp only [Option.mem_some_iff, forall_eq', Option.map_some, Option.getD_some]
      constructor
      · rintro ⟨⟨few, parameters⟩, returnType, ⟨fewLocals, locals⟩, short⟩
        exact ⟨few, fewLocals, short, parameters, returnType, locals⟩
      · rintro ⟨few, fewLocals, short, parameters, returnType, locals⟩
        exact ⟨⟨few, parameters⟩, returnType, ⟨fewLocals, locals⟩, short⟩
  rw [encode_eq, ← parts, ← Write.defined_compressedNat_iff, ← Write.defined_list_iff,
    ← Write.defined_marked_iff]
  exact Write.defined_bind_iff fun _ _ => Write.defined_bind_iff fun _ _ =>
    Write.defined_bind_iff fun _ _ => Write.defined_bind_iff fun _ _ => Write.defined_bind_pure_iff

theorem MethodFlags.ofBits_ofBits (bits : UInt16) : ofBits (ofBits bits).bits = ofBits bits := by
  rw [ofBits, ofBits, UInt16.and_assoc, UInt16.and_self]

/-- Definitions that are read can be written, have no flags without meaning, and no sequence points
yet. -/
theorem MethodDef.gives_decode : Gives decode fun d =>
    d.encode.Defined ∧ (∀ type ∈ d.mentioned, type.Shallow) ∧ .ofBits d.flags.bits = d.flags ∧
      ∀ b ∈ d.body, b.points = [] := by
  refine (gives_of_any _).bind fun owner _ => gives_utf8.bind fun name wroteName =>
    (gives_of_any _).bind fun flags _ => gives_compressedNat.bind fun arity small =>
    Ty.gives_decodeList.bind fun parameters first => Ty.gives_decode.bind fun returnType last =>
    gives_marked (fun marker => .malformed (.bodyMarker marker)) Body.gives_decodeWithLocals
      fun body contents => gives_pure ?_
  have types {P : Ty → Prop} (first : ∀ type ∈ parameters, P type) (last : P returnType)
      (locals : ∀ b ∈ body, ∀ type ∈ b.locals, P type) :
      ∀ type ∈ parameters ++ returnType :: (body.map Body.locals).getD [], P type := by
    refine List.forall_mem_append.mpr ⟨first, List.forall_mem_cons.mpr ⟨last, ?_⟩⟩
    cases body with
    | none => simp
    | some b => exact locals b rfl
  have written (b : Body) (here : b ∈ body) :=
    Body.defined_encodeWithLocals_iff.mp (contents b here).1
  refine ⟨defined_encode_iff.mpr ⟨wroteName, Write.toNat_ofNat_lt small, first.1, ?_,
    fun b here => (written b here).2, ?_⟩, ?_, MethodFlags.ofBits_ofBits flags,
    fun b here => (contents b here).2.2⟩
  · cases body with
    | none => exact Nat.zero_lt_succ _
    | some b => exact (written b rfl).1.1
  · exact types (fun type member => (first.2 type member).1) last.1
      fun b here => (written b here).1.2
  · exact types (fun type member => (first.2 type member).2) last.2
      fun b here => (contents b here).2.1

theorem MethodDef.encode_ne_nil {d : MethodDef} (written : d.encode = .ok bytes) : bytes ≠ [] := by
  rintro rfl
  rw [encode_eq] at written
  obtain ⟨name, -, written⟩ := bind_eq_ok_iff.mp written
  obtain ⟨arity, -, written⟩ := bind_eq_ok_iff.mp written
  obtain ⟨parameters, -, written⟩ := bind_eq_ok_iff.mp written
  obtain ⟨returnType, -, written⟩ := bind_eq_ok_iff.mp written
  obtain ⟨body, -, written⟩ := bind_eq_ok_iff.mp written
  simp [Write.token, littleEndian, pure, Except.pure] at written

theorem MethodDef.takesIf_decode {d : MethodDef} (written : d.encode = .ok bytes) :
    TakesIf (∀ type ∈ d.mentioned, type.Shallow) decode bytes d.stored := by
  rw [encode_eq] at written
  obtain ⟨name, wroteName, written⟩ := bind_eq_ok_iff.mp written
  obtain ⟨arity, wroteArity, written⟩ := bind_eq_ok_iff.mp written
  obtain ⟨parameters, wroteParameters, written⟩ := bind_eq_ok_iff.mp written
  obtain ⟨returnType, wroteReturnType, written⟩ := bind_eq_ok_iff.mp written
  obtain ⟨body, wroteBody, written⟩ := bind_eq_ok_iff.mp written
  cases written
  have parts : (∀ type ∈ d.parameters, type.Shallow) ∧ d.returnType.Shallow ∧
      (∀ b ∈ d.body, ∀ type ∈ b.locals, type.Shallow) ∧ True ↔
        ∀ type ∈ d.mentioned, type.Shallow := by
    rw [mentioned, List.forall_mem_append, List.forall_mem_cons, and_true, locals]
    cases d.body <;> simp
  have same : d.stored = { d with
      body := d.body.map Body.stored
      flags := .ofBits d.flags.bits
      genericArity := UInt32.ofNat d.genericArity.toNat } := by
    rw [UInt32.ofNat_toNat, stored]
  unfold MethodDef.decode
  refine .congr ((takes_token _).bindIf ((takes_utf8 wroteName).bindIf
    ((takes_word16 _).bindIf ((takes_compressedNat wroteArity).bindIf
      ((Ty.takesIf_decodeList wroteParameters).bind
        ((Ty.takesIf_decode wroteReturnType).bind ?_)))))) parts
  rw [← List.append_nil body]
  refine takesIf_marked (fun marker => .malformed (.bodyMarker marker))
    (fun _ _ _ wrote => Body.takesIf_decodeWithLocals wrote) wroteBody ?_
  rw [same]
  exact (takes_pure _).takesIf

end Rows

end Interpose
