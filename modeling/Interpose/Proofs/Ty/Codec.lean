import Interpose.Proofs.Bytes.Canonical
import Interpose.Ty.Codec

/-!
# Types are read back

A type that is read from its written form is the type that was written.  Types that are nested too deep
are written, but reading them fails.

## Main definitions

* `Ty.depth` — how deep a type is nested
* `Ty.Shallow` — the type is not nested too deep to be read
* `Ty.nestingError` — the error of a read that meets a type nested too deep

## Main results

* `Ty.gives_decode` — types that are read are shallow and can be written
* `Ty.takesOr_decode` — just the shallow types are read back, and the others are refused for their depth
* `Ty.takesIf_decode`, `Ty.takesIf_decodeList` — the same where it does not matter how a read fails
-/

namespace Interpose

theorem Builtin.ofElement?_element (type : Builtin) : ofElement? type.element = some type := by
  cases type <;> decide

namespace Ty

mutual

/-- How deep the parts of a type are nested, the whole type being at depth zero. -/
def depth : Ty → Nat
  | inst generic arguments => max generic.depth (depthAll arguments) + 1
  | byRef target => target.depth + 1
  | array element => element.depth + 1
  | _ => 0

/-- How deep the types of a list are nested. -/
def depthAll : List Ty → Nat
  | [] => 0
  | type :: rest => max type.depth (depthAll rest)

end

/-- The type is not nested too deep to be read. -/
def Shallow (type : Ty) : Prop := type.depth ≤ nestingLimit

instance (type : Ty) : Decidable type.Shallow := inferInstanceAs (Decidable (_ ≤ _))

variable {bytes : List UInt8}

theorem depthAll_lt_iff {levels : Nat} (positive : 0 < levels) (types : List Ty) :
    depthAll types < levels ↔ ∀ type ∈ types, type.depth < levels := by
  induction types with
  | nil => simpa [depthAll] using positive
  | cons type rest ih => rw [depthAll, List.forall_mem_cons, ← ih, Nat.max_lt]

theorem encode_ne_nil {type : Ty} (written : type.encode = .ok bytes) : bytes ≠ [] := by
  rintro rfl
  cases type
  case builtin => cases written
  case inst =>
    obtain ⟨base, -, written⟩ := bind_eq_ok_iff.mp written
    obtain ⟨count, -, written⟩ := bind_eq_ok_iff.mp written
    obtain ⟨rest, -, written⟩ := bind_eq_ok_iff.mp written
    cases written
  all_goals
    obtain ⟨part, -, written⟩ := bind_eq_ok_iff.mp written
    cases written

/-- The written form of an instance of a generic type. -/
theorem defined_encode_inst_iff {generic : Ty} {arguments : List Ty} :
    (inst generic arguments).encode.Defined ↔ generic.encode.Defined ∧
      arguments.length < Write.numberLimit ∧ ∀ type ∈ arguments, type.encode.Defined := by
  rw [encode, encodeAll_eq_concat, ← Write.defined_length_iff, ← Write.defined_concat_iff]
  exact Write.defined_bind_iff fun _ _ => Write.defined_bind_iff fun _ _ =>
    Write.defined_bind_pure_iff

theorem defined_encode_typeParameter_iff {index : UInt32} :
    (typeParameter index).encode.Defined ↔ index.toNat < Write.numberLimit := by
  rw [encode, ← Write.defined_compressedNat_iff]
  exact Write.defined_bind_pure_iff

theorem defined_encode_methodParameter_iff {index : UInt32} :
    (methodParameter index).encode.Defined ↔ index.toNat < Write.numberLimit := by
  rw [encode, ← Write.defined_compressedNat_iff]
  exact Write.defined_bind_pure_iff

theorem defined_encode_byRef_iff {target : Ty} :
    (byRef target).encode.Defined ↔ target.encode.Defined := by
  rw [encode]
  exact Write.defined_bind_pure_iff

theorem defined_encode_array_iff {element : Ty} :
    (array element).encode.Defined ↔ element.encode.Defined := by
  rw [encode]
  exact Write.defined_bind_pure_iff

/-- Types that are read can be written, and have no more levels than were asked for. -/
theorem gives_decodeLevels (levels : Nat) :
    Gives (decodeLevels levels) fun type => type.encode.Defined ∧ type.depth < levels := by
  induction levels with
  | zero => exact gives_throw _
  | succ levels ih =>
    refine (gives_of_any _).bind fun offset _ => (gives_of_any _).bind fun element _ => ?_
    cases Builtin.ofElement? element with
    | some type => exact gives_pure ⟨Write.defined_pure _, by simp [depth]⟩
    | none =>
      -- The cases stand in the order in which the element bytes are compared.
      refine .ite (fun _ => ?_) fun _ => .ite (fun _ => ?_) fun _ => .ite (fun _ => ?_) fun _ =>
        .ite (fun _ => ?_) fun _ => .ite (fun _ => ?_) fun _ => .ite (fun _ => ?_) fun _ =>
        .ite (fun _ => ?_) fun _ => gives_throw _
      case refine_1 | refine_2 =>
        refine gives_utf8.bind fun name text => gives_pure ⟨?_, by simp [depth]⟩
        rw [encode]
        exact Write.defined_bind_pure_iff.mpr text
      case refine_3 =>
        refine ih.bind fun generic first => ih.list.bind fun arguments rest => gives_pure ⟨?_, ?_⟩
        · exact defined_encode_inst_iff.mpr
            ⟨first.1, rest.1, fun type member => (rest.2 type member).1⟩
        · rw [depth, Nat.add_lt_add_iff_right, Nat.max_lt,
            depthAll_lt_iff (Nat.zero_lt_of_lt first.2)]
          exact ⟨first.2, fun type member => (rest.2 type member).2⟩
      case refine_4 =>
        exact gives_compressedNat.bind fun n small => gives_pure
          ⟨defined_encode_typeParameter_iff.mpr (Write.toNat_ofNat_lt small), by simp [depth]⟩
      case refine_5 =>
        exact gives_compressedNat.bind fun n small => gives_pure
          ⟨defined_encode_methodParameter_iff.mpr (Write.toNat_ofNat_lt small), by simp [depth]⟩
      case refine_6 =>
        exact ih.bind fun target inner => gives_pure
          ⟨defined_encode_byRef_iff.mpr inner.1, by rw [depth]; omega⟩
      case refine_7 =>
        exact ih.bind fun element inner => gives_pure
          ⟨defined_encode_array_iff.mpr inner.1, by rw [depth]; omega⟩

/-- Types that are read can be written, and are not nested too deep. -/
theorem gives_decode : Gives decode fun type => type.encode.Defined ∧ type.Shallow :=
  fun _ _ _ h => (gives_decodeLevels _ h).imp_right Nat.lt_add_one_iff.mp

theorem gives_decodeList : Gives decodeList fun types => types.length < Write.numberLimit ∧
    ∀ type ∈ types, type.encode.Defined ∧ type.Shallow :=
  gives_decode.list

/-- Behind the element byte of a type that is not built in, its parts follow. -/
private theorem takesOr_decodeLevels_succ {levels : Nat} {type : Ty} {element : UInt8} {P : Prop}
    {kind : Error → Prop}
    (composed : Builtin.ofElement? element = none)
    (parts : ∀ offset, TakesOr kind P (if element = classTypeElement then return classType (← Read.utf8)
      else if element = valueTypeElement then return valueType (← Read.utf8)
      else if element = instElement then do
        let generic ← decodeLevels levels
        return inst generic (← Read.list (decodeLevels levels))
      else if element = typeParameterElement then
        return typeParameter (UInt32.ofNat (← Read.compressedNat))
      else if element = methodParameterElement then
        return methodParameter (UInt32.ofNat (← Read.compressedNat))
      else if element = byRefElement then return byRef (← decodeLevels levels)
      else if element = arrayElement then return array (← decodeLevels levels)
      else Read.malformed (.unknownElement element offset)) bytes type) :
    TakesOr kind P (decodeLevels (levels + 1)) (element :: bytes) type := by
  unfold decodeLevels
  refine .position_bind fun offset => (takes_byte element).bindOr (v := bytes) ?_
  rw [composed]
  exact parts offset

/-- The error of a read that meets a type nested too deep. -/
def nestingError : Error := .malformed (.typeNesting nestingLimit)

/-- A type is read back by a read of so many levels just if it is not nested deeper, and nothing else than
its depth keeps it from being read. -/
theorem takesOr_decodeLevels {type : Ty} (levels : Nat) (written : type.encode = .ok bytes) :
    TakesOr (· = nestingError) (type.depth < levels) (decodeLevels levels) bytes type := by
  -- The induction is on the levels and not on the type: the parts of a type are read with one less.
  induction levels generalizing type bytes with
  | zero => exact .congr (takesOr_throw (e := nestingError) rfl) (by simp)
  | succ levels ih =>
    cases type with
    | builtin type =>
      rw [encode] at written
      cases written
      unfold decodeLevels
      refine .position_bind fun offset => (takes_byte type.element).bindOr (v := []) ?_
      rw [Builtin.ofElement?_element]
      exact (takes_pure _).takesOr.congr (by simp [depth])
    | classType name =>
      rw [encode] at written
      obtain ⟨text, wrote, written⟩ := bind_eq_ok_iff.mp written
      cases written
      refine takesOr_decodeLevels_succ rfl fun offset => ?_
      rw [if_pos rfl]
      exact ((takes_utf8 wrote).map classType).takesOr.congr (by simp [depth])
    | valueType name =>
      rw [encode] at written
      obtain ⟨text, wrote, written⟩ := bind_eq_ok_iff.mp written
      cases written
      refine takesOr_decodeLevels_succ rfl fun offset => ?_
      rw [if_neg (by decide), if_pos rfl]
      exact ((takes_utf8 wrote).map valueType).takesOr.congr (by simp [depth])
    | inst generic arguments =>
      rw [encode, encodeAll_eq_concat] at written
      obtain ⟨base, wroteBase, written⟩ := bind_eq_ok_iff.mp written
      obtain ⟨count, wroteCount, written⟩ := bind_eq_ok_iff.mp written
      obtain ⟨rest, wroteRest, written⟩ := bind_eq_ok_iff.mp written
      cases written
      have wroteAll : Write.list encode arguments = .ok (count ++ rest) :=
        bind_eq_ok_iff.mpr ⟨count, wroteCount, bind_eq_ok_iff.mpr ⟨rest, wroteRest, rfl⟩⟩
      have all := takesOr_list (fun _ _ _ wrote => ih wrote) (fun _ _ _ => encode_ne_nil) wroteAll
      have parts : generic.depth < levels ∧ (∀ type ∈ arguments, type.depth < levels) ↔
          (inst generic arguments).depth < levels + 1 := by
        rw [depth, Nat.add_lt_add_iff_right, Nat.max_lt]
        exact and_congr_right fun h => (depthAll_lt_iff (Nat.zero_lt_of_lt h) _).symm
      rw [List.cons_append, List.cons_append, List.append_assoc]
      refine takesOr_decodeLevels_succ rfl fun offset => ?_
      rw [if_neg (by decide), if_neg (by decide), if_pos rfl]
      exact ((ih wroteBase).bind (all.map (inst generic))).congr parts
    | typeParameter index =>
      rw [encode] at written
      obtain ⟨number, wrote, written⟩ := bind_eq_ok_iff.mp written
      cases written
      refine takesOr_decodeLevels_succ rfl fun offset => ?_
      rw [if_neg (by decide), if_neg (by decide), if_neg (by decide), if_pos rfl]
      have read := (takes_compressedNat wrote).map fun n => typeParameter (UInt32.ofNat n)
      rw [UInt32.ofNat_toNat] at read
      exact read.takesOr.congr (by simp [depth])
    | methodParameter index =>
      rw [encode] at written
      obtain ⟨number, wrote, written⟩ := bind_eq_ok_iff.mp written
      cases written
      refine takesOr_decodeLevels_succ rfl fun offset => ?_
      rw [if_neg (by decide), if_neg (by decide), if_neg (by decide), if_neg (by decide), if_pos rfl]
      have read := (takes_compressedNat wrote).map fun n => methodParameter (UInt32.ofNat n)
      rw [UInt32.ofNat_toNat] at read
      exact read.takesOr.congr (by simp [depth])
    | byRef target =>
      rw [encode] at written
      obtain ⟨inner, wrote, written⟩ := bind_eq_ok_iff.mp written
      cases written
      refine takesOr_decodeLevels_succ rfl fun offset => ?_
      rw [if_neg (by decide), if_neg (by decide), if_neg (by decide), if_neg (by decide),
        if_neg (by decide), if_pos rfl]
      exact ((ih wrote).map byRef).congr Nat.add_lt_add_iff_right.symm
    | array element =>
      rw [encode] at written
      obtain ⟨inner, wrote, written⟩ := bind_eq_ok_iff.mp written
      cases written
      refine takesOr_decodeLevels_succ rfl fun offset => ?_
      rw [if_neg (by decide), if_neg (by decide), if_neg (by decide), if_neg (by decide),
        if_neg (by decide), if_neg (by decide), if_pos rfl]
      exact ((ih wrote).map array).congr Nat.add_lt_add_iff_right.symm

/-- Just the types that are not nested too deep are read back. -/
theorem takesOr_decode {type : Ty} (written : type.encode = .ok bytes) :
    TakesOr (· = nestingError) type.Shallow decode bytes type :=
  (takesOr_decodeLevels _ written).congr Nat.lt_add_one_iff

theorem takesIf_decode {type : Ty} (written : type.encode = .ok bytes) :
    TakesIf type.Shallow decode bytes type :=
  (takesOr_decode written).takesIf

/-- So are the lists of such types. -/
theorem takesIf_decodeList {types : List Ty} (written : encodeList types = .ok bytes) :
    TakesIf (∀ type ∈ types, type.Shallow) decodeList bytes types :=
  takesIf_list (fun _ _ _ => takesIf_decode) (fun _ _ _ => encode_ne_nil) written

end Ty

end Interpose
