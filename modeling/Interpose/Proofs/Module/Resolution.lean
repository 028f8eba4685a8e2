import Interpose.Module.Edit
import Interpose.Module.Resolve
import Interpose.Proofs.Outcome

/-!
# What tokens stand for

A token names a table and a row of it.  A token of a method is resolved in at most two steps: an
instantiation names a definition or a reference, and these tell the method.

## Main definitions

* `MethodDef.methodIn` — the method that a definition declares in a type
* `Module.Resolves` — another module has what the tokens of methods are resolved with

## Main results

* `Module.row_eq_ok_iff` — which row a token names
* `Module.methodAt_eq_ok_iff`, `Module.typeAt_eq_ok_iff` — which methods and types tokens stand for
* `Module.Resolves.methodAt` — tokens of methods stand for the same methods in the other module
-/

namespace Interpose

namespace Token

theorem row_tokenAt {id : Table} {index : Nat} (h : index < Edit.rowLimit) :
    (Module.tokenAt id index).row = index + 1 := by
  unfold Edit.rowLimit at h
  rw [Module.tokenAt, row_ofRow, Nat.mod_eq_of_lt (by omega)]

theorem index?_ofRow {id : Table} {index : Nat} (h : index < Edit.rowLimit) :
    (Module.tokenAt id index).index? = some index := by
  rw [index?, row_tokenAt h, if_neg (Nat.succ_ne_zero index), Nat.add_sub_cancel]

theorem isIn_tokenAt (id : Table) (index : Nat) : (Module.tokenAt id index).isIn id = true := by
  rw [isIn, Module.tokenAt, tableNumber_ofRow]
  simp

theorem table?_of_isIn {token : Token} {id : Table} (h : token.isIn id = true) :
    token.table? = some id := by
  rw [isIn, decide_eq_true_iff] at h
  rw [table?, h, Table.ofNumber?_number]

/-- A token is made of its table and its row. -/
theorem eq_tokenAt {token : Token} {id : Table} (h : token.isIn id = true) (some : 0 < token.row) :
    token = Module.tokenAt id (token.row - 1) := by
  have number : token.value.toNat / 0x1000000 = id.number.toNat := by
    have whole := token.value.toNat_lt
    have same : token.tableNumber = id.number := by simpa [isIn] using h
    rw [tableNumber, ← UInt8.toNat_inj, UInt8.toNat_ofNat'] at same
    omega
  have row : token.row % 0x1000000 = token.value.toNat % 0x1000000 := Nat.mod_mod _ _
  have value : id.number.toNat * 0x1000000 + token.row % 0x1000000 = token.value.toNat := by
    rw [row]
    omega
  cases token with
  | mk bits =>
    rw [Module.tokenAt, Nat.sub_add_cancel some, ofRow, value, UInt32.ofNat_toNat]

/-- A token that has an index is made of its table and the index. -/
theorem eq_tokenAt_of_index? {token : Token} {id : Table} {index : Nat}
    (inside : token.isIn id = true) (named : token.index? = some index) :
    index < Edit.rowLimit ∧ token = Module.tokenAt id index := by
  unfold index? at named
  split at named
  case isTrue => cases named
  case isFalse positive =>
    cases named
    have bound : token.row < 0x1000000 := Nat.mod_lt _ (by decide)
    refine ⟨?_, eq_tokenAt inside (Nat.pos_of_ne_zero positive)⟩
    unfold Edit.rowLimit
    omega

end Token

namespace Edit

theorem tokenOf_eq_ok_iff {id : Table} {index : Nat} {token : Token} :
    tokenOf id index = .ok token ↔ index < rowLimit ∧ Module.tokenAt id index = token := by
  unfold tokenOf
  by_cases small : index < rowLimit
  · rw [if_pos small]
    exact ⟨fun h => ⟨small, Except.ok.inj h⟩, fun h => congrArg Except.ok h.2⟩
  · rw [if_neg small]
    exact ⟨fun h => (nomatch h), fun h => absurd h.1 small⟩

end Edit

namespace Module

section Rows

variable {α : Type} {table table' : Array α} {id : Table} {token : Token} {a : α}

theorem row_eq_ok_iff : row table id token = .ok a ↔
    token.isIn id = true ∧ ∃ index, token.index? = some index ∧ table[index]? = some a := by
  unfold row
  cases inside : token.isIn id with
  | false => simp [throw, throwThe, MonadExceptOf.throw]
  | true =>
    cases found : token.index? with
    | none => simp [throw, throwThe, MonadExceptOf.throw]
    | some index =>
      cases entry : table[index]? with
      | none => simp [entry, throw, throwThe, MonadExceptOf.throw]
      | some b => simp [entry, pure, Except.pure]

theorem row_tokenAt {index : Nat} (small : index < Edit.rowLimit) (h : table[index]? = some a) :
    row table id (tokenAt id index) = .ok a :=
  row_eq_ok_iff.mpr ⟨Token.isIn_tokenAt id index, index, Token.index?_ofRow small, h⟩

/-- A token with a row names the table of the row. -/
theorem table?_of_row (h : row table id token = .ok a) : token.table? = some id :=
  Token.table?_of_isIn (row_eq_ok_iff.mp h).1

theorem mem_of_row (h : row table id token = .ok a) : a ∈ table := by
  obtain ⟨-, index, -, found⟩ := row_eq_ok_iff.mp h
  exact Array.mem_of_getElem? found

/-- A longer table has the rows of a shorter one. -/
theorem row_of_prefix (longer : table.toList <+: table'.toList) (h : row table id token = .ok a) :
    row table' id token = .ok a := by
  obtain ⟨inside, index, found, entry⟩ := row_eq_ok_iff.mp h
  refine row_eq_ok_iff.mpr ⟨inside, index, found, ?_⟩
  obtain ⟨tail, same⟩ := longer
  rw [← Array.getElem?_toList] at entry ⊢
  obtain ⟨bound, -⟩ := List.getElem?_eq_some_iff.mp entry
  rw [← same, List.getElem?_append_left bound]
  exact entry

theorem row_map {β : Type} (f : α → β) : row (table.map f) id token = f <$> row table id token := by
  unfold row
  cases inside : token.isIn id with
  | false => rfl
  | true =>
    cases found : token.index? with
    | none => rfl
    | some index =>
      simp only [Bool.not_true, Bool.false_eq_true, if_false, Option.bind_some,
        Array.getElem?_map]
      cases table[index]? <;> rfl

end Rows

end Module

/-- The method that a definition declares in a type. -/
def MethodDef.methodIn (d : MethodDef) (owner : TypeDef) : Method where
  declaringType := owner.type
  name := d.name
  parameters := d.parameters
  returnType := d.returnType
  genericArity := d.genericArity
  flags := d.flags

namespace Module

variable {m m' : Module} {token : Token} {method : Method} {r : MemberRef} {d : MethodDef}

theorem definedMethod_eq_ok_iff : m.definedMethod token = .ok method ↔ ∃ d owner,
    m.methodDefAt token = .ok d ∧ m.typeDefAt d.owner = .ok owner ∧ method = d.methodIn owner := by
  constructor
  · intro known
    obtain ⟨d, found, known⟩ := bind_eq_ok_iff.mp known
    obtain ⟨owner, owned, known⟩ := bind_eq_ok_iff.mp known
    exact ⟨d, owner, found, owned, (Except.ok.inj known).symm⟩
  · rintro ⟨d, owner, found, owned, rfl⟩
    exact bind_eq_ok_iff.mpr ⟨d, found, bind_eq_ok_iff.mpr ⟨owner, owned, rfl⟩⟩

theorem table?_of_definedMethod (known : m.definedMethod token = .ok method) :
    token.table? = some .methodDef := by
  obtain ⟨d, owner, found, -⟩ := definedMethod_eq_ok_iff.mp known
  exact table?_of_row found

/-- A token of a definition or of a reference stands for the method that is declared there. -/
theorem genericMethodAt_eq_ok_iff : m.genericMethodAt token = .ok method ↔
    m.definedMethod token = .ok method ∨ ∃ r, m.memberRefAt token = .ok r ∧ method = r.method := by
  unfold genericMethodAt
  constructor
  · intro known
    split at known
    case h_1 => exact .inl known
    case h_2 =>
      obtain ⟨r, found, known⟩ := bind_eq_ok_iff.mp known
      exact .inr ⟨r, found, (Except.ok.inj known).symm⟩
    case h_3 => cases known
  · rintro (defined | ⟨r, found, rfl⟩)
    · rw [table?_of_definedMethod defined]
      exact defined
    · rw [table?_of_row found]
      exact bind_eq_ok_iff.mpr ⟨r, found, rfl⟩

/-- Instantiations are not instantiated again. -/
theorem table?_ne_methodSpec (known : m.genericMethodAt token = .ok method) :
    token.table? ≠ some .methodSpec := by
  intro table
  unfold genericMethodAt at known
  rw [table] at known
  cases known

/-- A token of a method stands for what is declared there, or for an instance of it with as many type
arguments as it has type parameters. -/
theorem methodAt_eq_ok_iff : m.methodAt token = .ok method ↔
    m.genericMethodAt token = .ok method ∨ ∃ spec generic, m.methodSpecAt token = .ok spec ∧
      m.genericMethodAt spec.method = .ok generic ∧
      generic.genericArity.toNat = spec.instantiation.length ∧
      method = generic.instantiate spec.instantiation := by
  unfold methodAt
  constructor
  · intro known
    split at known
    case h_1 =>
      obtain ⟨spec, found, known⟩ := bind_eq_ok_iff.mp known
      obtain ⟨-, known⟩ := guard_eq_ok_iff.mp known
      obtain ⟨generic, stands, known⟩ := bind_eq_ok_iff.mp known
      obtain ⟨arity, known⟩ := guard_eq_ok_iff.mp known
      exact .inr ⟨spec, generic, found, stands, Decidable.not_not.mp arity,
        (Except.ok.inj known).symm⟩
    case h_2 => exact .inl known
  · rintro (known | ⟨spec, generic, found, stands, arity, rfl⟩)
    · split
      case h_1 table => exact absurd table (table?_ne_methodSpec known)
      case h_2 => exact known
    · rw [table?_of_row found]
      -- What is instantiated is no instance itself.
      have whole : ¬ spec.method.isIn .methodSpec := fun nested =>
        table?_ne_methodSpec stands (Token.table?_of_isIn nested)
      exact bind_eq_ok_iff.mpr ⟨spec, found, guard_eq_ok_iff.mpr ⟨whole,
        bind_eq_ok_iff.mpr ⟨generic, stands, guard_eq_ok_iff.mpr ⟨not_not_intro arity, rfl⟩⟩⟩⟩

/-- A token of a type stands for the type of a definition or for a composed type. -/
theorem typeAt_eq_ok_iff {type : Ty} : m.typeAt token = .ok type ↔
    (∃ d, m.typeDefAt token = .ok d ∧ type = d.type) ∨
      row m.typeSpecs .typeSpec token = .ok type := by
  unfold typeAt
  constructor
  · intro known
    split at known
    case h_1 =>
      obtain ⟨d, found, known⟩ := bind_eq_ok_iff.mp known
      exact .inl ⟨d, found, (Except.ok.inj known).symm⟩
    case h_2 => exact .inr known
    case h_3 => cases known
  · rintro (⟨d, found, rfl⟩ | found)
    · rw [table?_of_row found]
      exact bind_eq_ok_iff.mpr ⟨d, found, rfl⟩
    · rw [table?_of_row found]
      exact found

/-- Only tokens of methods stand for methods. -/
theorem table?_of_methodAt (known : m.methodAt token = .ok method) :
    token.table? = some .methodDef ∨ token.table? = some .memberRef ∨
      token.table? = some .methodSpec := by
  rcases methodAt_eq_ok_iff.mp known with known | ⟨spec, -, found, -⟩
  · rcases genericMethodAt_eq_ok_iff.mp known with defined | ⟨r, found, -⟩
    · exact .inl (table?_of_definedMethod defined)
    · exact .inr (.inl (table?_of_row found))
  · exact .inr (.inr (table?_of_row found))

/-- What tokens of methods are resolved with in one module is there in another one. -/
structure Resolves (m m' : Module) : Prop where
  definedMethod {token : Token} {method : Method} :
    m.definedMethod token = .ok method → m'.definedMethod token = .ok method
  memberRefAt {token : Token} {r : MemberRef} :
    m.memberRefAt token = .ok r → m'.memberRefAt token = .ok r
  methodSpecAt {token : Token} {spec : MethodSpec} :
    m.methodSpecAt token = .ok spec → m'.methodSpecAt token = .ok spec

namespace Resolves

theorem genericMethodAt (h : m.Resolves m') (known : m.genericMethodAt token = .ok method) :
    m'.genericMethodAt token = .ok method := by
  refine genericMethodAt_eq_ok_iff.mpr ?_
  rcases genericMethodAt_eq_ok_iff.mp known with defined | ⟨r, found, same⟩
  · exact .inl (h.definedMethod defined)
  · exact .inr ⟨r, h.memberRefAt found, same⟩

/-- Tokens of methods stand for the same methods in the other module. -/
theorem methodAt (h : m.Resolves m') (known : m.methodAt token = .ok method) :
    m'.methodAt token = .ok method := by
  refine methodAt_eq_ok_iff.mpr ?_
  rcases methodAt_eq_ok_iff.mp known with known | ⟨spec, generic, found, stands, arity, same⟩
  · exact .inl (h.genericMethodAt known)
  · exact .inr ⟨spec, generic, h.methodSpecAt found, h.genericMethodAt stands, arity, same⟩

end Resolves

end Module

section Methods

variable {module : Module} {token : Token} {r : MemberRef} {d : MethodDef}

/-- The method that a reference stands for. -/
theorem methodAt_of_memberRefAt (h : module.memberRefAt token = .ok r) :
    module.methodAt token = .ok r.method :=
  Module.methodAt_eq_ok_iff.mpr (.inl (Module.genericMethodAt_eq_ok_iff.mpr (.inr ⟨r, h, rfl⟩)))

theorem isIn_methodDef_of_memberRefAt (h : module.memberRefAt token = .ok r) :
    token.isIn .methodDef = false := by
  obtain ⟨inside, -⟩ := Module.row_eq_ok_iff.mp h
  unfold Token.isIn at inside ⊢
  rw [decide_eq_true_eq] at inside
  rw [inside]
  rfl

/-- The method that a definition stands for, as a token. -/
theorem methodAt_of_methodDefAt (h : module.methodDefAt token = .ok d) :
    module.methodAt token = module.definedMethod token := by
  unfold Module.methodAt Module.genericMethodAt
  simp only [Module.table?_of_row h]

end Methods

end Interpose
