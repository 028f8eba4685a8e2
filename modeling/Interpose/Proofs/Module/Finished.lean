import Interpose.Proofs.Module.Growth
import Mathlib.Tactic.Tauto

/-!
# The table of finished methods

The tokens of the methods that have been woven are kept in order, each once.  So there are no more of
them than methods, and adding them again in their order gives the same table.

## Main definitions

* `Edit.Ordered` — tokens in increasing order, each once

## Main results

* `Edit.Ordered.insertToken` — the table stays in order
* `Edit.foldl_insertToken` — tokens in order are added one behind the other
* `Module.length_le_of_ordered` — there are no more finished methods than methods
-/

namespace Interpose

namespace Edit

variable {token other : Token} {list tokens : List Token}

theorem mem_insertToken : other ∈ insertToken token list ↔ other = token ∨ other ∈ list := by
  induction list with
  | nil => simp [insertToken]
  | cons first rest ih =>
    unfold insertToken
    split
    case isTrue same => simp [same]
    case isFalse =>
      split
      · simp
      · rw [List.mem_cons, ih, List.mem_cons]
        tauto

/-- Tokens in increasing order, each once. -/
def Ordered (list : List Token) : Prop := list.Pairwise (·.value < ·.value)

/-- A token is put in its place. -/
theorem Ordered.insertToken (h : Ordered list) (token : Token) :
    Ordered (insertToken token list) := by
  induction list with
  | nil => exact List.pairwise_singleton _ _
  | cons first rest ih =>
    obtain ⟨below, ordered⟩ := List.pairwise_cons.mp h
    unfold Edit.insertToken
    split
    case isTrue => exact h
    case isFalse ne =>
      split
      case isTrue less =>
        refine List.pairwise_cons.mpr ⟨?_, h⟩
        rintro other (_ | ⟨_, member⟩)
        · exact less
        · exact UInt32.lt_trans less (below other member)
      -- The token goes behind the first one, as it is neither equal to it nor below it.
      case isFalse least =>
        refine List.pairwise_cons.mpr ⟨fun other member => ?_, ih ordered⟩
        rcases mem_insertToken.mp member with rfl | member
        · have apart : other.value ≠ first.value := by
            rintro same
            cases other
            cases first
            exact ne (congrArg Token.mk same)
          rw [UInt32.lt_iff_toNat_lt] at least ⊢
          have := mt UInt32.toNat_inj.mp apart
          omega
        · exact below other member

/-- A token that is there already is not added. -/
theorem insertToken_of_mem (h : Ordered list) (member : token ∈ list) :
    insertToken token list = list := by
  induction list with
  | nil => cases member
  | cons first rest ih =>
    obtain ⟨below, ordered⟩ := List.pairwise_cons.mp h
    unfold insertToken
    split
    case isTrue => rfl
    case isFalse ne =>
      obtain member := (List.mem_cons.mp member).resolve_left ne
      rw [if_neg (UInt32.lt_asymm (below token member)), ih ordered member]

/-- A token above all others is added behind them. -/
theorem insertToken_of_forall_lt (h : ∀ other ∈ list, other.value < token.value) :
    insertToken token list = list ++ [token] := by
  induction list with
  | nil => rfl
  | cons first rest ih =>
    obtain ⟨least, later⟩ := List.forall_mem_cons.mp h
    unfold insertToken
    rw [if_neg, if_neg (UInt32.lt_asymm least), ih later, List.cons_append]
    rintro rfl
    exact UInt32.lt_irrefl _ least

/-- Tokens in increasing order stay so if they are added one by one. -/
theorem foldl_insertToken (h : Ordered (list ++ tokens)) :
    tokens.foldl (fun list token => insertToken token list) list = list ++ tokens := by
  induction tokens generalizing list with
  | nil => rw [List.foldl_nil, List.append_nil]
  | cons token rest ih =>
    obtain ⟨-, -, below⟩ := List.pairwise_append.mp h
    have above (other : Token) (member : other ∈ list) : other.value < token.value :=
      below other member token List.mem_cons_self
    rw [List.foldl_cons, insertToken_of_forall_lt above, ih (by simpa using h)]
    simp

theorem Ordered.foldl_insertToken (h : Ordered list) (tokens : List Token) :
    Ordered (tokens.foldl (fun list token => Edit.insertToken token list) list) := by
  induction tokens generalizing list with
  | nil => exact h
  | cons token rest ih => exact ih (h.insertToken token)

theorem mem_foldl_insertToken :
    other ∈ tokens.foldl (fun list token => insertToken token list) list ↔
      other ∈ tokens ∨ other ∈ list := by
  induction tokens generalizing list with
  | nil => simp
  | cons token rest ih =>
    rw [List.foldl_cons, ih, mem_insertToken, List.mem_cons]
    tauto

/-- There are no more different numbers than between two bounds. -/
theorem Ordered.length_le (low count : Nat) (h : Ordered list)
    (inside : ∀ token ∈ list, low ≤ token.value.toNat ∧ token.value.toNat < low + count) :
    list.length ≤ count := by
  induction list generalizing low count with
  | nil => exact Nat.zero_le _
  | cons first rest ih =>
    obtain ⟨below, ordered⟩ := List.pairwise_cons.mp h
    obtain ⟨⟨least, small⟩, inside⟩ := List.forall_mem_cons.mp inside
    have later := ih (low + 1) (count - 1) ordered fun token member => by
      have above := UInt32.lt_iff_toNat_lt.mp (below token member)
      have within := inside token member
      omega
    rw [List.length_cons]
    omega

end Edit

/-- There are no more finished methods than methods. -/
theorem Module.length_le_of_ordered {m : Module} {tokens : List Token} (h : Edit.Ordered tokens)
    (known : ∀ token ∈ tokens, ∃ d, m.methodDefAt token = .ok d) :
    tokens.length ≤ m.methods.size := by
  refine h.length_le (Table.methodDef.number.toNat * 0x1000000 + 1) _ fun token member => ?_
  obtain ⟨d, found⟩ := known token member
  obtain ⟨inside, positive, entry⟩ := methodDefAt_eq_ok_iff.mp found
  obtain ⟨bound, -⟩ := Array.getElem?_eq_some_iff.mp entry
  have number : token.tableNumber = Table.methodDef.number := of_decide_eq_true inside
  rw [← number, Token.tableNumber, UInt8.toNat_ofNat']
  have small := token.value.toNat_lt
  unfold Token.row at positive bound
  omega

end Interpose
