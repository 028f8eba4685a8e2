import Interpose.Text.Hex
import Mathlib.Logic.Function.Basic

/-!
# Reading hexadecimal numerals

Padded numerals differ if the numbers do, whatever the width.

## Main definitions

* `hexValue` — the number that hexadecimal digits stand for

## Main results

* `hexValue_hexPadded` — a numeral stands for its number
* `ilLabel_injective` — code offsets have different names
-/

namespace Interpose

/-- The number that hexadecimal digits stand for. -/
def hexValue (digits : List Char) : Nat :=
  digits.foldl (fun value digit => 16 * value + (hexDigit? digit).getD 0) 0

theorem hexValue_concat (digits : List Char) (digit : Char) :
    hexValue (digits ++ [digit]) = 16 * hexValue digits + (hexDigit? digit).getD 0 := by
  rw [hexValue, List.foldl_append, List.foldl_cons, List.foldl_nil, ← hexValue]

/-- Leading zeros do not count. -/
theorem hexValue_replicate_append (count : Nat) (digits : List Char) :
    hexValue (List.replicate count '0' ++ digits) = hexValue digits := by
  have zeros : (List.replicate count '0').foldl
      (fun value digit => 16 * value + (hexDigit? digit).getD 0) 0 = 0 := by
    induction count with
    | zero => rfl
    | succ count ih =>
      rw [List.replicate_succ, List.foldl_cons]
      exact ih
  rw [hexValue, List.foldl_append, zeros, ← hexValue]

theorem hexDigit?_digitChar {digit : Nat} (small : digit < 16) :
    hexDigit? (Nat.digitChar digit) = some digit := by
  decide +revert

theorem hexValue_toDigits (n : Nat) : hexValue (Nat.toDigits 16 n) = n := by
  induction n using Nat.strongRecOn with
  | ind n ih =>
    -- The digits are those of a sixteenth of the number, and one more.
    rw [Nat.toDigits_eq_if (by decide)]
    by_cases single : n < 16
    · rw [if_pos single, ← List.nil_append [n.digitChar], hexValue_concat,
        hexDigit?_digitChar single]
      exact Nat.zero_add n
    · rw [if_neg single, hexValue_concat, ih (n / 16) (by omega),
        hexDigit?_digitChar (Nat.mod_lt n (by decide)), Option.getD_some]
      omega

/-- A numeral stands for its number. -/
theorem hexValue_hexPadded (width n : Nat) : hexValue (hexPadded width n).toList = n := by
  rw [hexPadded, String.toList_ofList, hexValue_replicate_append, hexValue_toDigits]

theorem hexPadded_injective (width : Nat) : Function.Injective (hexPadded width) := by
  intro n n' same
  rw [← hexValue_hexPadded width n, same, hexValue_hexPadded]

/-- Code offsets have different names. -/
theorem ilLabel_injective : Function.Injective ilLabel := by
  intro offset offset' same
  apply hexPadded_injective 4
  apply String.toList_inj.mp
  have chars := congrArg String.toList same
  rw [ilLabel, ilLabel, String.toList_append, String.toList_append] at chars
  exact List.append_cancel_left chars

end Interpose
