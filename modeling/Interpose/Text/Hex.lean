/-!
# Hexadecimal text

Fixed-width hexadecimal numerals, as they appear in tokens, code offsets and dumps of bytes.

## Main definitions

* `hexPadded` — a numeral with at least the given number of digits
* `ilLabel` — the name `IL_0010` of a code offset
* `hexOfBytes`, `bytesOfHex?` — bytes as two digits each, and back
-/

namespace Interpose

/-- The hexadecimal numeral of `n` in lower case, padded with zeros to `width` digits. -/
def hexPadded (width n : Nat) : String :=
  let digits := Nat.toDigits 16 n
  String.ofList (List.replicate (width - digits.length) '0' ++ digits)

/-- The hexadecimal numeral of `n` in upper case, padded with zeros to `width` digits. -/
def hexPaddedUpper (width n : Nat) : String :=
  let digits := (Nat.toDigits 16 n).map Char.toUpper
  String.ofList (List.replicate (width - digits.length) '0' ++ digits)

/-- The conventional name of a code offset: `IL_` and at least four hexadecimal digits. -/
def ilLabel (offset : Nat) : String :=
  "IL_" ++ hexPadded 4 offset

/-- Bytes as text, two digits each. -/
def hexOfBytes (bytes : List UInt8) : String :=
  bytes.foldl (fun text byte => text ++ hexPadded 2 byte.toNat) ""

/-- The value of a hexadecimal digit of either case. -/
def hexDigit? (c : Char) : Option Nat :=
  if '0' ≤ c ∧ c ≤ '9' then some (c.toNat - '0'.toNat)
  else if 'a' ≤ c ∧ c ≤ 'f' then some (c.toNat - 'a'.toNat + 10)
  else if 'A' ≤ c ∧ c ≤ 'F' then some (c.toNat - 'A'.toNat + 10)
  else none

/-- Reads pairs of hexadecimal digits as bytes. -/
def bytesOfHexDigits? : List Char → Option (List UInt8)
  | [] => some []
  | high :: low :: rest => do
    let h ← hexDigit? high
    let l ← hexDigit? low
    let bytes ← bytesOfHexDigits? rest
    return UInt8.ofNat (16 * h + l) :: bytes
  | [_] => none

/-- Reads a text of hexadecimal digit pairs as bytes. -/
def bytesOfHex? (text : String) : Option (List UInt8) :=
  bytesOfHexDigits? text.toList

end Interpose
