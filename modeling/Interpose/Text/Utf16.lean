/-!
# UTF-16

Strings as sequences of 16-bit units.  A character above `0xFFFF` takes a pair of surrogates; a
surrogate without its partner stands for nothing.

## Main definitions

* `utf16Units` — the units of a string
* `ofUtf16Units?` — the string that units spell, if they are well formed
-/

namespace Interpose

/-- The units of one character. -/
def charUnits (c : Char) : List UInt16 :=
  if c.toNat < 0x10000 then [UInt16.ofNat c.toNat]
  else
    let above := c.toNat - 0x10000
    [UInt16.ofNat (0xD800 + above / 0x400), UInt16.ofNat (0xDC00 + above % 0x400)]

/-- The units of a string. -/
def utf16Units (text : String) : List UInt16 :=
  text.toList.flatMap charUnits

/-- Whether a unit is the first of a pair. -/
def isHighSurrogate (unit : UInt16) : Bool := 0xD800 ≤ unit.toNat && unit.toNat < 0xDC00

/-- Whether a unit is the second of a pair. -/
def isLowSurrogate (unit : UInt16) : Bool := 0xDC00 ≤ unit.toNat && unit.toNat < 0xE000

/-- The characters that units spell. -/
def charsOfUnits? : List UInt16 → Option (List Char)
  | [] => some []
  | unit :: rest =>
    if isLowSurrogate unit then none
    else if isHighSurrogate unit then
      match rest with
      | low :: rest =>
        if isLowSurrogate low then
          let point := 0x10000 + (unit.toNat - 0xD800) * 0x400 + (low.toNat - 0xDC00)
          (charsOfUnits? rest).map (Char.ofNat point :: ·)
        else none
      | [] => none
    else (charsOfUnits? rest).map (Char.ofNat unit.toNat :: ·)

/-- The string that units spell. -/
def ofUtf16Units? (units : List UInt16) : Option String :=
  (charsOfUnits? units).map String.ofList

end Interpose
