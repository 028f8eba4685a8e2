import Interpose.Number.Shortest

/-!
# Text and remainder of double-precision numbers

A double is given by its 64 bits.  The text of a finite number uses the fewest digits that read
back as the same number; `FloatFormat` says how those digits are laid out.

## Main definitions

* `FloatBits.parts` — sign, exponent field and fraction field
* `FloatFormat` — when an exponent is written and how many decimals are kept at least
* `FloatFormat.plain`, `FloatFormat.literal` — the two layouts this library writes
* `floatRemainder` — the remainder of truncating division, computed exactly
-/

namespace Interpose.Number

/-- The sign, exponent field and fraction field of a double. -/
structure FloatBits where
  negative : Bool
  exponent : Nat
  fraction : Nat
deriving DecidableEq, Repr

namespace FloatBits

/-- Splits the 64 bits of a double into its fields. -/
def ofBits (bits : UInt64) : FloatBits where
  negative := bits.toNat >>> 63 = 1
  exponent := (bits.toNat >>> 52) % 0x800
  fraction := bits.toNat % (1 <<< 52)

/-- Joins the fields of a double. -/
def toBits (f : FloatBits) : UInt64 :=
  UInt64.ofNat ((if f.negative then 1 <<< 63 else 0) + (f.exponent <<< 52) + f.fraction)

/-- Whether the number is neither finite nor infinite. -/
def isNaN (f : FloatBits) : Bool := f.exponent = 2047 && f.fraction ≠ 0

/-- Whether the number is infinite. -/
def isInfinite (f : FloatBits) : Bool := f.exponent = 2047 && f.fraction = 0

/-- Whether the number is zero of either sign. -/
def isZero (f : FloatBits) : Bool := f.exponent = 0 && f.fraction = 0

/-- The magnitude of a finite number as `mantissa · 2 ^ (shift - 1074)`. -/
def magnitude (f : FloatBits) : Nat × Nat :=
  if f.exponent = 0 then (f.fraction, 0) else ((1 <<< 52) + f.fraction, f.exponent - 1)

/-- The magnitude of a finite number as a multiple of the least positive number. -/
def units (f : FloatBits) : Nat := f.magnitude.1 <<< f.magnitude.2

/-- The rounding interval of a positive finite number.  Below a power of two the neighbours are
twice as dense, so the lower half of the interval is half as wide. -/
def bracket (f : FloatBits) : Bracket :=
  let (mantissa, shift) := f.magnitude
  let unit := 1 <<< shift
  let below := if f.exponent ≠ 0 ∧ f.fraction = 0 then 1 else 2
  { low := (4 * mantissa - below) * unit
    value := 4 * mantissa * unit
    high := (4 * mantissa + 2) * unit
    scale := 1 <<< 1076
    closed := f.exponent = 0 || f.fraction % 2 = 0 }

/-- Whether the magnitude reaches `numerator / denominator`. -/
def reaches (f : FloatBits) (numerator denominator : Nat) : Bool :=
  (numerator <<< 1074) ≤ f.units * denominator

end FloatBits

/-- How the digits of a number are laid out. -/
structure FloatFormat where
  /-- Whether numbers from `10 ^ 16` on and positive ones below `10 ^ -4` get an exponent. -/
  scientific : Bool
  /-- The least number of digits after the point where no exponent is written. -/
  decimals : Nat

namespace FloatFormat

/-- Never an exponent, and no point in a whole number. -/
def plain : FloatFormat := ⟨false, 0⟩

/-- An exponent for very large and very small numbers, else at least one digit after the point. -/
def literal : FloatFormat := ⟨true, 1⟩

/-- A decimal without exponent and with at least `decimals` digits after the point. -/
def positional (decimals : Nat) (d : Decimal) : String :=
  let digits := Nat.toDigits 10 d.digits
  let zeros (n : Nat) : List Char := List.replicate n '0'
  let point : Int := digits.length + d.exponent
  let (whole, fraction) :=
    if point ≤ 0 then (['0'], zeros (-point).toNat ++ digits)
    else if 0 ≤ d.exponent then (digits ++ zeros d.exponent.toNat, [])
    else (digits.take point.toNat, digits.drop point.toNat)
  let fraction := fraction ++ zeros (decimals - fraction.length)
  String.ofList (if fraction.isEmpty then whole else whole ++ '.' :: fraction)

/-- A decimal with one digit before the point and an exponent. -/
def exponential (d : Decimal) : String :=
  let digits := Nat.toDigits 10 d.digits
  let exponent : Int := digits.length + d.exponent - 1
  let mantissa :=
    match digits with
    | first :: second :: rest => first :: '.' :: second :: rest
    | short => short
  String.ofList mantissa ++ "e" ++ toString exponent

/-- The text of the double with the given bits. -/
def render (format : FloatFormat) (bits : UInt64) : String :=
  let f := FloatBits.ofBits bits
  let sign := if f.negative then "-" else ""
  if f.isNaN then "NaN"
  else if f.isInfinite then sign ++ "inf"
  else if f.isZero then sign ++ positional format.decimals ⟨0, 0⟩
  else
    let d := f.bracket.shortest
    -- Which layout applies depends on the number itself, not on its digits.
    let wide := f.reaches 10000000000000000 1 || !f.reaches 1 10000
    sign ++ if format.scientific && wide then exponential d else positional format.decimals d

end FloatFormat

/-- The bits of the double with the given sign whose magnitude is `units` times the least positive
number; `units` has at most 53 significant bits, so nothing is rounded. -/
def bitsOfUnits (negative : Bool) (units : Nat) : UInt64 :=
  let shift := Nat.log2 units - 52
  let mantissa := units >>> shift
  if mantissa < 1 <<< 52 then FloatBits.toBits ⟨negative, 0, mantissa⟩
  else FloatBits.toBits ⟨negative, shift + 1, mantissa - (1 <<< 52)⟩

/-- The remainder of dividing `x` by `y` with the quotient cut toward zero.  It has the sign of `x`
and is exact; it is not a number if `x` is infinite, `y` is zero or either is not a number. -/
def floatRemainder (x y : Float) : Float :=
  let a := FloatBits.ofBits x.toBits
  let b := FloatBits.ofBits y.toBits
  if a.isNaN || b.isNaN || a.isInfinite || b.isZero then Float.ofBits 0x7ff8000000000000
  else if b.isInfinite then x
  else Float.ofBits (bitsOfUnits a.negative (a.units % b.units))

end Interpose.Number
