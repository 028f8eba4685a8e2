/-!
# Shortest decimals

The decimal with the fewest digits that a floating-point number is the nearest neighbour of.
Everything is exact arithmetic on natural numbers: a positive number and the ends of the interval
of reals that round to it are three numerators over one common denominator.

## Main definitions

* `Bracket` — a positive number inside its rounding interval
* `Bracket.decimalAt?` — the better of the two neighbours on a decimal grid, if one fits
* `Bracket.shortest` — the first fit, from coarse grids to fine ones
-/

namespace Interpose.Number

/-- A decimal `digits · 10 ^ exponent`. -/
structure Decimal where
  digits : Nat
  exponent : Int
deriving DecidableEq, Repr

/-- The number `value / scale` and the interval from `low / scale` to `high / scale` of the reals
that round to it; `closed` says whether the ends belong to the interval. -/
structure Bracket where
  low : Nat
  value : Nat
  high : Nat
  scale : Nat
  closed : Bool

namespace Bracket

/-- Whether the real `n / d` lies in the interval. -/
def contains (b : Bracket) (n d : Nat) : Bool :=
  if b.closed then b.low * d ≤ n * b.scale && n * b.scale ≤ b.high * d
  else b.low * d < n * b.scale && n * b.scale < b.high * d

/-- The multiple of `10 ^ exponent` that lies in the interval and is nearest to the value, of two
equally near ones the greater; nothing if neither neighbour of the value lies in the interval. -/
def decimalAt? (b : Bracket) (exponent : Int) : Option Decimal :=
  let up := Nat.pow 10 exponent.toNat
  let down := Nat.pow 10 (-exponent).toNat
  -- The value lies between the grid points `below` and `above`, the first of which it may equal.
  let below := b.value * down / (b.scale * up)
  let above := below + 1
  let fits (k : Nat) : Bool := 0 < k && b.contains (k * up) down
  let excess := b.value * down - below * (b.scale * up)
  match fits below, fits above with
  | true, true =>
    some ⟨if 2 * excess < b.scale * up then below else above, exponent⟩
  | true, false => some ⟨below, exponent⟩
  | false, true => some ⟨above, exponent⟩
  | false, false => none

/-- Tries the grids of `exponent`, `exponent - 1`, … in turn, at most `fuel` of them. -/
def search (b : Bracket) (exponent : Int) : (fuel : Nat) → Option Decimal
  | 0 => none
  | fuel + 1 =>
    match b.decimalAt? exponent with
    | some d => some d
    | none => b.search (exponent - 1) fuel

/-- The number of decimal digits of a natural number. -/
def digitCount (n : Nat) : Nat := (Nat.toDigits 10 n).length

/-- The decimal with the fewest digits in the interval.  The search starts at a grid so coarse that
only zero is below its first point, and a grid finer than the interval always has a point in it. -/
def shortest (b : Bracket) : Decimal :=
  let start : Int := (digitCount b.high : Int) - (digitCount b.scale : Int) + 2
  (b.search start (digitCount b.high + digitCount b.scale + 24)).getD ⟨0, 0⟩

end Bracket

end Interpose.Number
