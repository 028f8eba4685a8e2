/-!
# Little-endian words

Numbers as sequences of bytes, the least significant byte first.

## Main definitions

* `littleEndian` — the low bytes of a number
* `ofLittleEndian` — the number that bytes stand for
-/

namespace Interpose

/-- The `width` low bytes of `n`, the least significant first. -/
def littleEndian : (width n : Nat) → List UInt8
  | 0, _ => []
  | width + 1, n => UInt8.ofNat n :: littleEndian width (n / 256)

/-- The number that bytes stand for, the first being the least significant. -/
def ofLittleEndian : List UInt8 → Nat
  | [] => 0
  | byte :: rest => byte.toNat + 256 * ofLittleEndian rest

@[simp] theorem length_littleEndian (width n : Nat) : (littleEndian width n).length = width := by
  induction width generalizing n with
  | zero => rfl
  | succ width ih => simp [littleEndian, ih]

end Interpose
