import Mathlib.Tactic.Common

/-!
# Unsigned variable-length integers

`binary.AppendUvarint` and `binary.Uvarint`: groups of seven bits, the low group
first, the high bit set on all but the last byte.
-/

namespace Uvarint

/-- The groups of `v`; `turns` bounds their number. -/
def groups : Nat → Nat → List UInt8
  | 0, v => [.ofNat v]
  | turns + 1, v => if v < 128 then [.ofNat v] else .ofNat (128 + v % 128) :: groups turns (v / 128)

/-- `AppendUvarint(nil, v)` for a 64-bit value. -/
def encode (v : Nat) : List UInt8 := groups 9 v

/-- The loop of `Uvarint`: the value so far, the weight of the next group, the number of bytes taken. -/
def loop : List UInt8 → Nat → Nat → Nat → Option (Nat × Nat)
  | [], _, _, _ => none
  | b :: rest, value, weight, taken =>
      if taken = 10 then none
      else if b.toNat < 128 then
        if taken = 9 ∧ b.toNat > 1 then none else some (value + b.toNat * weight, taken + 1)
      else loop rest (value + (b.toNat - 128) * weight) (weight * 128) (taken + 1)

def decode (data : List UInt8) : Option (Nat × Nat) := loop data 0 1 0

end Uvarint
