import Mathlib.Data.List.Basic
import Mathlib.Tactic.Ring

/-!
# Little-endian integers

`put w v` is the `w`-byte little-endian form of `v` (what does not fit is cut off),
`get l` the number that a list of bytes spells: `get (put w v) = v % 256 ^ w`.
-/

namespace LittleEndian

/-- The `w`-byte little-endian form of `v`, modulo `256 ^ w`. -/
def put : Nat → Nat → List UInt8
  | 0, _ => []
  | w + 1, v => UInt8.ofNat v :: put w (v / 256)

/-- The number spelled by `l`, least significant byte first. -/
def get : List UInt8 → Nat
  | [] => 0
  | b :: l => b.toNat + 256 * get l

@[simp] lemma length_put (w v : Nat) : (put w v).length = w := by
  induction w generalizing v with
  | zero => rfl
  | succ w ih => simp [put, ih]

lemma get_put (w v : Nat) : get (put w v) = v % 256 ^ w := by
  induction w generalizing v with
  | zero => simp [put, get, Nat.mod_one]
  | succ w ih =>
  have hbyte : (UInt8.ofNat v).toNat = v % 256 := by simp
  rw [put, get, ih, hbyte, Nat.pow_succ, Nat.mul_comm (256 ^ w) 256, Nat.mod_mul]

end LittleEndian
