import Mathlib.Data.Nat.Bitwise

/-!
# The bits of 64-bit words

`bit x i` is bit `i` of `x`.  Words are equal when their 64 bits are (`ext`), and the operators
act bit by bit.
-/

namespace Trex.Bits

open UInt64

def bit (x : UInt64) (i : Nat) : Bool := x.toNat.testBit i

variable {x y : UInt64} {i s k : Nat}

lemma bit_of_ge (h : 64 ≤ i) : bit x i = false := by
  apply Nat.testBit_lt_two_pow
  exact Nat.lt_of_lt_of_le x.toNat_lt (Nat.pow_le_pow_right (by omega) h)

lemma ext (h : ∀ i < 64, bit x i = bit y i) : x = y := by
  apply UInt64.toNat_inj.mp
  apply Nat.eq_of_testBit_eq
  intro i
  rcases Nat.lt_or_ge i 64 with hi | hi
  · exact h i hi
  · exact (bit_of_ge (x := x) hi).trans (bit_of_ge (x := y) hi).symm

@[simp] lemma bit_and (x y : UInt64) (i : Nat) : bit (x &&& y) i = (bit x i && bit y i) := by
  simp [bit]

@[simp] lemma bit_or (x y : UInt64) (i : Nat) : bit (x ||| y) i = (bit x i || bit y i) := by
  simp [bit]

lemma bit_not (x : UInt64) (h : i < 64) : bit (~~~x) i = !bit x i := by
  have hbits : ∀ y : UInt64, bit y i = y.toBitVec.getLsbD i := fun _ => rfl
  rw [hbits, hbits, UInt64.toBitVec_not, BitVec.getLsbD_not]
  simp [h]

lemma bit_shiftRight (x : UInt64) (h : s < 64) (i : Nat) : bit (x >>> UInt64.ofNat s) i = bit x (s + i) := by
  unfold bit
  rw [UInt64.toNat_shiftRight, UInt64.toNat_ofNat', Nat.testBit_shiftRight]
  congr 1
  omega

/-- The word with the bits below `n`. -/
lemma bit_low {n : Nat} (h : n < 64) (i : Nat) : bit ((1 <<< ofNat n) - 1) i = decide (i < n) := by
  have hpow : 2 ^ n < 2 ^ 64 := Nat.pow_lt_pow_right (by omega) h
  have hpos : 0 < 2 ^ n := Nat.two_pow_pos n
  have hshift : (1 <<< ofNat n : UInt64).toNat = 2 ^ n := by
    rw [UInt64.toNat_shiftLeft, UInt64.toNat_ofNat', Nat.mod_eq_of_lt (show n < 2 ^ 64 by omega), Nat.mod_eq_of_lt h,
      toNat_one, Nat.one_shiftLeft, Nat.mod_eq_of_lt hpow]
  have hlow : ((1 <<< ofNat n : UInt64) - 1).toNat = 2 ^ n - 1 := by
    rw [UInt64.toNat_sub_of_le, hshift, UInt64.toNat_one]
    rw [le_iff_toNat_le, hshift, toNat_one]
    exact hpos
  unfold bit
  rw [hlow, Nat.testBit_two_pow_sub_one]

/-- Words that agree from bit `k` on have the same shifts by `k` or more. -/
lemma shiftRight_congr (h : ∀ i, k ≤ i → bit x i = bit y i) (hk : k ≤ s) (hs : s < 64) :
    x >>> ofNat s = y >>> ofNat s := by
  apply ext
  intro i _
  rw [bit_shiftRight x hs, bit_shiftRight y hs]
  exact h _ (by omega)

lemma bit_congr_of_shiftRight (hk : k < 64) (h : x >>> ofNat k = y >>> ofNat k)
    (i : Nat) (hi : k ≤ i) : bit x i = bit y i := by
  have := congrArg (fun w => bit w (i - k)) h
  simp only [bit_shiftRight _ hk] at this
  rwa [Nat.add_sub_cancel' hi] at this

end Trex.Bits
