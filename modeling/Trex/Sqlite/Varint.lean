import Mathlib.Tactic.Ring
import Trex.Lib.Bytes
import Trex.Lib.Slice

/-!
# SQLite variable-length integers

`encodeVarint` of `database/sqlite/build.go` and `decodeVarint` of `database/sqlite/sqlite.go`: up to
eight groups of seven bits, most significant first, the top bit set on all but the last, or eight such
groups and a full byte.  No shift loses a bit of a `uint64`.
-/

namespace Trex.Sqlite

open Slice

/-- The loop of `encodeVarint` that looks for the size: `left` sizes to try. -/
def sizeFrom (value : Nat) : Nat → Nat → Nat
  | 0, size => size
  | left + 1, size => if value < 2 ^ (7 * size) then size else sizeFrom value left (size + 1)

/-- The number of bytes of a value, 9 when none of the sizes up to 8 is enough. -/
def varintSize (value : Nat) : Nat := sizeFrom value 8 1

/-- `count` groups of seven bits, each marked as not the last one. -/
def groups : Nat → Nat → List UInt8
  | 0, _ => []
  | count + 1, value => .ofNat (0x80 + value / 128 ^ count % 128) :: groups count value

/-- One to nine bytes, seven bits each and eight in the ninth. -/
def encodeVarint (value : Nat) : List UInt8 :=
  if varintSize value ≤ 8 then groups (varintSize value - 1) (value / 128) ++ [.ofNat (value % 128)]
  else groups 8 (value / 256) ++ [.ofNat (value % 256)]

inductive VarintError where
  | outside
  | truncated
  deriving DecidableEq, Repr

/-- The loop of `decodeVarint` over the bytes that are left before the limit. -/
def decodeLoop : Nat → Nat → List UInt8 → Except VarintError (Nat × Nat)
  | _, _, [] => .error .truncated
  | index, value, current :: rest =>
      if index = 8 then .ok (value * 256 + current.toNat, 9)
      else if current.toNat < 0x80 then .ok (value * 128 + current.toNat % 128, index + 1)
      else decodeLoop (index + 1) (value * 128 + current.toNat % 128) rest

/-- The value at `offset` and the number of bytes it takes. -/
def decodeVarint (data : List UInt8) (offset limit : Nat) : Except VarintError (Nat × Nat) :=
  if limit > data.length ∨ offset ≥ limit then .error .outside
  else decodeLoop 0 0 ((data.take limit).drop offset)

/-! ## Sizes -/

lemma sizeFrom_bounds (val left size : Nat) :
    size ≤ sizeFrom val left size ∧ sizeFrom val left size ≤ size + left := by
  induction left generalizing size with
  | zero => simp [sizeFrom]
  | succ left ih =>
  have := ih (size + 1)
  unfold sizeFrom
  split <;> omega

lemma sizeFrom_le (val left size s : Nat) (hs : size ≤ s) (hv : val < 2 ^ (7 * s)) :
    sizeFrom val left size ≤ s := by
  induction left generalizing size with
  | zero => exact hs
  | succ left ih =>
  unfold sizeFrom
  split
  · exact hs
  next hlarge =>
    have hne : size ≠ s := fun h => hlarge (h ▸ hv)
    exact ih (size + 1) (by omega)

lemma sizeFrom_enough (val left size : Nat) (h : sizeFrom val left size < size + left) :
    val < 2 ^ (7 * sizeFrom val left size) := by
  induction left generalizing size with
  | zero => simp [sizeFrom] at h
  | succ left ih =>
  unfold sizeFrom at h ⊢
  split at h
  next hv => rw [if_pos hv]; exact hv
  next hv =>
    rw [if_neg hv]
    exact ih (size + 1) (by omega)

lemma varintSize_bounds (val : Nat) : 1 ≤ varintSize val ∧ varintSize val ≤ 9 :=
  sizeFrom_bounds val 8 1

lemma lt_of_varintSize_le {val : Nat} (h : varintSize val ≤ 8) : val < 2 ^ (7 * varintSize val) :=
  sizeFrom_enough val 8 1 (by unfold varintSize at h; omega)

lemma varintSize_mono {a b : Nat} (h : a ≤ b) : varintSize a ≤ varintSize b := by
  by_cases hb : varintSize b ≤ 8
  · have hlt := lt_of_varintSize_le hb
    exact sizeFrom_le a 8 1 _ (varintSize_bounds b).1 (by omega)
  · have := (varintSize_bounds a).2
    omega

@[simp] lemma length_groups (count val : Nat) : (groups count val).length = count := by
  induction count with
  | zero => rfl
  | succ count ih => simp [groups, ih]

@[simp] lemma length_encodeVarint (value : Nat) : (encodeVarint value).length = varintSize value := by
  have := varintSize_bounds value
  unfold encodeVarint
  split <;> simp <;> omega

/-! ## Round trip -/

/-- Reading groups that are not the last shifts them in. -/
lemma decodeLoop_groups (count idx acc val : Nat) (rest : List UInt8) (h : idx + count ≤ 8) :
    decodeLoop idx acc (groups count val ++ rest) =
      decodeLoop (idx + count) (acc * 128 ^ count + val % 128 ^ count) rest := by
  induction count generalizing idx acc with
  | zero => simp [groups, Nat.mod_one]
  | succ count ih =>
  have hbyte : (UInt8.ofNat (0x80 + val / 128 ^ count % 128)).toNat = 0x80 + val / 128 ^ count % 128 := by
    have := Nat.mod_lt (val / 128 ^ count) (show 0 < 128 by omega)
    simp
    omega
  have hsplit : val % 128 ^ (count + 1) = val / 128 ^ count % 128 * 128 ^ count + val % 128 ^ count := by
    rw [Nat.pow_succ, Nat.mod_mul, Nat.mul_comm (128 ^ count)]
    omega
  simp only [groups, List.cons_append, decodeLoop, hbyte]
  rw [if_neg (by omega), if_neg (by omega), ih _ _ (by omega), hsplit]
  congr 1
  · omega
  · rw [show (0x80 + val / 128 ^ count % 128) % 128 = val / 128 ^ count % 128 by omega]
    ring

/-- A number reads back. -/
lemma decodeLoop_encodeVarint (value : Nat) (h : value < 2 ^ 64) (rest : List UInt8) :
    decodeLoop 0 0 (encodeVarint value ++ rest) = .ok (value, varintSize value) := by
  have hbounds := varintSize_bounds value
  unfold encodeVarint
  split
  next hsize =>
    have hlt := lt_of_varintSize_le hsize
    have hhigh : value / 128 < 128 ^ (varintSize value - 1) := by
      rw [Nat.div_lt_iff_lt_mul (by omega)]
      calc value < 2 ^ (7 * varintSize value) := hlt
        _ = 128 ^ varintSize value := by rw [Nat.pow_mul]
        _ = 128 ^ (varintSize value - 1) * 128 := by
            rw [← Nat.pow_succ, Nat.succ_eq_add_one, Nat.sub_add_cancel hbounds.1]
    have hbyte : (UInt8.ofNat (value % 128)).toNat = value % 128 := by simp; omega
    rw [List.append_assoc, decodeLoop_groups _ _ _ _ _ (by omega), Nat.mod_eq_of_lt hhigh]
    simp only [List.cons_append, List.nil_append, decodeLoop, hbyte]
    rw [if_neg (by omega), if_pos (by omega)]
    congr 2
    · omega
    · omega
  next hsize =>
    have hhigh : value / 256 < 128 ^ 8 := by
      rw [Nat.div_lt_iff_lt_mul (by omega)]
      omega
    have hbyte : (UInt8.ofNat (value % 256)).toNat = value % 256 := by simp
    rw [List.append_assoc, decodeLoop_groups _ _ _ _ _ (by omega), Nat.mod_eq_of_lt hhigh]
    simp only [List.cons_append, List.nil_append, decodeLoop, Nat.zero_add, if_true]
    congr 2
    · rw [hbyte]
      omega
    · omega

/-- A varint is read back wherever it stands in a buffer. -/
lemma decodeVarint_of_slice (data : List UInt8) (off limit val : Nat)
    (hval : val < 2 ^ 64) (hslice : slice data off (varintSize val) = encodeVarint val)
    (hlim : off + varintSize val ≤ limit) (hdata : limit ≤ data.length) :
    decodeVarint data off limit = .ok (val, varintSize val) := by
  have hpos := (varintSize_bounds val).1
  unfold decodeVarint
  rw [if_neg (by omega), drop_take_eq_append data off (varintSize val) limit hlim, hslice]
  exact decodeLoop_encodeVarint val hval _

end Trex.Sqlite
