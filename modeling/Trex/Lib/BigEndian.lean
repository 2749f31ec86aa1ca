import Mathlib.Data.List.Induction
import Mathlib.Tactic.Ring

/-!
# Big-endian integers

`put w v` is the `w`-byte big-endian form of `v` (what does not fit is cut off),
`get l` the number that a list of bytes spells.  Each inverts the other:
`get (put w v) = v % 256 ^ w` and `put l.length (get l) = l`.
-/

namespace BigEndian

/-- The `w`-byte big-endian form of `v`, modulo `256 ^ w`. -/
def put : Nat → Nat → List UInt8
  | 0, _ => []
  | w + 1, v => put w (v / 256) ++ [UInt8.ofNat v]

/-- The number spelled by `l`, most significant byte first. -/
def get (l : List UInt8) : Nat := l.foldl (fun v b => v * 256 + b.toNat) 0

@[simp] lemma length_put (w v : Nat) : (put w v).length = w := by
  induction w generalizing v with
  | zero => rfl
  | succ w ih => simp [put, ih]

lemma get_concat (l : List UInt8) (b : UInt8) : get (l ++ [b]) = get l * 256 + b.toNat := by
  simp [get]

lemma get_put (w v : Nat) : get (put w v) = v % 256 ^ w := by
  induction w generalizing v with
  | zero => simp [put, get, Nat.mod_one]
  | succ w ih =>
  rw [put, get_concat, ih, Nat.pow_succ, Nat.mul_comm (256 ^ w) 256, Nat.mod_mul]
  have : (UInt8.ofNat v).toNat = v % 256 := by simp
  rw [this]
  ring

lemma get_put_of_lt (w v : Nat) (h : v < 256 ^ w) : get (put w v) = v := by
  rw [get_put, Nat.mod_eq_of_lt h]

lemma put_get (l : List UInt8) : put l.length (get l) = l := by
  induction l using List.reverseRecOn with
  | nil => rfl
  | append_singleton l b ih =>
  have hb := b.toNat_lt
  rw [List.length_append, get_concat, List.length_singleton, put,
    show (get l * 256 + b.toNat) / 256 = get l by omega, ih]
  congr 2
  rw [← UInt8.toNat_inj, UInt8.toNat_ofNat']
  omega

lemma get_lt (l : List UInt8) : get l < 256 ^ l.length := by
  have h := get_put l.length (get l)
  rw [put_get] at h
  rw [h]
  exact Nat.mod_lt _ (Nat.pow_pos (by decide))

lemma eq_put_append (w : Nat) (data : List UInt8) (h : w ≤ data.length) :
    data = put w (get (data.take w)) ++ data.drop w ∧ get (data.take w) < 256 ^ w := by
  have hlength : (data.take w).length = w := List.length_take_of_le h
  have hput := put_get (data.take w)
  have hlt := get_lt (data.take w)
  rw [hlength] at hput hlt
  exact ⟨by rw [hput, List.take_append_drop], hlt⟩

@[simp] lemma take_put_append (w v : Nat) (rest : List UInt8) : (put w v ++ rest).take w = put w v :=
  List.take_left' (length_put w v)

@[simp] lemma drop_put_append (w v : Nat) (rest : List UInt8) : (put w v ++ rest).drop w = rest :=
  List.drop_left' (length_put w v)

end BigEndian
