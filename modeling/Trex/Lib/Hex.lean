import Mathlib.Tactic.Common

/-!
# Hexadecimal text

Two digits for each byte, lower case when written, either case when read.
-/

namespace Hex

def digit (n : Nat) : UInt8 := if n < 10 then .ofNat (48 + n) else .ofNat (87 + n)

/-- Two digits for each byte. -/
def encode (data : List UInt8) : List UInt8 :=
  data.flatMap fun b => [digit (b.toNat / 16), digit (b.toNat % 16)]

def value (c : UInt8) : Option Nat :=
  let n := c.toNat
  if 48 ≤ n ∧ n ≤ 57 then some (n - 48)
  else if 97 ≤ n ∧ n ≤ 102 then some (n - 87)
  else if 65 ≤ n ∧ n ≤ 70 then some (n - 55)
  else none

/-- The bytes of a text of even length, in either case. -/
def decode : List UInt8 → Option (List UInt8)
  | [] => some []
  | [_] => none
  | a :: b :: rest =>
      match value a, value b, decode rest with
      | some high, some low, some data => some (.ofNat (16 * high + low) :: data)
      | _, _, _ => none

lemma length_encode (data : List UInt8) : (encode data).length = 2 * data.length := by
  induction data with
  | nil => rfl
  | cons b data ih =>
  simp only [encode, List.flatMap_cons, List.length_append, List.length_cons, List.length_nil]
    at ih ⊢
  omega

lemma value_digit : ∀ n < 16, value (digit n) = some n := by decide

lemma decode_encode (data : List UInt8) : decode (encode data) = some data := by
  induction data with
  | nil => rfl
  | cons b data ih =>
  have hb := b.toNat_lt
  have hbyte : UInt8.ofNat (16 * (b.toNat / 16) + b.toNat % 16) = b := by rw [Nat.div_add_mod, UInt8.ofNat_toNat]
  show decode (digit (b.toNat / 16) :: digit (b.toNat % 16) :: encode data) = _
  rw [decode, value_digit _ (by omega), value_digit _ (by omega), ih]
  simp only [hbyte]

end Hex
