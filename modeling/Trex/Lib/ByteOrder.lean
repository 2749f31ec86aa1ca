import Mathlib.Data.List.Lex

/-!
# The order of byte strings

Byte strings compare as Go compares strings and `bytes.Compare` compares slices:
lexicographically, byte by byte.
-/

instance byteOrder : LinearOrder UInt8 where
  le_refl a := UInt8.le_refl a
  le_trans _ _ _ := UInt8.le_trans
  lt_iff_le_not_ge a b := by
    simp only [UInt8.lt_iff_toNat_lt, UInt8.le_iff_toNat_le]
    omega
  le_antisymm _ _ := UInt8.le_antisymm
  le_total a b := UInt8.le_total a b
  toDecidableLE := inferInstance
  toDecidableLT := inferInstance
  toDecidableEq := inferInstance

instance byteLawfulBEq : LawfulBEq UInt8 := inferInstance

instance bytesLawfulBEq : LawfulBEq (List UInt8) := inferInstance
