import Mathlib.Tactic.SplitIfs

/-!
# UTF-8 and UTF-16

Strings are lists of bytes that need not be well formed.  A number that is no scalar value is written as
U+FFFD, and a byte that starts no sequence is read as U+FFFD, one byte wide.  On well-formed text
reading inverts writing (`runes_encode`).
-/

namespace Utf

open List

/-- A Unicode scalar value: a code point that is not a surrogate. -/
def Scalar (r : Nat) : Prop := r < 0xD800 ∨ 0xE000 ≤ r ∧ r ≤ 0x10FFFF

instance (r : Nat) : Decidable (Scalar r) :=
  inferInstanceAs (Decidable (r < 0xD800 ∨ 0xE000 ≤ r ∧ r ≤ 0x10FFFF))

/-- A code point in UTF-8; what is none becomes the replacement character. -/
def encodeRune (r : Nat) : List UInt8 :=
  if r ≤ 0x7F then [.ofNat r]
  else if r ≤ 0x7FF then [.ofNat (0xC0 + r / 64), .ofNat (0x80 + r % 64)]
  else if ¬ Scalar r then [0xEF, 0xBF, 0xBD]
  else if r ≤ 0xFFFF then
    [.ofNat (0xE0 + r / 4096), .ofNat (0x80 + r / 64 % 64), .ofNat (0x80 + r % 64)]
  else
    [.ofNat (0xF0 + r / 262144), .ofNat (0x80 + r / 4096 % 64), .ofNat (0x80 + r / 64 % 64), .ofNat (0x80 + r % 64)]

/-- UTF-8 of code points. -/
def encode (rs : List Nat) : List UInt8 := rs.flatMap encodeRune

/-- A continuation byte in the range that its place allows. -/
def cont (lo hi : Nat) (b : UInt8) : Bool := decide (lo ≤ b.toNat ∧ b.toNat ≤ hi)

/-- The range of the second byte after `b0`, which excludes overlong forms,
surrogates and numbers that are too large. -/
def second (b0 : Nat) : Nat × Nat :=
  if b0 = 0xE0 then (0xA0, 0xBF)
  else if b0 = 0xED then (0x80, 0x9F)
  else if b0 = 0xF0 then (0x90, 0xBF)
  else if b0 = 0xF4 then (0x80, 0x8F)
  else (0x80, 0xBF)

/-- The first code point of a non-empty string and how many bytes it takes. -/
def decodeRune (s : List UInt8) : Nat × Nat :=
  let at' (i : Nat) : UInt8 := s.getD i 0
  let b0 := (at' 0).toNat
  let ok1 := cont (second b0).1 (second b0).2 (at' 1)
  let ok2 := cont 0x80 0xBF (at' 2)
  let ok3 := cont 0x80 0xBF (at' 3)
  let low (i : Nat) : Nat := (at' i).toNat % 64
  if b0 < 0x80 then (b0, 1)
  else if 0xC2 ≤ b0 ∧ b0 ≤ 0xDF ∧ ok1 then (b0 % 32 * 64 + low 1, 2)
  else if 0xE0 ≤ b0 ∧ b0 ≤ 0xEF ∧ ok1 ∧ ok2 then (b0 % 16 * 4096 + low 1 * 64 + low 2, 3)
  else if 0xF0 ≤ b0 ∧ b0 ≤ 0xF4 ∧ ok1 ∧ ok2 ∧ ok3 then
    (b0 % 8 * 262144 + low 1 * 4096 + low 2 * 64 + low 3, 4)
  else (0xFFFD, 1)

/-- The code points of a string.  Each turn takes at least one byte. -/
def runesLoop : Nat → List UInt8 → List Nat
  | 0, _ => []
  | _ + 1, [] => []
  | turns + 1, s => (decodeRune s).1 :: runesLoop turns (s.drop (decodeRune s).2)

/-- The code points of a string, with replacement characters for bad bytes. -/
def runes (s : List UInt8) : List Nat := runesLoop s.length s

/-- Well-formed UTF-8. -/
def Valid (s : List UInt8) : Prop := ∃ rs, (∀ r ∈ rs, Scalar r) ∧ s = encode rs

lemma length_encodeRune_pos (r : Nat) : 0 < (encodeRune r).length := by
  unfold encodeRune
  split_ifs <;> simp

/-- A code point reads back. -/
lemma decodeRune_encodeRune (r : Nat) (h : Scalar r) (rest : List UInt8) :
    decodeRune (encodeRune r ++ rest) = (r, (encodeRune r).length) := by
  unfold Scalar at h
  by_cases h1 : r ≤ 0x7F
  · have e : encodeRune r = [.ofNat r] := by simp [encodeRune, h1]
    have b0 : (UInt8.ofNat r).toNat = r := by simp; omega
    simp only [decodeRune, e, cons_append, nil_append, getD_cons_zero, b0]
    rw [if_pos (by omega)]
    rfl
  by_cases h2 : r ≤ 0x7FF
  · have e : encodeRune r = [.ofNat (0xC0 + r / 64), .ofNat (0x80 + r % 64)] := by simp [encodeRune, h1, h2]
    have b0 : (UInt8.ofNat (0xC0 + r / 64)).toNat = 0xC0 + r / 64 := by simp; omega
    have b1 : (UInt8.ofNat (0x80 + r % 64)).toNat = 0x80 + r % 64 := by simp; omega
    have hsecond : second (0xC0 + r / 64) = (0x80, 0xBF) := by
      unfold second
      rw [if_neg (by omega), if_neg (by omega), if_neg (by omega), if_neg (by omega)]
    simp only [decodeRune, e, cons_append, nil_append, getD_cons_zero, getD_cons_succ, b0, b1, hsecond, cont]
    rw [if_neg (by omega), if_pos ⟨by omega, by omega, by simp; omega⟩]
    exact Prod.ext (by show _ = r; omega) rfl
  have hs : Scalar r := h
  by_cases h3 : r ≤ 0xFFFF
  · have e : encodeRune r = [.ofNat (0xE0 + r / 4096), .ofNat (0x80 + r / 64 % 64), .ofNat (0x80 + r % 64)] := by
      simp [encodeRune, h1, h2, h3, hs]
    have b0 : (UInt8.ofNat (0xE0 + r / 4096)).toNat = 0xE0 + r / 4096 := by simp; omega
    have b1 : (UInt8.ofNat (0x80 + r / 64 % 64)).toNat = 0x80 + r / 64 % 64 := by simp; omega
    have b2 : (UInt8.ofNat (0x80 + r % 64)).toNat = 0x80 + r % 64 := by simp; omega
    have hok : (second (0xE0 + r / 4096)).1 ≤ 0x80 + r / 64 % 64 ∧
        0x80 + r / 64 % 64 ≤ (second (0xE0 + r / 4096)).2 := by
      unfold second
      split_ifs <;> simp <;> omega
    simp only [decodeRune, e, cons_append, nil_append, getD_cons_zero, getD_cons_succ, b0, b1, b2, cont]
    rw [if_neg (by omega), if_neg (by omega), if_pos ⟨by omega, by omega, by simpa using hok, by simp; omega⟩]
    exact Prod.ext (by show _ = r; omega) rfl
  have e : encodeRune r = [.ofNat (0xF0 + r / 262144), .ofNat (0x80 + r / 4096 % 64),
      .ofNat (0x80 + r / 64 % 64), .ofNat (0x80 + r % 64)] := by
    simp [encodeRune, h1, h2, h3, hs]
  have b0 : (UInt8.ofNat (0xF0 + r / 262144)).toNat = 0xF0 + r / 262144 := by simp; omega
  have b1 : (UInt8.ofNat (0x80 + r / 4096 % 64)).toNat = 0x80 + r / 4096 % 64 := by simp; omega
  have b2 : (UInt8.ofNat (0x80 + r / 64 % 64)).toNat = 0x80 + r / 64 % 64 := by simp; omega
  have b3 : (UInt8.ofNat (0x80 + r % 64)).toNat = 0x80 + r % 64 := by simp; omega
  have hok : (second (0xF0 + r / 262144)).1 ≤ 0x80 + r / 4096 % 64 ∧
      0x80 + r / 4096 % 64 ≤ (second (0xF0 + r / 262144)).2 := by
    unfold second
    split_ifs <;> simp <;> omega
  simp only [decodeRune, e, cons_append, nil_append, getD_cons_zero, getD_cons_succ, b0, b1, b2, b3, cont]
  rw [if_neg (by omega), if_neg (by omega), if_neg (by omega),
    if_pos ⟨by omega, by omega, by simpa using hok, by simp; omega, by simp; omega⟩]
  exact Prod.ext (by show _ = r; omega) rfl

lemma runesLoop_encode (rs : List Nat) (h : ∀ r ∈ rs, Scalar r) (turns : Nat)
    (hturns : (encode rs).length ≤ turns) : runesLoop turns (encode rs) = rs := by
  induction rs generalizing turns with
  | nil => cases turns <;> rfl
  | cons r rs ih =>
  have hr := decodeRune_encodeRune r (h r mem_cons_self) (encode rs)
  have hpos := length_encodeRune_pos r
  have hcons : encode (r :: rs) = encodeRune r ++ encode rs := rfl
  rw [hcons, length_append] at hturns
  obtain ⟨turns, rfl⟩ : ∃ k, turns = k + 1 := ⟨turns - 1, by omega⟩
  have hne : encodeRune r ++ encode rs ≠ [] := by
    intro hnil
    have := congrArg List.length hnil
    rw [length_append, length_nil] at this
    omega
  rw [hcons, runesLoop.eq_3 _ _ (by simpa using hne), hr, drop_left]
  congr 1
  exact ih (fun r hr => h r (mem_cons_of_mem _ hr)) turns (by omega)

/-- A text reads back. -/
lemma runes_encode (rs : List Nat) (h : ∀ r ∈ rs, Scalar r) : runes (encode rs) = rs :=
  runesLoop_encode rs h _ (Nat.le_refl _)

/-! ## UTF-16 -/

/-- The code units of one code point. -/
def encodeRune16 (r : Nat) : List Nat :=
  if r < 0xD800 ∨ 0xE000 ≤ r ∧ r < 0x10000 then [r]
  else if 0x10000 ≤ r ∧ r ≤ 0x10FFFF then
    [0xD800 + (r - 0x10000) / 1024, 0xDC00 + (r - 0x10000) % 1024]
  else [0xFFFD]

/-- UTF-16 of code points. -/
def encode16 (rs : List Nat) : List Nat := rs.flatMap encodeRune16

lemma encode16_lt (rs : List Nat) : ∀ u ∈ encode16 rs, u < 0x10000 := by
  intro u hu
  obtain ⟨r, -, hu⟩ := mem_flatMap.mp hu
  unfold encodeRune16 at hu
  split_ifs at hu with h1 h2
  · rw [mem_singleton.mp hu]
    omega
  · rcases mem_cons.mp hu with rfl | hu
    · omega
    · rw [mem_singleton.mp hu]
      omega
  · rw [mem_singleton.mp hu]
    omega

end Utf
