import Mathlib.Data.List.TakeDrop

/-!
# Slices of a buffer

A buffer is a list of cells.  `slice l i n` is the window `l[i : i + n]` and
`overwrite l i src` is `copy(l[i:], src)`: it never changes the length of the
buffer and drops what does not fit.
-/

namespace Slice

open List

variable {α : Type}

/-- The window `l[i : i + n]`. -/
def slice (l : List α) (i n : Nat) : List α := (l.drop i).take n

/-- `copy(l[i:], src)`: cells past the end of `l` are dropped. -/
def overwrite (l : List α) (i : Nat) (src : List α) : List α :=
  l.take i ++ src.take (l.length - i) ++ l.drop (i + src.length)

section

variable (l : List α)

lemma getElem?_slice (i n j : Nat) : (slice l i n)[j]? = if j < n then l[i + j]? else none := by
  unfold slice
  rw [getElem?_take]
  split <;> simp

lemma length_slice (i n : Nat) (h : i + n ≤ l.length) : (slice l i n).length = n := by
  unfold slice
  rw [length_take, length_drop]
  omega

lemma slice_add (i m n : Nat) : slice l i (m + n) = slice l i m ++ slice l (i + m) n := by
  unfold slice
  rw [take_add, drop_drop]

lemma length_overwrite (i : Nat) (src : List α) (h : i ≤ l.length) : (overwrite l i src).length = l.length := by
  unfold overwrite
  simp only [length_append, length_take, length_drop]
  omega

lemma getElem?_overwrite (i : Nat) (src : List α) (h : i ≤ l.length) (j : Nat) :
    (overwrite l i src)[j]? = if i ≤ j ∧ j < i + src.length ∧ j < l.length then src[j - i]? else l[j]? := by
  unfold overwrite
  have hi : (l.take i).length = i := by rw [length_take]; omega
  rw [append_assoc]
  by_cases h1 : j < i
  · rw [getElem?_append_left (by omega), if_neg (by omega), getElem?_take, if_pos h1]
  rw [getElem?_append_right (by omega), hi]
  by_cases h2 : j < i + src.length ∧ j < l.length
  · rw [getElem?_append_left (by rw [length_take]; omega), if_pos ⟨by omega, h2⟩, getElem?_take, if_pos (by omega)]
  rw [if_neg (by omega), getElem?_append_right (by rw [length_take]; omega), length_take, getElem?_drop]
  by_cases h3 : src.length ≤ l.length - i
  · congr 1
    omega
  · rw [getElem?_eq_none (by omega), getElem?_eq_none (by omega)]

end

lemma ext_of_lt (l l' : List α) (hlen : l.length = l'.length) (h : ∀ j, j < l.length → l[j]? = l'[j]?) : l = l' := by
  apply ext_getElem? fun j => ?_
  rcases Nat.lt_or_ge j l.length with hj | hj
  · exact h j hj
  · rw [getElem?_eq_none hj, getElem?_eq_none (by omega)]

/-- The part of a prefix that starts with a slice. -/
lemma drop_take_eq_append (l : List α) (i n m : Nat) (h : i + n ≤ m) :
    (l.take m).drop i = slice l i n ++ (l.take m).drop (i + n) := by
  have hsplit := take_append_drop n ((l.take m).drop i)
  rw [drop_drop] at hsplit
  rw [← hsplit]
  congr 1
  rw [slice, drop_take, take_take, Nat.min_eq_left (by omega)]

lemma slice_append (l : List α) (i : Nat) (x y : List α) (h : slice l i (x ++ y).length = x ++ y) :
    slice l i x.length = x ∧ slice l (i + x.length) y.length = y := by
  rw [length_append, slice_add] at h
  have hlen : (slice l i x.length).length = x.length := by
    have htot := congrArg length h
    simp only [slice, length_append, length_take, length_drop] at htot ⊢
    omega
  exact append_inj h hlen

lemma slice_append_left (x y z : List α) : slice (x ++ y ++ z) x.length y.length = y := by
  unfold slice
  rw [append_assoc, drop_left, take_left]

lemma slice_congr (l l' : List α) (i n : Nat) (h : ∀ j, i ≤ j → j < i + n → l[j]? = l'[j]?) :
    slice l i n = slice l' i n := by
  apply ext_getElem? fun j => ?_
  rw [getElem?_slice, getElem?_slice]
  split
  · exact h (i + j) (by omega) (by omega)
  · rfl

lemma slice_overwrite_self (l : List α) (i : Nat) (src : List α) (h : i + src.length ≤ l.length) :
    slice (overwrite l i src) i src.length = src := by
  apply ext_getElem? fun j => ?_
  rw [getElem?_slice]
  split
  · rw [getElem?_overwrite l i src (by omega), if_pos (by omega), Nat.add_sub_cancel_left]
  · rw [getElem?_eq_none (by omega)]

lemma slice_overwrite_disjoint (l : List α) (i : Nat) (src : List α) (j n : Nat)
    (hi : i ≤ l.length) (h : j + n ≤ i ∨ i + src.length ≤ j) : slice (overwrite l i src) j n = slice l j n := by
  apply slice_congr
  intro k hk hk'
  rw [getElem?_overwrite l i src hi, if_neg (by omega)]

/-! ## Several writes -/

/-- Writes at several places, one after the other. -/
def patched (l : List α) (patches : List (Nat × List α)) : List α :=
  patches.foldl (fun l patch => overwrite l patch.1 patch.2) l

/-- The places lie in a buffer of `n` cells. -/
def Within (n : Nat) (patches : List (Nat × List α)) : Prop :=
  ∀ patch ∈ patches, patch.1 + patch.2.length ≤ n

section

variable (l : List α) (patches : List (Nat × List α)) (h : Within l.length patches)

include l patches h

lemma length_patched : (patched l patches).length = l.length := by
  induction patches generalizing l with
  | nil => rfl
  | cons patch patches ih =>
  have hfirst := h patch mem_cons_self
  have hlen := length_overwrite l patch.1 patch.2 (by omega)
  rw [← hlen]
  refine ih _ fun p hp => ?_
  rw [hlen]
  exact h p (mem_cons_of_mem _ hp)

lemma getElem?_patched (j : Nat) (hj : ∀ patch ∈ patches, j < patch.1 ∨ patch.1 + patch.2.length ≤ j) :
    (patched l patches)[j]? = l[j]? := by
  induction patches generalizing l with
  | nil => rfl
  | cons patch patches ih =>
  have hfirst := h patch mem_cons_self
  have hout := hj patch mem_cons_self
  have hlen := length_overwrite l patch.1 patch.2 (by omega)
  have hrest : Within (overwrite l patch.1 patch.2).length patches := by
    intro p hp
    rw [hlen]
    exact h p (mem_cons_of_mem _ hp)
  calc (patched l (patch :: patches))[j]?
      = (overwrite l patch.1 patch.2)[j]? := ih _ hrest fun p hp => hj p (mem_cons_of_mem _ hp)
    _ = l[j]? := by rw [getElem?_overwrite l patch.1 patch.2 (by omega), if_neg (by omega)]

/-- Writes to places that do not meet are all there in the end. -/
lemma slice_patched (hapt : patches.Pairwise fun p q => p.1 + p.2.length ≤ q.1 ∨ q.1 + q.2.length ≤ p.1)
    (patch : Nat × List α) (hmem : patch ∈ patches) : slice (patched l patches) patch.1 patch.2.length = patch.2 := by
  induction patches generalizing l with
  | nil => simp at hmem
  | cons first patches ih =>
  obtain ⟨hoths, hapt⟩ := pairwise_cons.mp hapt
  have hfirst := h first mem_cons_self
  have hlen := length_overwrite l first.1 first.2 (by omega)
  have hrest : Within (overwrite l first.1 first.2).length patches := by
    intro p hp
    rw [hlen]
    exact h p (mem_cons_of_mem _ hp)
  rcases mem_cons.mp hmem with rfl | hmem
  · refine Eq.trans (slice_congr _ _ _ _ fun j hj hj' => ?_)
      (slice_overwrite_self l patch.1 patch.2 hfirst)
    refine getElem?_patched _ patches hrest j fun p hp => ?_
    have := hoths p hp
    omega
  · exact ih _ hrest hapt hmem

end

/-! ## Buffers made of blocks -/

/-- The blocks of a concatenation of blocks of one size. -/
lemma slice_flatten (blocks : List (List α)) (size : Nat) (h : ∀ b ∈ blocks, b.length = size)
    (i : Nat) (b : List α) (hb : blocks[i]? = some b) : slice blocks.flatten (i * size) size = b := by
  induction blocks generalizing i with
  | nil => simp at hb
  | cons first blocks ih =>
  have hfirst := h first mem_cons_self
  rw [flatten_cons]
  cases i with
  | zero =>
    simp only [getElem?_cons_zero, Option.some.injEq] at hb
    rw [Nat.zero_mul, slice, drop_zero, take_left' hfirst, hb]
  | succ i =>
  have hrest := ih (fun b hb => h b (mem_cons_of_mem _ hb)) i (by simpa using hb)
  rw [Nat.succ_mul, Nat.add_comm, slice, ← drop_drop, drop_left' hfirst]
  exact hrest

lemma length_flatten (blocks : List (List α)) (size : Nat) (h : ∀ b ∈ blocks, b.length = size) :
    blocks.flatten.length = blocks.length * size := by
  induction blocks with
  | nil => simp
  | cons first blocks ih =>
    rw [flatten_cons, length_append, h first mem_cons_self,
      ih fun b hb => h b (mem_cons_of_mem _ hb), length_cons, Nat.succ_mul, Nat.add_comm]

end Slice
