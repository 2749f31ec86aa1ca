import Mathlib.Data.List.Basic

/-!
# Memories

A memory gives a cell for each address.  `window m a n` is what a read of `n` cells
returns and `put m a l` the memory after a write; both are characterised cell by cell
(`getElem?_window`, `put_of_inside`, `put_of_outside`).
-/

namespace Memory

open List

variable {α : Type}

/-- The cells from `a` on, `n` of them. -/
def window (m : Nat → α) (a n : Nat) : List α := (List.range n).map fun i => m (a + i)

/-- The memory after the cells `l` were written at `a`. -/
def put (m : Nat → α) (a : Nat) (l : List α) : Nat → α :=
  fun x => if a ≤ x then (l[x - a]?).getD (m x) else m x

@[simp] lemma length_window (m : Nat → α) (a n : Nat) : (window m a n).length = n := by
  simp [window]

lemma getElem?_window (m : Nat → α) (a n i : Nat) (h : i < n) : (window m a n)[i]? = some (m (a + i)) := by
  simp [window, h]

lemma window_congr {m m' : Nat → α} {a n : Nat} (h : ∀ x, a ≤ x → x < a + n → m x = m' x) :
    window m a n = window m' a n := by
  refine map_congr_left fun i hi => ?_
  have hi := mem_range.mp hi
  exact h (a + i) (by omega) (by omega)

lemma window_add (m : Nat → α) (a n k : Nat) : window m a (n + k) = window m a n ++ window m (a + n) k := by
  unfold window
  rw [range_add, map_append, map_map]
  congr 1
  refine map_congr_left fun i _ => ?_
  simp only [Function.comp_apply]
  congr 1
  omega

section

variable (m : Nat → α) (a : Nat)

lemma drop_window {k n : Nat} (h : k ≤ n) : (window m a n).drop k = window m (a + k) (n - k) := by
  rw [← Nat.add_sub_cancel' h, window_add, drop_left' (length_window ..), Nat.add_sub_cancel_left]

lemma take_window {k n : Nat} (h : k ≤ n) : (window m a n).take k = window m a k := by
  rw [← Nat.add_sub_cancel' h, window_add, take_left' (length_window ..)]

lemma put_of_outside (l : List α) {x : Nat} (h : x < a ∨ a + l.length ≤ x) : put m a l x = m x := by
  unfold put
  split
  · rw [getElem?_eq_none (by omega)]
    rfl
  · rfl

lemma put_of_inside (l : List α) {x : Nat} (hlo : a ≤ x)
    (hhi : x < a + l.length) : some (put m a l x) = l[x - a]? := by
  unfold put
  rw [if_pos hlo, getElem?_eq_getElem (by omega)]
  rfl

@[simp] lemma put_nil : put m a [] = m := by
  funext x
  exact put_of_outside m a [] (by simp; omega)

lemma put_append (l l' : List α) : put (put m a l) (a + l.length) l' = put m a (l ++ l') := by
  funext x
  apply Option.some.inj
  by_cases hlow : x < a
  · rw [put_of_outside _ _ _ (by omega), put_of_outside _ _ _ (by omega), put_of_outside _ _ _ (by omega)]
  by_cases hfirst : x < a + l.length
  · rw [put_of_outside _ _ _ (by omega), put_of_inside _ _ _ (by omega) hfirst,
      put_of_inside _ _ _ (by omega) (by rw [length_append]; omega),
      getElem?_append_left (by omega)]
  by_cases hsecond : x < a + l.length + l'.length
  · rw [put_of_inside _ _ _ (by omega) hsecond, put_of_inside _ _ _ (by omega) (by rw [length_append]; omega),
      getElem?_append_right (by omega)]
    congr 1
    omega
  · rw [put_of_outside _ _ _ (by omega), put_of_outside _ _ _ (by omega),
      put_of_outside _ _ _ (by rw [length_append]; omega)]

end

lemma put_window (m m' : Nat → α) (a n x : Nat) :
    put m a (window m' a n) x = if a ≤ x ∧ x < a + n then m' x else m x := by
  by_cases hin : a ≤ x ∧ x < a + n
  · rw [if_pos hin]
    apply Option.some.inj
    rw [put_of_inside _ _ _ hin.1 (by rw [length_window]; exact hin.2), getElem?_window _ _ _ _ (by omega)]
    congr 2
    omega
  · rw [if_neg hin]
    exact put_of_outside _ _ _ (by rw [length_window]; omega)

end Memory
