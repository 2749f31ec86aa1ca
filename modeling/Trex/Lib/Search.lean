import Mathlib.Tactic.Common

/-!
# Binary search

The search of Go's `sort.Search`: the smallest index in `[0, n)` at which a monotone
test succeeds, `n` if there is none.
-/

namespace Search

/-- The loop, with `turns` at least the length of the interval. -/
def loop (test : Nat → Bool) : Nat → Nat → Nat → Nat
  | 0, i, _ => i
  | turns + 1, i, j =>
      if i < j then
        let h := (i + j) / 2
        if test h then loop test turns i h else loop test turns (h + 1) j
      else i

/-- `sort.Search`: the first index at which a monotone test holds, by bisection. -/
def search (n : Nat) (test : Nat → Bool) : Nat := loop test n 0 n

/-- What lies left of the interval fails, what lies right of it succeeds. -/
lemma loop_eq {test : Nat → Bool} {n k : Nat} (hlow : ∀ j, j < k → test j = false)
    (hhigh : ∀ j, k ≤ j → j < n → test j = true) (turns i j : Nat) (hi : i ≤ k) (hj : k ≤ j)
    (hjn : j ≤ n) (hturns : j - i ≤ turns) : loop test turns i j = k := by
  induction turns generalizing i j with
  | zero =>
    unfold loop
    omega
  | succ turns ih =>
  unfold loop
  split
  next hlt =>
    dsimp only
    split
    next htest =>
      -- the point is at or left of the middle
      have hle : k ≤ (i + j) / 2 := by
        rcases Nat.lt_or_ge ((i + j) / 2) k with hlt' | hge
        · rw [hlow _ hlt'] at htest
          simp at htest
        · exact hge
      exact ih i _ hi hle (by omega) (by omega)
    next htest =>
    have hgt : (i + j) / 2 < k := by
      rcases Nat.lt_or_ge ((i + j) / 2) k with hlt' | hge
      · exact hlt'
      · rw [hhigh _ hge (by omega)] at htest
        simp at htest
    exact ih _ j (by omega) hj hjn (by omega)
  next hge => omega

/-- The bisection finds where a monotone test turns true. -/
lemma search_eq {n k : Nat} {test : Nat → Bool} (hk : k ≤ n)
    (hlow : ∀ j, j < k → test j = false) (hhigh : ∀ j, k ≤ j → j < n → test j = true) : search n test = k :=
  loop_eq hlow hhigh n 0 n (Nat.zero_le _) hk (Nat.le_refl _) (by omega)

/-- The search over a list finds the first element that passes, where those behind it do. -/
lemma search_findIdx {α : Type} {l : List α} {test : Nat → Bool} {q : α → Bool}
    (htest : ∀ i (h : i < l.length), test i = q l[i]) (hmono : l.Pairwise fun a b => q a → q b) :
    search l.length test = l.findIdx q := by
  refine search_eq List.findIdx_le_length (fun j hj => ?_) fun j hj hjn => ?_
  · rw [htest j (Nat.lt_of_lt_of_le hj List.findIdx_le_length)]
    exact List.not_of_lt_findIdx hj
  have hlen : l.findIdx q < l.length := by omega
  have hfound : q l[l.findIdx q] := List.findIdx_getElem
  rw [htest j hjn]
  rcases Nat.lt_or_eq_of_le hj with hlt | heq
  · exact List.pairwise_iff_getElem.mp hmono _ _ _ hjn hlt hfound
  · subst heq
    exact hfound

/-- The test fails right before the place that is found. -/
lemma before_loop {test : Nat → Bool} (turns i j : Nat) (hi : 0 < i → test (i - 1) = false)
    (hpos : 0 < loop test turns i j) : test (loop test turns i j - 1) = false := by
  induction turns generalizing i j with
  | zero => exact hi hpos
  | succ turns ih =>
  simp only [loop] at hpos ⊢
  split_ifs at hpos ⊢ with hlt htest
  · exact ih _ _ hi hpos
  · exact ih _ _ (fun _ => Bool.eq_false_iff.mpr htest) hpos
  · exact hi hpos

end Search
