/-!
# Counting over a list of cells

`tally f l` adds up a weight over the cells of a list; `tally_set_eq` says
what replacing one cell does to it.  Counters that several workers share are tallies
over the workers' states.
-/

namespace Tally

variable {α : Type}

/-- The sum of `f` over a list. -/
def tally (f : α → Nat) : List α → Nat
  | [] => 0
  | a :: l => f a + tally f l

/-- Replacing one element trades its value. -/
theorem tally_set (f : α → Nat) (l : List α) (w : Nat) (a b : α) (h : l[w]? = some a) :
    tally f (l.set w b) + f a = tally f l + f b := by
  induction l generalizing w with
  | nil => simp at h
  | cons x l ih =>
  cases w with
  | zero =>
    simp only [List.getElem?_cons_zero, Option.some.injEq] at h
    subst h
    simp only [List.set_cons_zero, tally]
    omega
  | succ w =>
  have := ih w (by simpa using h)
  simp only [List.set_cons_succ, tally]
  omega

theorem le_tally (f : α → Nat) (l : List α) (a : α) (h : a ∈ l) : f a ≤ tally f l := by
  induction l with
  | nil => simp at h
  | cons x l ih =>
  rcases List.mem_cons.mp h with rfl | h
  · simp only [tally]; omega
  · have := ih h
    simp only [tally]; omega

variable {f : α → Nat} {l : List α} {w : Nat} {a : α}

theorem tally_set_eq (h : l[w]? = some a) (b : α) : tally f (l.set w b) = tally f l - f a + f b := by
  have hset := tally_set f l w a b h
  have hle := le_tally f l a (List.mem_of_getElem? h)
  omega

theorem tally_set_same {a b : α} (h : l[w]? = some a) (hab : f a = f b) : tally f (l.set w b) = tally f l := by
  have := tally_set f l w a b h
  omega

theorem tally_concat (f : α → Nat) (l : List α) (a : α) : tally f (l ++ [a]) = tally f l + f a := by
  induction l with
  | nil => simp [tally]
  | cons x l ih =>
    simp only [List.cons_append, tally, ih]
    omega

theorem tally_eq_zero (f : α → Nat) (l : List α) (h : ∀ a ∈ l, f a = 0) : tally f l = 0 := by
  induction l with
  | nil => rfl
  | cons x l ih =>
  have hx := h x (by simp)
  have hl := ih fun a ha => h a (by simp [ha])
  simp only [tally]; omega

theorem tally_replicate (f : α → Nat) (n : Nat) (a : α) : tally f (List.replicate n a) = f a * n := by
  induction n with
  | zero => rfl
  | succ n ih =>
    rw [List.replicate_succ, tally, ih, Nat.mul_succ]
    omega

end Tally
