import Mathlib.Tactic.Common

/-!
# Lists linked through the cells of a table

A cell holds the one-based number of the next cell, zero at the end.  New cells are put in front, so
links point down (`Descending`).
-/

namespace Chain

/-- The cells from a link on, at most `turns` of them. -/
def walk (next : Nat → Nat) : Nat → Nat → List Nat
  | 0, _ => []
  | _ + 1, 0 => []
  | turns + 1, link + 1 => link :: walk next turns (next link)

/-- The cells from a link on, for links that descend. -/
def cells (next : Nat → Nat) (link : Nat) : List Nat := walk next link link

/-- A cell links to a cell below it. -/
def Descending (next : Nat → Nat) : Prop := ∀ i, next i ≤ i

variable {next : Nat → Nat}

section

variable (h : Descending next)

include h

/-- Enough turns reach the end. -/
lemma walk_eq_cells (turns link : Nat) (hle : link ≤ turns) : walk next turns link = cells next link := by
  induction turns using Nat.strongRecOn generalizing link with
  | ind turns ih =>
  cases turns with
  | zero =>
    obtain rfl : link = 0 := by omega
    rfl
  | succ turns =>
  cases link with
  | zero => rfl
  | succ link =>
  have hnext := h link
  rw [cells, walk, walk, ih turns (by omega) _ (by omega)]
  rcases Nat.lt_or_eq_of_le (show link ≤ turns by omega) with hlt | rfl
  · rw [ih link (by omega) _ hnext]
  · rw [ih link (by omega) _ hnext]

lemma cells_succ (i : Nat) : cells next (i + 1) = i :: cells next (next i) := by
  rw [cells, walk, walk_eq_cells h i _ (h i)]

lemma lt_of_mem_cells {link i : Nat} (hi : i ∈ cells next link) : i < link := by
  induction link using Nat.strongRecOn with
  | ind link ih =>
  cases link with
  | zero => simp [cells, walk] at hi
  | succ j =>
  rw [cells_succ h] at hi
  rcases List.mem_cons.mp hi with rfl | hi
  · omega
  · have := ih (next j) (by have := h j; omega) hi
    have := h j
    omega

/-- A descending list has no cell twice. -/
lemma nodup_cells (link : Nat) : (cells next link).Nodup := by
  induction link using Nat.strongRecOn with
  | ind link ih =>
  cases link with
  | zero => simp [cells, walk]
  | succ j =>
  have hle := h j
  rw [cells_succ h, List.nodup_cons]
  refine ⟨fun hmem => ?_, ih (next j) (by omega)⟩
  have := lt_of_mem_cells h hmem
  omega

/-- A list does not see links of cells that are not in it. -/
lemma cells_congr {next' : Nat → Nat} (h' : Descending next') {link : Nat}
    (heq : ∀ i, i < link → next' i = next i) : cells next' link = cells next link := by
  induction link using Nat.strongRecOn with
  | ind link ih =>
  cases link with
  | zero => rfl
  | succ j =>
  have hle := h j
  rw [cells_succ h, cells_succ h', heq j (by omega), ih (next j) (by omega) fun i hi => heq i (by omega)]

end

end Chain
