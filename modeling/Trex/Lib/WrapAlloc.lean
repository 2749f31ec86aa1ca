import Mathlib.Algebra.Order.BigOperators.Group.List
import Mathlib.Algebra.Order.Ring.Nat
import Mathlib.Data.List.Nodup
import Mathlib.Data.List.Pairwise

/-!
# Runs from a counter that wraps

Each item takes a run of cells from a counter of `w` values.  Until the counter wraps the runs are what
they look like; a run that passes the end contains the cell 0.
-/

namespace Trex.WrapAlloc

open List

variable {α : Type}

/-- A run of cells and its owner. -/
structure Run (α : Type) where
  owner : α
  start : Nat
  count : Nat

/-- The cells of a run, behind the end from 0 on. -/
def Run.cells (w : Nat) (r : Run α) : List Nat := (List.range r.count).map fun i => (r.start + i) % w

/-- The runs of the items and the counter behind them; an empty run starts at 0. -/
def allocate (w : Nat) (need : α → Nat) : List α → Nat → List (Run α) × Nat
  | [], next => ([], next)
  | a :: rest, next =>
    let count := need a % w
    let r := allocate w need rest ((next + count) % w)
    (⟨a, if count = 0 then 0 else next, count⟩ :: r.1, r.2)

/-- What all items need. -/
def total (need : α → Nat) (l : List α) : Nat := (l.map need).sum

@[simp] lemma total_cons (need : α → Nat) (a : α) (l : List α) : total need (a :: l) = need a + total need l := rfl

lemma total_perm {need : α → Nat} {l l' : List α} (h : l.Perm l') : total need l = total need l' := (h.map need).sum_eq

lemma map_owner_allocate (w : Nat) (need : α → Nat) (l : List α) (next : Nat) :
    (allocate w need l next).1.map Run.owner = l := by
  induction l generalizing next with
  | nil => rfl
  | cons a l ih => simp [allocate, ih]

variable {w next : Nat} {need : α → Nat} {l : List α} {r : Run α}

/-- A run has what its owner needs, modulo the width. -/
lemma count_allocate (hr : r ∈ (allocate w need l next).1) : r.count = need r.owner % w := by
  induction l generalizing next with
  | nil => cases hr
  | cons a l ih =>
  rcases mem_cons.mp hr with rfl | hr
  · rfl
  · exact ih hr

/-- The counter has not wrapped: the runs lie in order between its two values. -/
lemma allocate_spec (h : next + total need l ≤ w) :
    (∀ r ∈ (allocate w need l next).1, 0 < r.count → next ≤ r.start ∧ r.start + r.count ≤ next + total need l) ∧
    (allocate w need l next).1.Pairwise (fun r r' => 0 < r.count → 0 < r'.count → r.start + r.count ≤ r'.start) := by
  induction l generalizing next with
  | nil => exact ⟨fun r hr => absurd hr not_mem_nil, List.Pairwise.nil⟩
  | cons a l ih =>
  rw [total_cons] at h ⊢
  have hcount : need a % w ≤ need a := Nat.mod_le _ _
  unfold allocate
  simp only
  rcases lt_or_ge (next + need a % w) w with hlt | hge
  · rw [Nat.mod_eq_of_lt hlt]
    have hroom : next + need a % w + total need l ≤ w := by omega
    obtain ⟨hwithin, hord⟩ := ih hroom
    refine ⟨fun r hr hpos => ?_, List.Pairwise.cons (fun r hr hpos hpos' => ?_) hord⟩
    · rcases mem_cons.mp hr with rfl | hr
      · simp only at hpos ⊢
        rw [if_neg (by omega)]
        omega
      · have hr' := hwithin r hr hpos
        omega
    · simp only at hpos ⊢
      rw [if_neg (by omega)]
      exact (hwithin r hr hpos').1
  -- the last cell is taken: nothing else is needed
  have hnone : ∀ r ∈ (allocate w need l ((next + need a % w) % w)).1, ¬ 0 < r.count := by
    intro r hr hpos
    have howner : r.owner ∈ l := by
      rw [← map_owner_allocate w need l ((next + need a % w) % w)]
      exact mem_map_of_mem hr
    have hle : need r.owner ≤ total need l :=  le_sum_of_mem (mem_map_of_mem howner)
    have hr' := count_allocate hr
    have hmod := Nat.mod_le (need r.owner) w
    omega
  refine ⟨fun r hr hpos => ?_, List.Pairwise.cons (fun r hr hpos hpos' => ?_) ?_⟩
  · rcases mem_cons.mp hr with rfl | hr
    · simp only at hpos ⊢
      rw [if_neg (by omega)]
      omega
    · exact absurd hpos (hnone r hr)
  · exact absurd hpos' (hnone r hr)
  · exact pairwise_of_forall_mem_list fun r hr r' _ hpos => absurd hpos (hnone r hr)

/-- From 0 on nothing can be needed without taking the cell 0. -/
lemma total_eq_zero_of_avoid (hneed : ∀ a ∈ l, need a < w)
    (h : ∀ r ∈ (allocate w need l 0).1, 0 ∉ r.cells w) : total need l = 0 := by
  induction l with
  | nil => rfl
  | cons a l ih =>
  have ha := Nat.mod_eq_of_lt (hneed a mem_cons_self)
  have hzero : need a = 0 := by
    by_contra hne
    refine h _ mem_cons_self (mem_map.mpr ⟨0, ?_, ?_⟩)
    · exact mem_range.mpr (by simp only; omega)
    · simp
  rw [total_cons, hzero, zero_add]
  refine ih (fun b hb => hneed b (mem_cons_of_mem _ hb)) fun r hr => ?_
  refine h r (mem_cons_of_mem _ ?_)
  simpa [allocate, hzero] using hr

/-- If no run meets 0, the counter has not wrapped. -/
lemma total_le_of_avoid (hnext : next < w) (hneed : ∀ a ∈ l, need a < w)
    (h : ∀ r ∈ (allocate w need l next).1, 0 ∉ r.cells w) : next + total need l ≤ w := by
  induction l generalizing next with
  | nil => exact hnext.le
  | cons a l ih =>
  have ha := Nat.mod_eq_of_lt (hneed a mem_cons_self)
  have hrest : ∀ r ∈ (allocate w need l ((next + need a) % w)).1, 0 ∉ r.cells w := by
    intro r hr
    refine h r (mem_cons_of_mem _ ?_)
    rwa [ha]
  have hneed' : ∀ b ∈ l, need b < w := fun b hb => hneed b (mem_cons_of_mem _ hb)
  rw [total_cons]
  rcases lt_trichotomy (next + need a) w with hlt | heq | hgt
  · rw [Nat.mod_eq_of_lt hlt] at hrest
    have hle := ih hlt hneed' hrest
    omega
  · rw [heq, Nat.mod_self] at hrest
    rw [total_eq_zero_of_avoid hneed' hrest]
    omega
  -- the run passes the end
  exfalso
  refine h _ mem_cons_self (mem_map.mpr ⟨w - next, ?_, ?_⟩)
  · exact mem_range.mpr (by simp only; omega)
  · simp only
    rw [ha, if_neg (by omega), Nat.add_sub_cancel' hnext.le, Nat.mod_self]

/-! ## Cells -/

lemma mem_cells (h : r.start + r.count ≤ w) {c : Nat} : c ∈ r.cells w ↔ r.start ≤ c ∧ c < r.start + r.count := by
  unfold Run.cells
  rw [mem_map]
  constructor
  · rintro ⟨i, hi, rfl⟩
    have hi' := mem_range.mp hi
    rw [Nat.mod_eq_of_lt (by omega)]
    omega
  · rintro ⟨hlo, hhi⟩
    refine ⟨c - r.start, mem_range.mpr (by omega), ?_⟩
    rw [Nat.add_sub_cancel' hlo, Nat.mod_eq_of_lt (by omega)]

lemma nodup_cells (h : r.start + r.count ≤ w) : (r.cells w).Nodup := by
  refine List.Nodup.map_on (fun i hi j hj heq => ?_) nodup_range
  have hi' := mem_range.mp hi
  have hj' := mem_range.mp hj
  rw [Nat.mod_eq_of_lt (by omega), Nat.mod_eq_of_lt (by omega)] at heq
  omega

lemma cells_of_empty (h : r.count = 0) : r.cells w = [] := by
  unfold Run.cells
  rw [h]
  rfl

/-- Runs that follow one another share no cell. -/
lemma nodup_flatMap_cells {rs : List (Run α)} (hwithin : ∀ r ∈ rs, 0 < r.count → r.start + r.count ≤ w)
    (hord : rs.Pairwise fun r r' => 0 < r.count → 0 < r'.count → r.start + r.count ≤ r'.start) :
    (rs.flatMap (Run.cells w)).Nodup := by
  rw [nodup_flatMap]
  refine ⟨fun r hr => ?_, ?_⟩
  · rcases Nat.eq_zero_or_pos r.count with hzero | hpos
    · rw [cells_of_empty hzero]
      exact nodup_nil
    · exact nodup_cells (hwithin r hr hpos)
  refine hord.imp_of_mem fun {r r'} hr hr' hle => ?_
  intro c hc hc'
  rcases Nat.eq_zero_or_pos r.count with hzero | hpos
  · rw [cells_of_empty hzero] at hc
    cases hc
  rcases Nat.eq_zero_or_pos r'.count with hzero | hpos'
  · rw [cells_of_empty hzero] at hc'
    cases hc'
  rw [mem_cells (hwithin r hr hpos)] at hc
  rw [mem_cells (hwithin r' hr' hpos')] at hc'
  omega

/-! ## Writes to a table -/

/-- A table after writes, the last one last. -/
def writeAll {κ ν : Type} [DecidableEq κ] (f : κ → ν) (writes : List (κ × ν)) : κ → ν :=
  writes.foldl (fun f e => Function.update f e.1 e.2) f

section

variable {κ ν : Type} [DecidableEq κ]

variable {f : κ → ν} {writes : List (κ × ν)} {k : κ}

lemma writeAll_of_not_mem (h : k ∉ writes.map Prod.fst) : writeAll f writes k = f k := by
  induction writes generalizing f with
  | nil => rfl
  | cons e writes ih =>
  rw [map_cons, mem_cons, not_or] at h
  show writeAll (Function.update f e.1 e.2) writes k = f k
  rw [ih h.2, Function.update_of_ne h.1]

lemma writeAll_of_mem (hnodup : (writes.map Prod.fst).Nodup) {v : ν}
    (h : (k, v) ∈ writes) : writeAll f writes k = v := by
  induction writes generalizing f with
  | nil => cases h
  | cons e writes ih =>
  rw [map_cons, nodup_cons] at hnodup
  show writeAll (Function.update f e.1 e.2) writes k = v
  rcases mem_cons.mp h with rfl | h
  · rw [writeAll_of_not_mem hnodup.1, Function.update_self]
  · exact ih hnodup.2 h

end

end Trex.WrapAlloc
