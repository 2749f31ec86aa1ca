import Mathlib.Data.List.Sort
import Trex.Lib.Assoc

/-!
# Strictly sorted lists

A strictly increasing list is given by its members.  The place of an element is where the
members that are not below it begin; binary search finds it, and putting the element there
or taking it away keeps the order.
-/

namespace SortedList

open List

variable {α : Type} [LinearOrder α] {l l' : List α}

lemma ext (h : l.Pairwise (· < ·)) (h' : l'.Pairwise (· < ·)) (hmem : ∀ x, x ∈ l ↔ x ∈ l') : l = l' :=
  h.eq_of_mem_iff h' hmem

/-- The elements in front of `k`. -/
def below (l : List α) (k : α) : List α := l.takeWhile fun x => decide (x < k)

/-- The elements from `k` on. -/
def rest (l : List α) (k : α) : List α := l.dropWhile fun x => decide (x < k)

lemma below_append_rest (l : List α) (k : α) : below l k ++ rest l k = l :=
  takeWhile_append_dropWhile

lemma lt_of_mem_below {k x : α} (hx : x ∈ below l k) : x < k := by
  simpa using all_eq_true.mp all_takeWhile x hx

lemma le_of_mem_rest (h : l.Pairwise (· < ·)) {k x : α} (hx : x ∈ rest l k) : k ≤ x := by
  induction l with
  | nil => simp [rest] at hx
  | cons a l ih =>
  obtain ⟨hhead, htail⟩ := pairwise_cons.mp h
  unfold rest at hx
  rw [dropWhile_cons] at hx
  split at hx
  · exact ih htail hx
  next hge =>
    have hka : k ≤ a := by simpa using hge
    rcases mem_cons.mp hx with rfl | hx
    · exact hka
    · exact le_trans hka (le_of_lt (hhead x hx))

lemma search_eq (h : l.Pairwise (· < ·)) (k z : α) :
    Search.search l.length (fun i => decide (k ≤ l.getD i z)) = (below l k).length := by
  rw [Search.search_findIdx (q := fun x => decide (k ≤ x))]
  · rw [below, takeWhile_eq_take_findIdx_not, length_take_of_le findIdx_le_length]
    simp only [← decide_not, not_lt]
  · intro i hi
    rw [getD_eq_getElem?_getD, getElem?_eq_getElem hi, Option.getD_some]
  · refine h.imp fun hab hka => ?_
    simp only [decide_eq_true_eq] at hka ⊢
    exact hka.trans hab.le

section

variable (l : List α) (k : α)

lemma take_place : l.take (below l k).length = below l k := by
  have htake : (below l k ++ rest l k).take (below l k).length = below l k := take_left
  rwa [below_append_rest] at htake

lemma drop_place : l.drop (below l k).length = rest l k := by
  have hdrop : (below l k ++ rest l k).drop (below l k).length = rest l k := drop_left
  rwa [below_append_rest] at hdrop

lemma getElem?_place : l[(below l k).length]? = (rest l k).head? := by
  rw [← drop_place, head?_drop]

end

lemma mem_iff_head (h : l.Pairwise (· < ·)) (k : α) : k ∈ l ↔ (rest l k).head? = some k := by
  constructor
  · intro hk
    rw [← below_append_rest l k, mem_append] at hk
    rcases hk with hk | hk
    · exact absurd (lt_of_mem_below hk) (lt_irrefl k)
    cases hrest : rest l k with
    | nil =>
      rw [hrest] at hk
      simp at hk
    | cons a r =>
    have hsorted : (rest l k).Pairwise (· < ·) := h.sublist (dropWhile_sublist _)
    have hka : k ≤ a := le_of_mem_rest h (hrest ▸ mem_cons_self)
    rw [hrest] at hk hsorted
    rcases mem_cons.mp hk with rfl | hk
    · rfl
    · exact absurd ((pairwise_cons.mp hsorted).1 k hk) (not_lt.mpr hka)
  · intro hk
    have hmem : k ∈ rest l k := mem_of_head? hk
    rw [← below_append_rest l k]
    exact mem_append_right _ hmem

lemma pairwise_insert (h : l.Pairwise (· < ·)) {k : α} (hk : k ∉ l) :
    (below l k ++ k :: rest l k).Pairwise (· < ·) := by
  have hbelow : (below l k).Pairwise (· < ·) := h.sublist (takeWhile_sublist _)
  have hrest : (rest l k).Pairwise (· < ·) := h.sublist (dropWhile_sublist _)
  have hlt : ∀ x ∈ rest l k, k < x := by
    intro x hx
    refine lt_of_le_of_ne (le_of_mem_rest h hx) ?_
    rintro rfl
    exact hk ((dropWhile_sublist _).subset hx)
  refine pairwise_append.mpr ⟨hbelow, pairwise_cons.mpr ⟨hlt, hrest⟩, ?_⟩
  intro x hx y hy
  rcases mem_cons.mp hy with rfl | hy
  · exact lt_of_mem_below hx
  · exact lt_trans (lt_of_mem_below hx) (hlt y hy)

lemma mem_insert (k x : α) : x ∈ below l k ++ k :: rest l k ↔ x = k ∨ x ∈ l := by
  nth_rewrite 3 [← below_append_rest l k]
  simp only [mem_append, mem_cons]
  tauto

lemma remove_spec (h : l.Pairwise (· < ·)) {k : α} (hk : (rest l k).head? = some k) :
    (below l k ++ l.drop ((below l k).length + 1)).Pairwise (· < ·) ∧
      ∀ x, x ∈ below l k ++ l.drop ((below l k).length + 1) ↔ x ≠ k ∧ x ∈ l := by
  cases hrest : rest l k with
  | nil =>
    rw [hrest] at hk
    simp at hk
  | cons a r =>
  rw [hrest] at hk
  have hak : a = k := by simpa using hk
  have hsplit : l = below l k ++ k :: r := by
    have happ := below_append_rest l k
    rw [hrest, hak] at happ
    exact happ.symm
  have hdrop : l.drop ((below l k).length + 1) = r := by
    rw [← drop_drop, drop_place, hrest, drop_succ_cons, drop_zero]
  rw [hdrop]
  generalize below l k = b at hsplit ⊢
  subst hsplit
  have hsublist : (b ++ r).Sublist (b ++ k :: r) := (sublist_cons_self k r).append_left _
  refine ⟨h.sublist hsublist, fun x => ?_⟩
  have hnot : k ∉ b ++ r := (nodup_middle.mp h.nodup).notMem
  constructor
  · intro hx
    refine ⟨?_, ?_⟩
    · rintro rfl
      exact hnot hx
    · exact hsublist.subset hx
  · rintro ⟨hne, hx⟩
    simp only [mem_append, mem_cons] at hx ⊢
    tauto

end SortedList

namespace SortedMap

variable {κ ν ν' : Type} [LinearOrder κ]

def keys (m : SortedMap κ ν) : List κ := m.entries.map Prod.fst

lemma keys_sorted (m : SortedMap κ ν) : m.keys.Pairwise (· < ·) :=
  List.pairwise_map.mpr m.sorted

lemma mem_keys (m : SortedMap κ ν) (k : κ) : k ∈ m.keys ↔ (m.find k).isSome := by
  unfold keys
  rw [List.mem_map, Option.isSome_iff_exists]
  constructor
  · rintro ⟨⟨k', v⟩, hmem, rfl⟩
    exact ⟨v, (m.mem_entries _ _).mp hmem⟩
  · rintro ⟨v, hv⟩
    exact ⟨(k, v), (m.mem_entries _ _).mpr hv, rfl⟩

lemma keys_congr {m m' : SortedMap κ ν} (h : ∀ k, (m.find k).isSome = (m'.find k).isSome) : m.keys = m'.keys := by
  refine SortedList.ext m.keys_sorted m'.keys_sorted fun k => ?_
  rw [mem_keys, mem_keys, h]

end SortedMap
