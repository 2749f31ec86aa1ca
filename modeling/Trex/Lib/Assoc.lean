import Mathlib.Data.List.Basic
import Mathlib.Order.Lattice
import Trex.Lib.Search

/-!
# Sorted association lists

A finite map as the list of its entries in the order of their keys.  `put l k v` binds
the key, removes it when `v` is `none`, and keeps the order; a sorted list is
determined by what `find` finds in it (`Sorted.ext`).
-/

namespace Assoc

open List

variable {κ ν : Type} [LinearOrder κ]

/-- The keys ascend. -/
def Sorted (l : List (κ × ν)) : Prop := l.Pairwise fun a b => a.1 < b.1

/-- The value of a key. -/
def find (l : List (κ × ν)) (k : κ) : Option ν := (l.find? fun e => e.1 == k).map Prod.snd

/-- The entries before the key, its new binding, the entries after it. -/
def put (l : List (κ × ν)) (k : κ) (v : Option ν) : List (κ × ν) :=
  l.filter (fun e => e.1 < k) ++ (v.map fun v => (k, v)).toList ++ l.filter fun e => k < e.1

lemma find_nil (k : κ) : find ([] : List (κ × ν)) k = none := rfl

lemma find_cons (e : κ × ν) (l : List (κ × ν)) (k : κ) :
    find (e :: l) k = if e.1 = k then some e.2 else find l k := by
  unfold find
  rw [find?_cons]
  by_cases h : e.1 = k
  · rw [if_pos h, beq_iff_eq.mpr h]
    rfl
  · rw [if_neg h, beq_eq_false_iff_ne.mpr h]

variable {e : κ × ν} {l : List (κ × ν)} {k : κ}

lemma Sorted.tail (h : Sorted (e :: l)) : Sorted l :=
  (pairwise_cons.mp h).2

lemma Sorted.filter (h : Sorted l) (p : κ × ν → Bool) : Sorted (l.filter p) :=
  List.Pairwise.filter p h

lemma find_eq_none : find l k = none ↔ ∀ e ∈ l, e.1 ≠ k := by
  induction l with
  | nil => simp [find_nil]
  | cons e l ih =>
  rw [find_cons]
  by_cases h : e.1 = k
  · simp [h]
  · rw [if_neg h, ih]
    simp [h]

lemma mem_of_find {v : ν} (h : find l k = some v) : (k, v) ∈ l := by
  induction l with
  | nil => simp [find_nil] at h
  | cons e l ih =>
  rw [find_cons] at h
  by_cases he : e.1 = k
  · rw [if_pos he, Option.some.injEq] at h
    subst he h
    exact mem_cons_self
  · rw [if_neg he] at h
    exact mem_cons_of_mem _ (ih h)

lemma Sorted.find_of_mem (h : Sorted l) (he : e ∈ l) : find l e.1 = some e.2 := by
  induction l with
  | nil => simp at he
  | cons first l ih =>
  rw [find_cons]
  rcases mem_cons.mp he with rfl | he'
  · rw [if_pos rfl]
  · have hlt := (pairwise_cons.mp h).1 e he'
    rw [if_neg (ne_of_lt hlt)]
    exact ih h.tail he'

lemma Sorted.mem_iff (h : Sorted l) (k : κ) (v : ν) : (k, v) ∈ l ↔ find l k = some v :=
  ⟨fun hmem => h.find_of_mem hmem, mem_of_find⟩

/-- Sorted lists that find the same are the same. -/
lemma Sorted.ext {l l' : List (κ × ν)} (h : Sorted l) (h' : Sorted l')
    (hfind : ∀ k, find l k = find l' k) : l = l' := by
  have hmem : ∀ e, e ∈ l ↔ e ∈ l' := by
    rintro ⟨k, v⟩
    rw [h.mem_iff, h'.mem_iff, hfind]
  exact List.Perm.eq_of_pairwise (fun a b _ _ hab hba => absurd hba (lt_asymm hab)) h h'
    ((perm_ext_iff_of_nodup (h.imp fun hlt heq => absurd (heq ▸ hlt) (lt_irrefl _))
      (h'.imp fun hlt heq => absurd (heq ▸ hlt) (lt_irrefl _))).mpr hmem)

/-! ## Putting -/

lemma find_append (l l' : List (κ × ν)) (k : κ) : find (l ++ l') k = (find l k).or (find l' k) := by
  induction l with
  | nil => simp [find_nil]
  | cons e l ih =>
    rw [cons_append, find_cons, find_cons, ih]
    split <;> rfl

lemma find_filter (p : κ → Bool) (k : κ) : find (l.filter fun e => p e.1) k = if p k then find l k else none := by
  induction l with
  | nil => simp [find_nil]
  | cons e l ih =>
  rw [filter_cons, find_cons]
  by_cases hk : e.1 = k
  · subst hk
    by_cases hp : p e.1 = true
    · rw [if_pos hp, if_pos hp, if_pos rfl, find_cons, if_pos rfl]
    · rw [if_neg hp, if_neg hp, ih, if_neg hp]
  · rw [if_neg hk]
    split
    · rw [find_cons, if_neg hk, ih]
    · exact ih

/-- What is found after a change. -/
lemma find_put (l : List (κ × ν)) (k : κ) (v : Option ν) (k' : κ) :
    find (put l k v) k' = if k' = k then v else find l k' := by
  unfold put
  rw [find_append, find_append, find_filter (fun x => decide (x < k)), find_filter (fun x => decide (k < x))]
  by_cases hk : k' = k
  · subst hk
    cases v <;> simp [find_cons, find_nil]
  have hnew : find (v.map fun v => (k, v)).toList k' = none := by cases v <;> simp [find_cons, find_nil, Ne.symm hk]
  rw [hnew, if_neg hk]
  rcases lt_or_gt_of_ne hk with hlt | hgt
  · simp [hlt, lt_asymm hlt]
  · simp [hgt, lt_asymm hgt]

/-- A change keeps the order. -/
lemma sorted_put (h : Sorted l) (k : κ) (v : Option ν) : Sorted (put l k v) := by
  unfold put
  rw [append_assoc]
  refine pairwise_append.mpr ⟨h.filter _, pairwise_append.mpr ⟨?_, h.filter _, ?_⟩, ?_⟩
  · cases v <;> simp
  · intro a ha b hb
    simp only [mem_filter, decide_eq_true_eq] at hb
    cases v with
    | none => simp at ha
    | some v =>
      obtain rfl : a = (k, v) := by simpa using ha
      exact hb.2
  intro a ha b hb
  simp only [mem_filter, decide_eq_true_eq] at ha
  rcases mem_append.mp hb with hb | hb
  · cases v with
    | none => simp at hb
    | some v =>
      obtain rfl : b = (k, v) := by simpa using hb
      exact ha.2
  · simp only [mem_filter, decide_eq_true_eq] at hb
    exact lt_trans ha.2 hb.2

/-! ## The place of a key -/

/-- Where a key stands or would stand. -/
def place (l : List (κ × ν)) (k : κ) : Nat := (l.filter fun e => e.1 < k).length

lemma Sorted.take_place (h : Sorted l) (k : κ) : l.take (place l k) = l.filter (fun e => e.1 < k) ∧
      l.drop (place l k) = l.filter fun e => k ≤ e.1 := by
  induction l with
  | nil => exact ⟨rfl, rfl⟩
  | cons e l ih =>
  unfold place at ih ⊢
  by_cases hlt : e.1 < k
  · have hge : ¬ k ≤ e.1 := not_le.mpr hlt
    simp only [filter_cons, hlt, hge, decide_true, decide_false, if_true, length_cons,
      take_succ_cons, drop_succ_cons, Bool.false_eq_true, if_false]
    exact ⟨by rw [(ih h.tail).1], (ih h.tail).2⟩
  -- from here on every key is at least `k`
  have hall : ∀ e' ∈ e :: l, k ≤ e'.1 := by
    intro e' he'
    rcases mem_cons.mp he' with rfl | he'
    · exact not_lt.mp hlt
    · exact le_trans (not_lt.mp hlt) (le_of_lt ((pairwise_cons.mp h).1 e' he'))
  have hnone : (e :: l).filter (fun e => e.1 < k) = [] :=
    filter_eq_nil_iff.mpr fun e' he' => by simpa using hall e' he'
  have hevery : (e :: l).filter (fun e => k ≤ e.1) = e :: l :=
    filter_eq_self.mpr fun e' he' => by simpa using hall e' he'
  rw [hnone, hevery]
  exact ⟨rfl, rfl⟩

/-- The test with which a sorted list is searched for a key. -/
def atLeast (l : List (κ × ν)) (k : κ) (i : Nat) : Bool :=
  match l[i]? with
  | none => true
  | some e => k ≤ e.1

/-- The binary search finds the place of a key. -/
lemma Sorted.search (h : Sorted l) (k : κ) : Search.search l.length (atLeast l k) = place l k := by
  have hplace : place l k ≤ l.length := length_filter_le _ _
  obtain ⟨htake, hdrop⟩ := h.take_place k
  refine Search.search_eq hplace (fun j hj => ?_) fun j hj hjl => ?_
  · have hlt : j < l.length := by omega
    have hmem : l[j] ∈ l.take (place l k) := mem_take_iff_getElem.mpr ⟨j, by omega, rfl⟩
    rw [htake, mem_filter] at hmem
    rw [atLeast, getElem?_eq_getElem hlt]
    simpa using hmem.2
  · have hmem : l[j] ∈ l.drop (place l k) :=
      mem_drop_iff_getElem.mpr ⟨j - place l k, by omega, by simp [Nat.add_sub_cancel' hj]⟩
    rw [hdrop, mem_filter] at hmem
    rw [atLeast, getElem?_eq_getElem hjl]
    exact hmem.2

/-- The entry at the place of a key is the one of the key, if there is one. -/
lemma Sorted.getElem?_place (h : Sorted l) (k : κ) : (match l[place l k]? with
      | none => none
      | some e => if e.1 = k then some e.2 else none) = find l k := by
  obtain ⟨-, hdrop⟩ := h.take_place k
  have hfind : find l k = find (l.filter fun e => k ≤ e.1) k := by
    rw [find_filter (fun x => decide (k ≤ x)), if_pos (by simp)]
  have hget : l[place l k]? = (l.filter fun e => k ≤ e.1)[0]? := by rw [← hdrop, getElem?_drop, Nat.add_zero]
  rw [hget, hfind]
  have hsorted : Sorted (l.filter fun e => decide (k ≤ e.1)) := h.filter _
  have hge : ∀ e ∈ l.filter fun e => decide (k ≤ e.1), k ≤ e.1 := by
    intro e he
    simpa using (mem_filter.mp he).2
  generalize l.filter (fun e => decide (k ≤ e.1)) = rest at hsorted hge
  cases rest with
  | nil => rfl
  | cons e rest =>
  rw [getElem?_cons_zero, find_cons]
  dsimp only
  split
  · rfl
  next hne =>
  symm
  rw [find_eq_none]
  intro e' he' heq
  have hlt := (pairwise_cons.mp hsorted).1 e' he'
  have hle := hge e mem_cons_self
  rw [heq] at hlt
  exact absurd hlt (not_lt.mpr hle)

/-- What follows the place of a key and the key itself. -/
lemma Sorted.drop_after (h : Sorted l) (k : κ) :
    l.drop (if (find l k).isSome then place l k + 1 else place l k) = l.filter fun e => k < e.1 := by
  obtain ⟨-, hdrop⟩ := h.take_place k
  have hfilter : l.filter (fun e => k < e.1) = (l.drop (place l k)).filter fun e => k < e.1 := by
    rw [hdrop, filter_filter]
    apply filter_congr
    intro e _
    rw [← Bool.decide_and]
    exact decide_eq_decide.mpr ⟨fun hlt => ⟨hlt, le_of_lt hlt⟩, And.left⟩
  have hplace := h.getElem?_place k
  have hsorted : Sorted (l.drop (place l k)) := hdrop ▸ h.filter _
  have hge : ∀ e ∈ l.drop (place l k), k ≤ e.1 := by
    rw [hdrop]
    intro e he
    simpa using (mem_filter.mp he).2
  rw [hfilter, ← hplace]
  cases hrest : l.drop (place l k) with
  | nil =>
    rw [getElem?_eq_none (drop_eq_nil_iff.mp hrest)]
    simp [hrest]
  | cons e rest =>
  have hget : l[place l k]? = some e := by
    rw [← getElem?_cons_zero (a := e) (l := rest), ← hrest, getElem?_drop, Nat.add_zero]
  rw [hrest] at hsorted hge
  have hlater : ∀ e' ∈ rest, k < e'.1 := fun e' he' =>
    lt_of_le_of_lt (hge e mem_cons_self) ((pairwise_cons.mp hsorted).1 e' he')
  have hkeep : rest.filter (fun e => k < e.1) = rest :=
    filter_eq_self.mpr fun e' he' => decide_eq_true (hlater e' he')
  rw [hget, filter_cons, hkeep]
  by_cases hkey : e.1 = k
  · have hirrefl : ¬ k < e.1 := hkey ▸ lt_irrefl _
    simp [hkey, ← drop_drop, hrest]
  · have hlt : k < e.1 := lt_of_le_of_ne (hge e mem_cons_self) (Ne.symm hkey)
    simp [hkey, hlt, hrest]

end Assoc

/-- A finite map, as the sorted list of its entries. -/
structure SortedMap (κ ν : Type) [LinearOrder κ] where
  entries : List (κ × ν)
  sorted : Assoc.Sorted entries

namespace SortedMap

variable {κ ν : Type} [LinearOrder κ]

def empty : SortedMap κ ν := ⟨[], List.Pairwise.nil⟩

instance : Inhabited (SortedMap κ ν) := ⟨empty⟩

instance : EmptyCollection (SortedMap κ ν) := ⟨empty⟩

instance [DecidableEq ν] : DecidableEq (SortedMap κ ν) := fun m m' =>
  decidable_of_iff (m.entries = m'.entries) (by cases m; cases m'; simp)

def find (m : SortedMap κ ν) (k : κ) : Option ν := Assoc.find m.entries k

def insert (m : SortedMap κ ν) (k : κ) (v : ν) : SortedMap κ ν :=
  ⟨Assoc.put m.entries k (some v), Assoc.sorted_put m.sorted k _⟩

def erase (m : SortedMap κ ν) (k : κ) : SortedMap κ ν :=
  ⟨Assoc.put m.entries k none, Assoc.sorted_put m.sorted k _⟩

/-- The map with the bindings of a list, later ones first. -/
def ofList (l : List (κ × ν)) : SortedMap κ ν := l.foldl (fun m e => m.insert e.1 e.2) ∅

@[simp] lemma find_empty (k : κ) : (∅ : SortedMap κ ν).find k = none := rfl

section

variable (m : SortedMap κ ν)

include m

lemma find_insert (k : κ) (v : ν) (k' : κ) :
    (m.insert k v).find k' = if k' = k then some v else m.find k' := Assoc.find_put _ _ _ _

lemma find_erase (k k' : κ) : (m.erase k).find k' = if k' = k then none else m.find k' := Assoc.find_put _ _ _ _

lemma isSome_find_insert (k : κ) (v : ν) (k' : κ) :
    ((m.insert k v).find k').isSome = true ↔ k' = k ∨ (m.find k').isSome = true := by
  rw [find_insert]
  split <;> simp [*]

lemma isSome_find_erase (k k' : κ) : ((m.erase k).find k').isSome = true ↔ k' ≠ k ∧ (m.find k').isSome = true := by
  rw [find_erase]
  split <;> simp [*]

lemma mem_entries (k : κ) (v : ν) : (k, v) ∈ m.entries ↔ m.find k = some v :=
  m.sorted.mem_iff k v

end

end SortedMap
