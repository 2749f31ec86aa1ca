import Mathlib.Algebra.GroupWithZero.Nat
import Mathlib.Data.List.AList

/-!
# Totals over a finite map

`total f s` adds `f` over the bindings of `s`; inserting or erasing a key moves it by the bindings that
come in and go out.
-/

namespace AList

open List

variable {α β γ : Type} [DecidableEq α]

/-- The sum of `f` over the values. -/
def total (f : β → Nat) (s : AList fun _ : α => β) : Nat := (s.entries.map fun e => f e.2).sum

section

variable (f : β → Nat) (a : α)

lemma sum_kerase (l : List (Sigma fun _ : α => β)) :
    ((l.kerase a).map fun e => f e.2).sum + ((l.dlookup a).map f).getD 0 = (l.map fun e => f e.2).sum := by
  induction l with
  | nil => simp
  | cons e l ih =>
  by_cases h : a = e.1
  · obtain ⟨k, v⟩ := e
    subst h
    simp [dlookup_cons_eq, Nat.add_comm]
  · rw [kerase_cons_ne h, dlookup_cons_ne _ _ h]
    simp only [map_cons, sum_cons]
    omega

lemma total_erase (s : AList fun _ : α => β) : total f (s.erase a) + ((s.lookup a).map f).getD 0 = total f s :=
  sum_kerase f a s.entries

lemma total_insert (v : β) (s : AList fun _ : α => β) :
    total f (s.insert a v) + ((s.lookup a).map f).getD 0 = total f s + f v := by
  have h := sum_kerase f a s.entries
  unfold total
  rw [entries_insert]
  simp only [map_cons, sum_cons]
  unfold lookup
  omega

end

lemma total_congr (f g : β → Nat) (s : AList fun _ : α => β)
    (h : ∀ a v, s.lookup a = some v → f v = g v) : total f s = total g s := by
  unfold total
  congr 1
  apply map_congr_left
  intro e he
  exact h e.1 e.2 ((mem_dlookup_iff s.nodupKeys).2 he)

lemma dlookup_foldl_insert (f : β → γ) (a : α) (l : List (Sigma fun _ : α => β))
    (hl : l.NodupKeys) (s : AList fun _ : α => γ) : (l.foldl (fun s e => s.insert e.1 (f e.2)) s).lookup a =
      ((l.dlookup a).map f).or (s.lookup a) := by
  induction l generalizing s with
  | nil => simp
  | cons e l ih =>
  obtain ⟨k, v⟩ := e
  rw [nodupKeys_cons] at hl
  simp only [foldl_cons]
  rw [ih hl.2]
  by_cases h : a = k
  · subst h
    rw [dlookup_eq_none.2 hl.1]
    simp [dlookup_cons_eq]
  · rw [lookup_insert_ne h, dlookup_cons_ne _ _ h]

lemma lookup_foldl_insert (f : β → γ) (a : α) (s : AList fun _ : α => β) :
    (s.entries.foldl (fun t e => t.insert e.1 (f e.2)) (∅ : AList fun _ : α => γ)).lookup a = (s.lookup a).map f := by
  rw [dlookup_foldl_insert f a s.entries s.nodupKeys]
  simp [lookup]

end AList
