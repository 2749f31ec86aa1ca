import Mathlib.Data.Fintype.Order

/-!
# Cycles of a dependency relation

`r i j` reads as "`i` needs `j`".  In a finite range a set of which every member needs
another member has a cycle; an accessible element is on none.
-/

namespace Acyclic

open Relation

variable {r : Nat → Nat → Prop}

/-- Following the needs inside a finite set comes back to where it was. -/
lemma exists_cycle {n : Nat} (left : Nat → Prop) (hleft : ∃ i < n, left i)
    (hneeds : ∀ i < n, left i → ∃ j < n, left j ∧ r i j) : ∃ i, TransGen r i i := by
  by_contra hno
  push Not at hno
  let below : {i : Fin n // left i} → {i : Fin n // left i} → Prop := fun a b => TransGen r b.1 a.1
  have : IsTrans _ below := ⟨fun a b c hab hbc => TransGen.trans hbc hab⟩
  have : Std.Irrefl below := ⟨fun a => hno a.1⟩
  obtain ⟨i, hi, hl⟩ := hleft
  obtain ⟨m, -, hmin⟩ := (Finite.wellFounded_of_trans_of_irrefl below).has_min Set.univ
    ⟨⟨⟨i, hi⟩, hl⟩, trivial⟩
  obtain ⟨j, hj, hlj, hr⟩ := hneeds m.1 m.1.2 m.2
  exact hmin ⟨⟨j, hj⟩, hlj⟩ trivial (.single hr)

lemma not_cycle_of_acc {i : Nat} (h : Acc (fun q i => r i q) i) : ¬ TransGen r i i := by
  induction h with
  | intro i _ ih =>
  intro hcycle
  obtain ⟨j, hij, hji⟩ := TransGen.head'_iff.mp hcycle
  exact ih j hij (TransGen.tail' hji hij)

end Acyclic
