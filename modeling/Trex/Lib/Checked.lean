import Mathlib.Data.List.Forall2

/-!
# Computations that may fail

What the success of a computation in `Except` (or, for a pass, in `Option`) says about its parts:
the steps of a sequence, of a fold and of a pass over a list.
-/

namespace Checked

open List

variable {ε α β σ : Type}

variable {f : α → Except ε β} {l : List α} {l' : List β}

lemma bind_ok {x : Except ε α} {b : β} (h : (x >>= f) = .ok b) : ∃ a, x = .ok a ∧ f a = .ok b := by
  cases x with
  | error e => cases h
  | ok a => exact ⟨a, rfl, h⟩

lemma ok_pair {a a' : α} {b b' : β} (h : (.ok (a, b) : Except ε (α × β)) = .ok (a', b')) : a = a' ∧ b = b' :=
  Prod.mk.inj (Except.ok.inj h)

lemma mapM_some {f : α → Option β} (h : l.mapM f = some l') : List.Forall₂ (fun a b => f a = some b) l l' := by
  induction l generalizing l' with
  | nil =>
    cases h
    exact List.Forall₂.nil
  | cons a l ih =>
  rw [mapM_cons] at h
  obtain ⟨b, hb, h⟩ := Option.bind_eq_some_iff.mp h
  obtain ⟨bs, hbs, h⟩ := Option.bind_eq_some_iff.mp h
  cases h
  exact List.Forall₂.cons hb (ih hbs)

end Checked
