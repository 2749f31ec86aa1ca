import Mathlib.Tactic.Common

/-!
# Runs of a step function

A step takes a state and an event to the next state, or to `none` where the event cannot happen.
`run_keeps`: what every step under the condition `C` keeps, a run whose steps all meet `C` (`Always C`)
keeps.
-/

namespace Steps

variable {σ ε : Type} (step : σ → ε → Option σ)

/-- The state after the events, if each of them can happen in its turn. -/
def run (s : σ) : List ε → Option σ
  | [] => some s
  | e :: es => (step s e).bind fun s' => run s' es

/-- Every step of the run from `s` meets `C`. -/
def Always (C : σ → ε → Prop) (s : σ) : List ε → Prop
  | [] => True
  | e :: es => C s e ∧ ∀ s', step s e = some s' → Always C s' es

instance (C : σ → ε → Prop) [∀ s e, Decidable (C s e)] : ∀ (s : σ) (es : List ε), Decidable (Always step C s es)
  | _, [] => inferInstanceAs (Decidable True)
  | s, e :: es =>
    match h : step s e with
    | none => decidable_of_iff (C s e) ⟨fun hc => ⟨hc, fun _ hs => by rw [h] at hs; cases hs⟩, And.left⟩
    | some s' =>
      have := instDecidableAlways C s' es
      decidable_of_iff (C s e ∧ Always step C s' es)
        ⟨fun hc => ⟨hc.1, fun t ht => by rw [h] at ht; cases ht; exact hc.2⟩, fun hc => ⟨hc.1, hc.2 s' h⟩⟩

variable {step : σ → ε → Option σ} {C : σ → ε → Prop} {I : σ → Prop} {s s' : σ} {es : List ε}

/-- What each careful step keeps, a careful run keeps. -/
lemma run_keeps (hstep : ∀ s e s', I s → C s e → step s e = some s' → I s') (hs : I s)
    (hC : Always step C s es) (hrun : run step s es = some s') : I s' := by
  induction es generalizing s with
  | nil =>
    cases hrun
    exact hs
  | cons e es ih =>
  rw [run, Option.bind_eq_some_iff] at hrun
  obtain ⟨t, ht, hrest⟩ := hrun
  exact ih (hstep s e t hs hC.1 ht) (hC.2 t ht) hrest

lemma Always.imp {C C' : σ → ε → Prop} (h : Always step C s es)
    (hC : ∀ s e, C s e → C' s e) : Always step C' s es := by
  induction es generalizing s with
  | nil => trivial
  | cons e es ih => exact ⟨hC s e h.1, fun s' hs' => ih (h.2 s' hs')⟩

lemma always_of_forall (hC : ∀ s e, C s e) (s : σ) (es : List ε) : Always step C s es := by
  induction es generalizing s with
  | nil => trivial
  | cons e es ih => exact ⟨hC s e, fun s' _ => ih s'⟩

/-- What each step keeps, a run keeps. -/
lemma run_invariant (hstep : ∀ s e s', I s → step s e = some s' → I s') (hs : I s)
    (hrun : run step s es = some s') : I s' :=
  run_keeps (C := fun _ _ => True) (fun s e s' hi _ h => hstep s e s' hi h) hs
    (always_of_forall (fun _ _ => trivial) s es) hrun

/-- Where `C` is what lets an event happen, a run goes through when all of its steps meet `C`. -/
lemma isSome_run_iff (hC : ∀ s e, (step s e).isSome ↔ C s e) : (run step s es).isSome ↔ Always step C s es := by
  induction es generalizing s with
  | nil => exact iff_of_true rfl trivial
  | cons e es ih =>
  rw [run, Always, ← hC]
  cases hs : step s e with
  | none => simp
  | some s' => simpa using ih

end Steps
