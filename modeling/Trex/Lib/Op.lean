/-!
# Stateful computations that can fail

`Op σ ε α` runs on a state and ends with a value or an error; the state after an error is kept.
`Ends m s Q E` is the judgement about one run: a value satisfies `Q`, an error `E`.
-/

/-- A computation with state `σ` and errors `ε`. -/
def Op (σ ε α : Type) : Type := σ → Except ε α × σ

namespace Op

variable {σ τ ε α β : Type}

instance : Monad (Op σ ε) where
  pure a := fun s => (.ok a, s)
  bind m f := fun s =>
    match m s with
    | (.ok a, s') => f a s'
    | (.error e, s') => (.error e, s')

/-- Fails and keeps the state. -/
def throw (e : ε) : Op σ ε α := fun s => (.error e, s)

def get : Op σ ε σ := fun s => (.ok s, s)

/-- Changes the state. -/
def modify (f : σ → σ) : Op σ ε Unit := fun s => (.ok (), f s)

def gets (f : σ → α) : Op σ ε α := fun s => (.ok (f s), s)

/-- A computation without a state. -/
def ofExcept (x : Except ε α) : Op σ ε α := fun s => (x, s)

/-- Fails under a condition. -/
def failIf (c : Prop) [Decidable c] (e : ε) : Op σ ε Unit := if c then throw e else pure ()

def when (c : Prop) [Decidable c] (m : Op σ ε Unit) : Op σ ε Unit := if c then m else pure ()

/-- A computation on a part of a larger state. -/
def zoom (view : τ → σ) (update : σ → τ → τ) (m : Op σ ε α) : Op τ ε α := fun t =>
  match m (view t) with
  | (r, s) => (r, update s t)

/-- The error of a computation as a value; the state is kept. -/
def attempt (m : Op σ ε α) : Op σ ε (Except ε α) := fun s =>
  match m s with
  | (r, s') => (.ok r, s')

/-- Runs `f` on each element. -/
def each (f : α → Op σ ε Unit) : List α → Op σ ε Unit
  | [] => pure ()
  | a :: l => do
    f a
    each f l

/-! ## Judgements -/

/-- A run from `s` ends with a value and a state that satisfy `Q`, or with an error
and a state that satisfy `E`. -/
def Ends (m : Op σ ε α) (s : σ) (Q : α → σ → Prop) (E : ε → σ → Prop) : Prop :=
  match m s with
  | (.ok a, s') => Q a s'
  | (.error e, s') => E e s'

variable {m : Op σ ε α} {f : α → Op σ ε β} {s : σ} {Q Q' : α → σ → Prop} {R : β → σ → Prop}
  {E E' : ε → σ → Prop}

/-- The rule of consequence. -/
theorem Ends.imp (h : m.Ends s Q E) (hQ : ∀ a s', Q a s' → Q' a s')
    (hE : ∀ e s', E e s' → E' e s') : m.Ends s Q' E' := by
  unfold Ends at h ⊢
  split
  next a s' heq =>
    rw [heq] at h
    exact hQ a s' h
  next e s' heq =>
    rw [heq] at h
    exact hE e s' h

theorem ends_iff : m.Ends s Q E ↔ (∀ a s', m s = (.ok a, s') → Q a s') ∧ ∀ e s', m s = (.error e, s') → E e s' := by
  unfold Ends
  constructor
  · intro h
    constructor
    · intro a s' heq
      rw [heq] at h
      exact h
    · intro e s' heq
      rw [heq] at h
      exact h
  · rintro ⟨hQ, hE⟩
    split
    next a s' heq => exact hQ a s' heq
    next e s' heq => exact hE e s' heq

theorem Ends.ok (h : m.Ends s Q E) {a : α} {s' : σ} (heq : m s = (.ok a, s')) : Q a s' :=
  (ends_iff.mp h).1 a s' heq

theorem Ends.error (h : m.Ends s Q E) {e : ε} {s' : σ} (heq : m s = (.error e, s')) : E e s' :=
  (ends_iff.mp h).2 e s' heq

/-- What holds of every end holds of this one. -/
theorem ends_of_forall (hQ : ∀ a s', Q a s') (hE : ∀ e s', E e s') : m.Ends s Q E :=
  ends_iff.mpr ⟨fun a s' _ => hQ a s', fun e s' _ => hE e s'⟩

theorem ends_pure {a : α} : (pure a : Op σ ε α).Ends s Q E ↔ Q a s := Iff.rfl

theorem ends_gets {g : σ → α} : (gets g : Op σ ε α).Ends s Q E ↔ Q (g s) s := Iff.rfl

theorem ends_modify {g : σ → σ} {Q : Unit → σ → Prop} : (modify g : Op σ ε Unit).Ends s Q E ↔ Q () (g s) := Iff.rfl

theorem ends_failIf {c : Prop} [Decidable c] {e : ε} {Q : Unit → σ → Prop} :
    (failIf c e : Op σ ε Unit).Ends s Q E ↔ if c then E e s else Q () s := by
  unfold failIf
  split <;> exact Iff.rfl

theorem bind_apply (m : Op σ ε α) (f : α → Op σ ε β) (s : σ) : (m >>= f) s = match m s with
    | (.ok a, s') => f a s'
    | (.error e, s') => (.error e, s') := rfl

/-- The rule of composition. -/
theorem ends_bind : (m >>= f).Ends s R E ↔ m.Ends s (fun a s' => (f a).Ends s' R E) E := by
  unfold Ends
  rw [bind_apply]
  cases hm : m s with
  | mk r s' =>
  cases r with
  | ok a => exact Iff.rfl
  | error e => exact Iff.rfl

/-- The rule for a loop with an invariant. -/
theorem ends_each {I : σ → Prop} {f : α → Op σ ε Unit} (hf : ∀ a s, I s → (f a).Ends s (fun _ => I) E) (l : List α)
    (hs : I s) : (each f l).Ends s (fun _ => I) E := by
  induction l generalizing s with
  | nil => exact hs
  | cons a l ih => exact ends_bind.mpr ((hf a s hs).imp (fun _ s' hs' => ih hs') fun _ _ h => h)

theorem ends_bind_of_forall (hf : ∀ a s', (f a).Ends s' R E) (hE : ∀ e s', E e s') : (m >>= f).Ends s R E :=
  ends_bind.mpr (ends_of_forall hf hE)

/-- The rule for a part of the state. -/
theorem ends_zoom {view : τ → σ} {update : σ → τ → τ} {t : τ} {Q : α → τ → Prop}
    {E : ε → τ → Prop} : (zoom view update m).Ends t Q E ↔
      m.Ends (view t) (fun a s => Q a (update s t)) fun e s => E e (update s t) := by
  unfold Ends zoom
  dsimp only
  cases hm : m (view t) with
  | mk r s =>
  cases r with
  | ok a => exact Iff.rfl
  | error e => exact Iff.rfl

/-! ## Running -/

@[simp] theorem gets_apply (g : σ → α) (s : σ) : (gets g : Op σ ε α) s = (.ok (g s), s) := rfl

@[simp] theorem get_apply (s : σ) : (get : Op σ ε σ) s = (.ok s, s) := rfl

@[simp] theorem modify_apply (g : σ → σ) (s : σ) : (modify g : Op σ ε Unit) s = (.ok (), g s) := rfl

@[simp] theorem ofExcept_apply (x : Except ε α) (s : σ) : (ofExcept x : Op σ ε α) s = (x, s) := rfl

@[simp] theorem failIf_apply (c : Prop) [Decidable c] (e : ε) (s : σ) :
    (failIf c e : Op σ ε Unit) s = if c then (.error e, s) else (.ok (), s) := by
  unfold failIf
  split <;> rfl

theorem run_bind {a : α} {s' : σ} (h : m s = (.ok a, s')) : (m >>= f) s = f a s' := by
  rw [bind_apply, h]

theorem run_bind_error {e : ε} {s' : σ} (h : m s = (.error e, s')) : (m >>= f) s = (.error e, s') := by
  rw [bind_apply, h]

/-! ## Peeling a run apart -/

theorem bind_ok {b : β} {s'' : σ} (h : (m >>= f) s = (.ok b, s'')) :
    ∃ a s', m s = (.ok a, s') ∧ f a s' = (.ok b, s'') := by
  rw [bind_apply] at h
  cases hm : m s with
  | mk r s' =>
  rw [hm] at h
  cases r with
  | ok a => exact ⟨a, s', rfl, h⟩
  | error e => simp at h

theorem failIf_ok {c : Prop} [Decidable c] {e : ε} {u : Unit} {s' : σ}
    (h : (failIf c e : Op σ ε Unit) s = (.ok u, s')) : ¬ c ∧ s' = s := by
  unfold failIf at h
  split at h
  · simp [throw] at h
  next hc => exact ⟨hc, (Prod.mk.inj h).2.symm⟩

theorem gets_ok {g : σ → α} {a : α} {s' : σ} (h : (gets g : Op σ ε α) s = (.ok a, s')) : g s = a ∧ s' = s :=
  ⟨Except.ok.inj (Prod.mk.inj h).1, (Prod.mk.inj h).2.symm⟩

theorem ofExcept_ok {x : Except ε α} {a : α} {s' : σ} (h : ofExcept x s = (.ok a, s')) : x = .ok a ∧ s' = s :=
  ⟨(Prod.mk.inj h).1, (Prod.mk.inj h).2.symm⟩

theorem zoom_ok {view : τ → σ} {update : σ → τ → τ} {t t' : τ} {a : α}
    (h : zoom view update m t = (.ok a, t')) : ∃ s', m (view t) = (.ok a, s') ∧ t' = update s' t := by
  unfold zoom at h
  cases hm : m (view t) with
  | mk r s' =>
  rw [hm] at h
  obtain ⟨rfl, rfl⟩ := Prod.mk.inj h
  exact ⟨s', rfl, rfl⟩

end Op
