import Trex.Kd.Wire
import Trex.Lib.Steps

/-!
# Requests and their replies (`request`, `handleData`, `sendData`)

A call of `request` holds `requestMu`, fills the slot `pending`, queues its packet and waits.  The target
answers in order, and `handleData` hands a reply to the call in the slot when the API numbers agree.
Packets carry the operation that sent them, which the source does not know.
-/

namespace Trex.Kd.Request

open List

/-- A manipulate packet and the operation that sent it. -/
structure Packet where
  id : Nat
  api : UInt32
deriving DecidableEq, Repr

/-- The operation that holds the lock. -/
structure Call where
  id : Nat
  api : UInt32
  queued : Bool := false
  /-- what its channel holds: the reply to this packet -/
  reply : Option Packet := none
deriving DecidableEq, Repr

/-- The session, its queue and the target. -/
structure State where
  /-- the number of the next operation -/
  next : Nat := 0
  call : Option Call := none
  pending : Option (Nat × UInt32) := none
  /-- the operations whose context is done -/
  cancelled : List Nat := []
  outbound : List Packet := []
  /-- the packet that `writeLoop` has taken from the queue -/
  writing : Option Packet := none
  /-- what the target has received and the session has not seen the reply to -/
  target : List Packet := []
  /-- the reply that `handleData` is about to send to the channel of a call -/
  matched : Option (Nat × Packet) := none
  /-- the calls that have returned a packet, with the packet that it answers -/
  returned : List (Nat × Packet) := []
deriving DecidableEq, Repr

/-- One step of a caller, of the writer or of the target. -/
inductive Event where
  | request (api : UInt32)
  | queue
  /-- `continue` or `packet` put a manipulate packet into the queue -/
  | send (api : UInt32)
  /-- the context of an operation ends -/
  | cancel (id : Nat)
  | take
  | write
  /-- the next reply of the target arrives: `handleData` up to the end of its lock -/
  | answer
  /-- the target goes on without a reply, since it continues or is reset -/
  | skip
  | deliver
  | returns
  /-- the call returns an error: its context or the reader has ended -/
  | abandon
deriving DecidableEq, Repr

/-- One step, if it is possible. -/
def step (s : State) : Event → Option State
  | .request api =>
    match s.call, s.pending with
    | none, none => some { s with
        next := s.next + 1, call := some { id := s.next, api := api }, pending := some (s.next, api) }
    | none, some _ => some { s with next := s.next + 1 }
    | some _, _ => none
  | .queue =>
    match s.call with
    | some c =>
      if c.queued then none
      else some { s with call := some { c with queued := true }, outbound := s.outbound ++ [⟨c.id, c.api⟩] }
    | none => none
  | .send api => some { s with next := s.next + 1, outbound := s.outbound ++ [⟨s.next, api⟩] }
  | .cancel id => some { s with cancelled := id :: s.cancelled }
  | .take =>
    match s.writing, s.outbound with
    | none, p :: rest =>
      if p.id ∈ s.cancelled then some { s with outbound := rest }
      else some { s with outbound := rest, writing := some p }
    | _, _ => none
  | .write =>
    match s.writing with
    | some p => some { s with writing := none, target := s.target ++ [p] }
    | none => none
  | .answer =>
    match s.matched, s.target with
    | none, p :: rest =>
      match s.pending with
      | some (id, api) =>
        if api = p.api then some { s with target := rest, pending := none, matched := some (id, p) }
        else some { s with target := rest }
      | none => some { s with target := rest }
    | _, _ => none
  | .skip =>
    match s.target with
    | _ :: rest => some { s with target := rest }
    | [] => none
  | .deliver =>
    match s.matched with
    | some (id, p) => some { s with
        matched := none
        call := s.call.map fun c => if c.id = id then { c with reply := some p } else c }
    | none => none
  | .returns =>
    match s.call with
    | some c =>
      match c.reply with
      | some p => if c.queued then some { s with call := none, returned := (c.id, p) :: s.returned } else none
      | none => none
    | none => none
  | .abandon =>
    match s.call with
    | some c => some { s with call := none, pending := s.pending.filter fun p => p.1 ≠ c.id }
    | none => none

/-- The packets that may still be answered. -/
def State.unanswered (s : State) : List Packet :=
  s.target ++ s.writing.toList ++ s.outbound.filter fun p => p.id ∉ s.cancelled

/-- No call fills the slot while an earlier packet with its number is unanswered, and no packet
with the number in the slot is sent besides. -/
def Apart (s : State) : Event → Prop
  | .request api => ∀ p ∈ s.unanswered, p.api ≠ api
  | .send api => ∀ p ∈ s.pending, p.2 ≠ api
  | _ => True

instance : ∀ (s : State) (e : Event), Decidable (Apart s e)
  | s, .request api => inferInstanceAs (Decidable (∀ p ∈ s.unanswered, p.api ≠ api))
  | s, .send api => inferInstanceAs (Decidable (∀ p ∈ s.pending, p.2 ≠ api))
  | _, .queue | _, .cancel _ | _, .take | _, .write | _, .answer | _, .skip | _, .deliver
  | _, .returns | _, .abandon => inferInstanceAs (Decidable True)

/-- The invariant of a run. -/
structure Inv (s : State) : Prop where
  /-- the slot belongs to the call that holds the lock -/
  owner : ∀ p ∈ s.pending, ∀ c ∈ s.call, c.id = p.1
  /-- what may be answered with the number in the slot is the packet of that call -/
  apart : ∀ p ∈ s.pending, ∀ q ∈ s.unanswered, q.api = p.2 → q.id = p.1
  matched : ∀ m ∈ s.matched, m.2.id = m.1
  reply : ∀ c ∈ s.call, ∀ p ∈ c.reply, p.id = c.id
  returned : ∀ r ∈ s.returned, r.2.id = r.1

lemma inv_init : Inv {} := by
  refine ⟨?_, ?_, ?_, ?_, ?_⟩ <;> intro p hp <;> cases hp

variable {s s' : State} {q p : Packet} {api : UInt32}

/-- A step that keeps the call, the slot and the replies, and adds nothing to what may be
answered. -/
lemma inv_of_subset (hi : Inv s) (hcall : s'.call = s.call) (hpend : s'.pending = s.pending)
    (hmatched : s'.matched = s.matched) (hret : s'.returned = s.returned)
    (hsub : ∀ q ∈ s'.unanswered, q ∈ s.unanswered) : Inv s' := by
  refine ⟨?_, ?_, ?_, ?_, ?_⟩
  · rw [hpend, hcall]
    exact hi.owner
  · rw [hpend]
    intro p hp q hq
    exact hi.apart p hp q (hsub q hq)
  · rw [hmatched]
    exact hi.matched
  · rw [hcall]
    exact hi.reply
  · rw [hret]
    exact hi.returned

lemma mem_unanswered :
    q ∈ s.unanswered ↔ q ∈ s.target ∨ s.writing = some q ∨ (q ∈ s.outbound ∧ q.id ∉ s.cancelled) := by
  unfold State.unanswered
  simp only [mem_append, Option.mem_toList, mem_filter, decide_eq_true_eq, or_assoc]

lemma mem_unanswered_queue (hq : q ∈ s'.unanswered) (htarget : s'.target = s.target)
    (hwriting : s'.writing = s.writing) (houtb : s'.outbound = s.outbound ++ [p])
    (hcanc : s'.cancelled = s.cancelled) : q ∈ s.unanswered ∨ q = p := by
  rw [mem_unanswered, htarget, hwriting, houtb, hcanc] at hq
  simp only [mem_append, mem_singleton] at hq
  rw [mem_unanswered]
  rcases hq with hq | hq | ⟨hq | rfl, hlive⟩
  · exact Or.inl (Or.inl hq)
  · exact Or.inl (Or.inr (Or.inl hq))
  · exact Or.inl (Or.inr (Or.inr ⟨hq, hlive⟩))
  · exact Or.inr rfl

section

variable (hi : Inv s)

include hi

lemma inv_request (hapt : Apart s (.request api)) (h : step s (.request api) = some s') : Inv s' := by
  rw [step] at h
  split at h
  next hcall hpend =>
    cases h
    refine ⟨?_, ?_, hi.matched, ?_, hi.returned⟩
    · intro p hp c hc
      cases hp
      cases hc
      rfl
    · intro p hp q hq hqapi
      cases hp
      exact absurd hqapi (hapt q hq)
    · intro c hc p hp
      cases hc
      cases hp
  · cases h
    exact inv_of_subset hi rfl rfl rfl rfl (fun q hq => hq)
  · cases h

lemma inv_queue (h : step s .queue = some s') : Inv s' := by
  rw [step] at h
  split at h
  next c hcall =>
    split at h
    · cases h
    cases h
    refine ⟨?_, ?_, hi.matched, ?_, hi.returned⟩
    · intro p hp c' hc'
      cases hc'
      exact hi.owner p hp c hcall
    · intro p hp q hq hqapi
      rcases mem_unanswered_queue (s := s) hq rfl rfl rfl rfl with hq | rfl
      · exact hi.apart p hp q hq hqapi
      · -- the packet of the call itself, to which the slot belongs
        exact hi.owner p hp c hcall
    · intro c' hc' p hp
      cases hc'
      exact hi.reply c hcall p hp
  · cases h

lemma inv_send (hapt : Apart s (.send api)) (h : step s (.send api) = some s') : Inv s' := by
  cases h
  refine { hi with apart := ?_ }
  intro p hp q hq hqapi
  rcases mem_unanswered_queue (s := s) hq rfl rfl rfl rfl with hq | rfl
  · exact hi.apart p hp q hq hqapi
  · exact absurd hqapi.symm (hapt p hp)

lemma inv_cancel {id : Nat} (h : step s (.cancel id) = some s') : Inv s' := by
  cases h
  refine inv_of_subset hi rfl rfl rfl rfl ?_
  intro q hq
  rw [mem_unanswered] at hq ⊢
  rcases hq with hq | hq | ⟨hq, hlive⟩
  · exact Or.inl hq
  · exact Or.inr (Or.inl hq)
  · exact Or.inr (Or.inr ⟨hq, fun hc => hlive (mem_cons_of_mem _ hc)⟩)

lemma inv_take (h : step s .take = some s') : Inv s' := by
  rw [step] at h
  split at h
  next p rest hwriting houtb =>
    split at h
    next hdone =>
      cases h
      refine inv_of_subset hi rfl rfl rfl rfl ?_
      intro q hq
      rw [mem_unanswered] at hq ⊢
      rw [houtb]
      rcases hq with hq | hq | ⟨hq, hlive⟩
      · exact Or.inl hq
      · exact Or.inr (Or.inl hq)
      · exact Or.inr (Or.inr ⟨mem_cons_of_mem _ hq, hlive⟩)
    next hlive =>
    cases h
    refine inv_of_subset hi rfl rfl rfl rfl ?_
    intro q hq
    rw [mem_unanswered] at hq ⊢
    rw [houtb]
    rcases hq with hq | hq | ⟨hq, hq'⟩
    · exact Or.inl hq
    · cases hq
      exact Or.inr (Or.inr ⟨mem_cons_self, hlive⟩)
    · exact Or.inr (Or.inr ⟨mem_cons_of_mem _ hq, hq'⟩)
  · cases h

lemma inv_write (h : step s .write = some s') : Inv s' := by
  rw [step] at h
  split at h
  next p hwriting =>
    cases h
    refine inv_of_subset hi rfl rfl rfl rfl ?_
    intro q hq
    rw [mem_unanswered] at hq ⊢
    simp only [mem_append, mem_singleton] at hq
    rcases hq with (hq | rfl) | hq | hq
    · exact Or.inl hq
    · exact Or.inr (Or.inl hwriting)
    · cases hq
    · exact Or.inr (Or.inr hq)
  · cases h

end

/-- The target loses its first packet, by an answer or without one. -/
lemma unanswered_tail {rest : List Packet} (htarget : s.target = p :: rest)
    (htarget' : s'.target = rest) (hwriting : s'.writing = s.writing) (houtb : s'.outbound = s.outbound)
    (hcanc : s'.cancelled = s.cancelled) : ∀ q ∈ s'.unanswered, q ∈ s.unanswered := by
  intro q hq
  rw [mem_unanswered, htarget', hwriting, houtb, hcanc] at hq
  rw [mem_unanswered, htarget]
  rcases hq with hq | hq
  · exact Or.inl (mem_cons_of_mem _ hq)
  · exact Or.inr hq

section

variable (hi : Inv s)

include hi

lemma inv_answer (h : step s .answer = some s') : Inv s' := by
  rw [step] at h
  split at h
  next p rest hmatched htarget =>
    split at h
    next id api hpend =>
      split at h
      next hapi =>
        cases h
        refine ⟨nofun, nofun, ?_, hi.reply, hi.returned⟩
        intro m hm
        cases hm
        -- the reply has the number in the slot, so it answers the packet of the call in the slot
        exact hi.apart (id, api) hpend p
          (mem_unanswered.mpr (Or.inl (by rw [htarget]; exact mem_cons_self))) hapi.symm
      · cases h
        exact inv_of_subset hi rfl rfl rfl rfl (unanswered_tail htarget rfl rfl rfl rfl)
    · cases h
      exact inv_of_subset hi rfl rfl rfl rfl (unanswered_tail htarget rfl rfl rfl rfl)
  · cases h

lemma inv_skip (h : step s .skip = some s') : Inv s' := by
  rw [step] at h
  split at h
  next p rest htarget =>
    cases h
    exact inv_of_subset hi rfl rfl rfl rfl (unanswered_tail htarget rfl rfl rfl rfl)
  · cases h

lemma inv_deliver (h : step s .deliver = some s') : Inv s' := by
  rw [step] at h
  split at h
  next id p hmatched =>
    cases h
    have hown : p.id = id := hi.matched (id, p) hmatched
    refine ⟨?_, hi.apart, nofun, ?_, hi.returned⟩
    · intro q hq c hc
      obtain ⟨c', hc', rfl⟩ := Option.map_eq_some_iff.mp hc
      split_ifs
      · exact hi.owner q hq c' hc'
      · exact hi.owner q hq c' hc'
    intro c hc q hq
    obtain ⟨c', hc', rfl⟩ := Option.map_eq_some_iff.mp hc
    split_ifs at hq ⊢ with hid
    · cases hq
      exact hown.trans hid.symm
    · exact hi.reply c' hc' q hq
  · cases h

lemma inv_returns (h : step s .returns = some s') : Inv s' := by
  rw [step] at h
  split at h
  next c hcall =>
    split at h
    next p hreply =>
      split at h
      · cases h
        refine ⟨nofun, hi.apart, hi.matched, nofun, ?_⟩
        intro r hr
        rcases mem_cons.mp hr with rfl | hr
        · exact hi.reply c hcall p hreply
        · exact hi.returned r hr
      · cases h
    · cases h
  · cases h

lemma inv_abandon (h : step s .abandon = some s') : Inv s' := by
  rw [step] at h
  split at h
  next c hcall =>
    cases h
    refine ⟨nofun, ?_, hi.matched, nofun, hi.returned⟩
    intro p hp
    exact hi.apart p (Option.mem_filter_iff.mp hp).1
  · cases h

end

/-- Every step that keeps requests apart keeps the invariant. -/
lemma inv_step (s : State) (e : Event) (s' : State) (hi : Inv s) (ha : Apart s e)
    (h : step s e = some s') : Inv s' := by
  cases e with
  | request api => exact inv_request hi ha h
  | queue => exact inv_queue hi h
  | send api => exact inv_send hi ha h
  | cancel id => exact inv_cancel hi h
  | take => exact inv_take hi h
  | write => exact inv_write hi h
  | answer => exact inv_answer hi h
  | skip => exact inv_skip hi h
  | deliver => exact inv_deliver hi h
  | returns => exact inv_returns hi h
  | abandon => exact inv_abandon hi h

/-- In every run whose steps keep the numbers apart, a call that returns a packet returns the
reply to its own packet. -/
theorem reply_own (events : List Event) (s : State) (hapart : Steps.Always step Apart {} events)
    (hrun : Steps.run step {} events = some s) : ∀ r ∈ s.returned, r.2.id = r.1 :=
  (Steps.run_keeps inv_step inv_init hapart hrun).returned

/-- A request that times out before the target answers. -/
def timedOut : List Event :=
  [.request 0x3130, .queue, .take, .write, .cancel 0, .abandon]

/-- A request and its answer. -/
def answered (api : UInt32) : List Event :=
  [.request api, .queue, .take, .write, .answer, .deliver, .returns]

/-- A request that times out and is answered late, and one that gets its own reply. -/
theorem reply_own_answered :
    ∃ s, Steps.run step {} (timedOut ++ [.answer] ++ answered 0x3130) = some s ∧ s.returned = [(1, ⟨1, 0x3130⟩)] ∧
      ∀ r ∈ s.returned, r.2.id = r.1 :=
  ⟨_, rfl, rfl, reply_own (timedOut ++ [.answer] ++ answered 0x3130) _ (by decide) rfl⟩

/-- The late reply to the first request is returned by the second one. -/
theorem late_reply_returned :
    ∃ s, Steps.run step {} (timedOut ++ answered 0x3130) = some s ∧ s.returned = [(1, ⟨0, 0x3130⟩)] ∧
      ¬ ∀ r ∈ s.returned, r.2.id = r.1 :=
  ⟨_, rfl, rfl, by decide⟩

end Trex.Kd.Request
