import Trex.Gdb.Actor

/-!
# Replies and stops go where they belong

At most one reply is outstanding, for the command the actor works on (`State.ActorInv`): it is read
before another command is taken, and every error ends the actor.  So a call returns replies to its own
packet (`replies_paired`).
-/

namespace Trex.Gdb

open List State

/-! ## The invariant -/

/-- The calls whose replies are on their way. -/
def State.outstanding (s : State) : List Nat :=
  (s.output.filterMap fun item => match item with
    | .ack => none
    | .packet r => some r.origin) ++ s.received

/-- What a call may return: replies to its own packet, exactly one for an exchange, none for a
command that resumes the target. -/
def Own (id : Nat) (kind : Kind) (value : List Reply) : Prop :=
  (∀ r ∈ value, r.origin = id) ∧
    match kind with
    | .exchange => value.length = 1
    | .monitor => 0 < value.length
    | .resume => value = []

/-- A call has its own replies only. -/
structure CallInv (id : Nat) (c : Call) : Prop where
  valid : c.command.Valid
  result : ∀ value, c.result = some (some value) → Own id c.command.kind value
  returned : ∀ value, c.phase = .returned value → Own id c.command.kind value

/-- At most one reply is outstanding, that of the command at work. -/
def State.ActorInv (s : State) : Prop :=
  match s.actor with
  | .idle => s.outstanding = []
  | .sending id => id < s.calls.length ∧ s.outstanding = []
  | .acking id => id < s.calls.length ∧ s.outstanding = [id]
  | .reading id output =>
    id < s.calls.length ∧ s.kind id ≠ .resume ∧ (∀ r ∈ output, r.origin = id) ∧
      (s.outstanding = [id] ∨ s.outstanding = [])
  | .stopping id => s.kind id = .resume ∧ s.outstanding = [id]
  | .ended => True

/-- The invariant of a run. -/
structure Inv (s : State) : Prop where
  calls : ∀ id c, s.calls[id]? = some c → CallInv id c
  actor : s.ActorInv
  stops : ∀ r ∈ s.stops ++ s.waited, s.kind r.origin = .resume

lemma inv_start (noAck : Bool) (packetSize stopQueue : Nat) : Inv (start noAck packetSize stopQueue) := by
  refine ⟨?_, rfl, ?_⟩
  · intro id c hc
    simp [start] at hc
  · intro r hr
    simp [start] at hr

/-! ## What an update of one call keeps -/

section

variable (s : State) (id : Nat)

lemma kind_modify (f : Call → Call) (hf : ∀ c, (f c).command = c.command) (j : Nat) :
    ({ s with calls := s.calls.modify id f } : State).kind j = s.kind j := by
  unfold kind
  simp only [getElem?_modify]
  cases s.calls[j]? with
  | none => simp
  | some c =>
  simp only [Option.map_eq_map, Option.map_some, Option.getD_some]
  split_ifs
  · simp [hf]
  · simp

lemma kind_setResult (result : Option (List Reply)) (j : Nat) : (s.setResult id result).kind j = s.kind j :=
  kind_modify s id (fun c => { c with result := some result }) (fun _ => rfl) j

lemma kind_setPhase (phase : Phase) (j : Nat) : (s.setPhase id phase).kind j = s.kind j :=
  kind_modify s id (fun c => { c with phase := phase }) (fun _ => rfl) j

end

variable {s s' : State} {id : Nat} {c : Call} {rest : List Item} {r : Reply}

/-- A change of one call leaves the others. -/
lemma callInv_modify (hi : ∀ id c, s.calls[id]? = some c → CallInv id c) (id : Nat)
    (f : Call → Call) (hf : ∀ c, s.calls[id]? = some c → CallInv id c → CallInv id (f c)) :
    ∀ j c, (s.calls.modify id f)[j]? = some c → CallInv j c := by
  intro j c hc
  rw [getElem?_modify] at hc
  obtain ⟨c', hc', rfl⟩ := Option.map_eq_some_iff.mp hc
  split_ifs with h
  · subst h
    exact hf c' hc' (hi _ c' hc')
  · exact hi j c' hc'

lemma kind_of_getElem? (h : s.calls[id]? = some c) : s.kind id = c.command.kind := by
  unfold kind
  rw [h]
  rfl

/-- A result of its own replies may be stored for a call. -/
lemma callInv_setResult (hi : ∀ id c, s.calls[id]? = some c → CallInv id c) (id : Nat)
    (result : Option (List Reply)) (hown : ∀ val, result = some val → Own id (s.kind id) val) :
    ∀ j c, (s.setResult id result).calls[j]? = some c → CallInv j c := by
  apply callInv_modify hi
  intro c hc hinv
  refine ⟨hinv.valid, ?_, hinv.returned⟩
  intro val hval
  have := hown val (Option.some.inj hval)
  rw [kind_of_getElem? hc] at this
  exact this

lemma callInv_setPhase (hi : ∀ id c, s.calls[id]? = some c → CallInv id c) (id : Nat) (phase : Phase)
    (hown : ∀ c val, s.calls[id]? = some c → phase = .returned val → Own id c.command.kind val) :
    ∀ j c, (s.setPhase id phase).calls[j]? = some c → CallInv j c := by
  apply callInv_modify hi
  intro c hc hinv
  exact ⟨hinv.valid, hinv.result, fun val hval => hown c val hc hval⟩

lemma length_setPhase (s : State) (id : Nat) (phase : Phase) :
    (s.setPhase id phase).calls.length = s.calls.length := length_modify _ _ _

lemma lt_of_kind (h : s.kind id = .resume) : id < s.calls.length := by
  by_contra hge
  unfold kind at h
  rw [getElem?_eq_none (by omega)] at h
  cases h

/-- The actor's clause depends only on where it stands, on what is outstanding and on the kinds
of the calls. -/
lemma actorInv_congr (h : s.ActorInv) (hact : s'.actor = s.actor) (hout : s'.outstanding = s.outstanding)
    (hkind : ∀ id, id < s.calls.length → s'.kind id = s.kind id)
    (hlen : s.calls.length ≤ s'.calls.length) : s'.ActorInv := by
  unfold State.ActorInv at h ⊢
  rw [hact, hout]
  cases hs : s.actor with
  | idle =>
    rw [hs] at h
    exact h
  | sending id =>
    rw [hs] at h
    exact ⟨by omega, h.2⟩
  | acking id =>
    rw [hs] at h
    exact ⟨by omega, h.2⟩
  | reading id output =>
    rw [hs] at h
    obtain ⟨hid, hk, hrest⟩ := h
    refine ⟨by omega, ?_, hrest⟩
    rw [hkind id hid]
    exact hk
  | stopping id =>
    rw [hs] at h
    refine ⟨?_, h.2⟩
    rw [hkind id (lt_of_kind h.1), h.1]
  | ended => trivial

/-! ## The events -/

lemma kind_append (h : id < s.calls.length) : ({ s with calls := s.calls ++ [c] } : State).kind id = s.kind id := by
  unfold kind
  rw [getElem?_append_left h]

lemma inv_call {c : Command} (hi : Inv s) (h : step s (.call c) = some s') : Inv s' := by
  rw [step] at h
  split at h
  next hval =>
    cases h
    refine ⟨?_, ?_, ?_⟩
    · intro id call hcall
      have hcall : (s.calls ++ [{ command := c }])[id]? = some call := hcall
      rcases lt_or_ge id s.calls.length with hlt | hge
      · rw [getElem?_append_left hlt] at hcall
        exact hi.calls id call hcall
      rw [getElem?_append_right hge] at hcall
      have hzero : id - s.calls.length = 0 := by
        by_contra hne
        rw [getElem?_eq_none (by simp; omega)] at hcall
        cases hcall
      rw [hzero] at hcall
      cases hcall
      exact ⟨hval, nofun, nofun⟩
    · exact actorInv_congr hi.actor rfl rfl (fun id hid => kind_append hid) (by simp)
    · intro r hr
      have := hi.stops r hr
      rw [kind_append (lt_of_kind this), this]
  · cases h

lemma inv_accept (hi : Inv s) (h : step s (.accept id) = some s') : Inv s' := by
  rw [step] at h
  split at h
  next c hact hcall =>
    split at h
    · cases h
      have houtstanding : s.outstanding = [] := by
        have := hi.actor
        unfold State.ActorInv at this
        rw [hact] at this
        exact this
      refine ⟨callInv_setPhase hi.calls id _ nofun, ?_, ?_⟩
      · refine ⟨?_, houtstanding⟩
        rw [length_setPhase]
        exact (List.getElem?_eq_some_iff.mp hcall).1
      · intro r hr
        exact (kind_setPhase s id _ r.origin).trans (hi.stops r hr)
    · cases h
  · cases h

/-- The error of a command ends the actor, so nothing is left to hold of it. -/
lemma inv_commandError (id : Nat) (hcalls : ∀ id c, s.calls[id]? = some c → CallInv id c)
    (hstops : ∀ r ∈ s.stops ++ s.waited, s.kind r.origin = .resume) : Inv (s.commandError id) := by
  refine ⟨callInv_setResult hcalls id none nofun, trivial, ?_⟩
  intro r hr
  exact (kind_setResult s id none r.origin).trans (hstops r hr)

/-- Behind `send` the reply, or the stop, is outstanding. -/
lemma inv_afterSend (hid : id < s.calls.length) (hout : s.outstanding = [id])
    (hcalls : ∀ id c, s.calls[id]? = some c → CallInv id c)
    (hstops : ∀ r ∈ s.stops ++ s.waited, s.kind r.origin = .resume) : Inv (s.afterSend id) := by
  unfold afterSend
  split_ifs with hkind
  · refine ⟨callInv_setResult hcalls id (some []) ?_, ?_, ?_⟩
    · intro val hval
      cases hval
      rw [hkind]
      exact ⟨nofun, rfl⟩
    · exact ⟨(kind_setResult s id _ id).trans hkind, hout⟩
    · intro r hr
      exact (kind_setResult s id _ r.origin).trans (hstops r hr)
  · exact ⟨hcalls, ⟨hid, hkind, nofun, Or.inl hout⟩, hstops⟩

lemma outstanding_received (s : State) (id : Nat) :
    ({ s with received := s.received ++ [id] } : State).outstanding = s.outstanding ++ [id] := by
  unfold outstanding
  rw [append_assoc]

lemma inv_write (hi : Inv s) (h : step s .write = some s') : Inv s' := by
  rw [step] at h
  split at h
  next id hact =>
    have hhere := hi.actor
    unfold State.ActorInv at hhere
    rw [hact] at hhere
    obtain ⟨hid, hout⟩ := hhere
    have hout' : ({ s with received := s.received ++ [id] } : State).outstanding = [id] := by
      rw [outstanding_received, hout]
      rfl
    split at h
    next c hcall =>
      split at h
      · cases h
        exact inv_commandError id hi.calls hi.stops
      · split at h
        · cases h
          exact inv_afterSend hid hout' hi.calls hi.stops
        · cases h
          exact ⟨hi.calls, ⟨hid, hout'⟩, hi.stops⟩
    · cases h
  · cases h

lemma inv_targetAck (hi : Inv s) (h : step s .targetAck = some s') : Inv s' := by
  rw [step] at h
  split at h
  · cases h
    refine ⟨hi.calls, actorInv_congr hi.actor rfl ?_ (fun _ _ => rfl) le_rfl, hi.stops⟩
    simp [outstanding]
  · cases h

/-- An answer moves from what the target owes to what it has sent. -/
lemma inv_targetReply {cont : Bytes} (hi : Inv s) (h : step s (.targetReply cont) = some s') : Inv s' := by
  rw [step] at h
  split at h
  next id rest hreceived =>
    split at h
    · cases h
      refine ⟨hi.calls, actorInv_congr hi.actor rfl ?_ (fun _ _ => rfl) le_rfl, hi.stops⟩
      simp [outstanding, hreceived]
    · cases h
  · cases h

lemma outstanding_ack (h : s.output = .ack :: rest) :
    ({ s with output := rest } : State).outstanding = s.outstanding := by
  unfold outstanding
  rw [h]
  rfl

lemma outstanding_packet (h : s.output = .packet r :: rest) :
    s.outstanding = r.origin :: ({ s with output := rest } : State).outstanding := by
  unfold outstanding
  rw [h]
  rfl

lemma inv_readAck (hi : Inv s) (h : step s .readAck = some s') : Inv s' := by
  rw [step] at h
  split at h
  next id rest hact hout =>
    cases h
    have hhere := hi.actor
    unfold State.ActorInv at hhere
    rw [hact] at hhere
    exact inv_afterSend hhere.1 ((outstanding_ack hout).trans hhere.2) hi.calls hi.stops
  · cases h
    exact inv_commandError _ hi.calls hi.stops
  · cases h

/-- A reply to the command at work is its own. -/
lemma inv_gotReply {out : List Reply} (hid : id < s.calls.length) (hkind : s.kind id ≠ .resume)
    (houtput : ∀ r ∈ out, r.origin = id) (hr : r.origin = id) (hout : s.outstanding = [])
    (hcalls : ∀ id c, s.calls[id]? = some c → CallInv id c)
    (hstops : ∀ r ∈ s.stops ++ s.waited, s.kind r.origin = .resume) : Inv (s.gotReply id out r) := by
  have hall : ∀ r' ∈ out ++ [r], r'.origin = id := by
    intro r' hr'
    rcases mem_append.mp hr' with hr' | hr'
    · exact houtput r' hr'
    · rw [mem_singleton.mp hr', hr]
  unfold gotReply
  split_ifs with hmonitor hconsole hok
  · exact ⟨hcalls, ⟨hid, hkind, hall, Or.inr hout⟩, hstops⟩
  · refine ⟨callInv_setResult hcalls id _ ?_, hout, ?_⟩
    · intro val hval
      cases hval
      rw [hmonitor]
      exact ⟨hall, by simp⟩
    · intro r' hr'
      exact (kind_setResult s id _ r'.origin).trans (hstops r' hr')
  · exact inv_commandError id hcalls hstops
  refine ⟨callInv_setResult hcalls id _ ?_, hout, ?_⟩
  · intro val hval
    cases hval
    have hexch : s.kind id = .exchange := by
      cases hk : s.kind id with
      | exchange => rfl
      | monitor => exact absurd hk hmonitor
      | resume => exact absurd hk hkind
    rw [hexch]
    exact ⟨fun r' hr' => by rw [mem_singleton.mp hr', hr], rfl⟩
  · intro r' hr'
    exact (kind_setResult s id _ r'.origin).trans (hstops r' hr')

section

variable (hi : Inv s)

include hi

lemma inv_read (h : step s .read = some s') : Inv s' := by
  have hhere := hi.actor
  rw [step] at h
  split at h
  next houtput =>
    cases h
    exact ⟨hi.calls, actorInv_congr hi.actor rfl (outstanding_ack houtput) (fun _ _ => rfl) le_rfl, hi.stops⟩
  next houtput =>
    cases h
    exact ⟨hi.calls, actorInv_congr hi.actor rfl (outstanding_ack houtput) (fun _ _ => rfl) le_rfl, hi.stops⟩
  next id out r rest hact houtput =>
    cases h
    unfold State.ActorInv at hhere
    rw [hact, outstanding_packet houtput] at hhere
    obtain ⟨hid, hkind, horig, hout⟩ := hhere
    -- a reply is there, so it is the one that is outstanding
    rcases hout with hout | hout
    · exact inv_gotReply hid hkind horig (cons.inj hout).1 (cons.inj hout).2 hi.calls hi.stops
    · cases hout
  next id r rest hact houtput =>
    cases h
    unfold State.ActorInv at hhere
    rw [hact, outstanding_packet houtput] at hhere
    obtain ⟨hkind, hout⟩ := hhere
    obtain ⟨rfl, hrest⟩ := cons.inj hout
    unfold gotStop
    split_ifs
    · refine ⟨hi.calls, hrest, ?_⟩
      intro r' hr'
      simp only [mem_append, mem_singleton] at hr'
      rcases hr' with (hr' | rfl) | hr'
      · exact hi.stops r' (mem_append.mpr (Or.inl hr'))
      · exact hkind
      · exact hi.stops r' (mem_append.mpr (Or.inr hr'))
    · exact ⟨hi.calls, trivial, hi.stops⟩
  · cases h

lemma inv_fail (h : step s .fail = some s') : Inv s' := by
  rw [step] at h
  split at h
  · cases h
    exact inv_commandError _ hi.calls hi.stops
  · cases h
    exact inv_commandError _ hi.calls hi.stops
  · cases h
    exact inv_commandError _ hi.calls hi.stops
  · cases h
    exact ⟨hi.calls, trivial, hi.stops⟩

lemma inv_setPhase (id : Nat) (phase : Phase)
    (hown : ∀ c val, s.calls[id]? = some c → phase = .returned val → Own id c.command.kind val) :
    Inv (s.setPhase id phase) := by
  refine ⟨callInv_setPhase hi.calls id phase hown, ?_, ?_⟩
  · exact actorInv_congr hi.actor rfl rfl (fun j _ => kind_setPhase s id phase j)
      (Nat.le_of_eq (length_setPhase s id phase).symm)
  · intro r hr
    exact (kind_setPhase s id phase r.origin).trans (hi.stops r hr)

lemma inv_returns (h : step s (.returns id) = some s') : Inv s' := by
  rw [step] at h
  split at h
  next c hcall =>
    split at h
    next val _ hres =>
      cases h
      apply inv_setPhase hi
      intro c' val' hc' hval
      rw [hcall] at hc'
      cases hc'
      cases hval
      exact (hi.calls id c hcall).result val hres
    · cases h
      exact inv_setPhase hi id _ nofun
    · cases h
  · cases h

lemma inv_abandon (h : step s (.abandon id) = some s') : Inv s' := by
  rw [step] at h
  split at h
  · split at h
    · cases h
      exact inv_setPhase hi id _ nofun
    · cases h
  · cases h

lemma inv_wait (h : step s .wait = some s') : Inv s' := by
  rw [step] at h
  split at h
  next r rest hstops =>
    cases h
    refine ⟨hi.calls, hi.actor, ?_⟩
    intro r' hr'
    apply hi.stops r'
    rw [hstops]
    simp only [mem_append, mem_cons, not_mem_nil, or_false] at hr' ⊢
    tauto
  · cases h

end

/-- Every step keeps the invariant. -/
lemma inv_step (s : State) (e : Event) (s' : State) (hi : Inv s) (h : step s e = some s') : Inv s' := by
  cases e with
  | call c => exact inv_call hi h
  | accept id => exact inv_accept hi h
  | write => exact inv_write hi h
  | targetAck => exact inv_targetAck hi h
  | targetReply content => exact inv_targetReply hi h
  | readAck => exact inv_readAck hi h
  | read => exact inv_read hi h
  | fail => exact inv_fail hi h
  | returns id => exact inv_returns hi h
  | abandon id => exact inv_abandon hi h
  | wait => exact inv_wait hi h

/-! ## Runs -/

section

variable (resumes : Bytes → Prop)

/-- A reply to a packet that resumes the target.  Which packets do so is a matter of the target. -/
def State.IsStop (s : State) (r : Reply) : Prop :=
  ∃ c, s.calls[r.origin]? = some c ∧ resumes c.command.payload

variable {resumes}

/-- A payload that resumes and is not sent to resume is sent by an exchange. -/
lemma exchange_of_resumes (hmonitor : ∀ payload, resumes payload → ¬ IsMonitor payload) {c : Command}
    (hval : c.Valid) (hresumes : resumes c.payload) (hkind : c.kind ≠ .resume) : c.kind = .exchange := by
  cases hk : c.kind with
  | exchange => rfl
  | resume => exact absurd hk hkind
  | monitor =>
    unfold Command.Valid at hval
    rw [hk] at hval
    exact absurd hval (hmonitor _ hresumes)

end

/-- Every call of `execute` that returns a value returns the reply to its own packet, which is a stop only
where an exchange was given a payload that resumes the target.  This is so for every set of packets that
resume it, as long as the command of `monitor` is not one of them. -/
theorem replies_paired (resumes : Bytes → Prop) (hmonitor : ∀ payload, resumes payload → ¬ IsMonitor payload)
    (noAck : Bool) (packetSize stopQueue : Nat) (events : List Event) (s : State)
    (hrun : Steps.run step (State.start noAck packetSize stopQueue) events = some s) :
    (∀ id c value, s.calls[id]? = some c → c.phase = .returned value →
      (∀ r ∈ value, r.origin = id) ∧ (c.command.kind = .exchange → value.length = 1) ∧
        (c.command.kind = .resume → value = []) ∧
        ∀ r ∈ value, s.IsStop resumes r → c.command.kind = .exchange ∧ resumes c.command.payload) ∧
      ∀ r ∈ s.stops ++ s.waited, ∃ c, s.calls[r.origin]? = some c ∧ c.command.kind = .resume := by
  have hinv := Steps.run_invariant inv_step (inv_start noAck packetSize stopQueue) hrun
  constructor
  · intro id c value hcall hret
    obtain ⟨horig, hkind⟩ := (hinv.calls id c hcall).returned value hret
    refine ⟨horig, ?_, ?_, ?_⟩
    · intro hexch
      rw [hexch] at hkind
      exact hkind
    · intro hresume
      rw [hresume] at hkind
      exact hkind
    intro r hr hstop
    obtain ⟨c', hc', hresumes⟩ := hstop
    rw [horig r hr, hcall] at hc'
    cases hc'
    refine ⟨exchange_of_resumes hmonitor (hinv.calls id c hcall).valid hresumes ?_, hresumes⟩
    intro hresume
    rw [hresume] at hkind
    rw [show value = [] from hkind] at hr
    cases hr
  · intro r hr
    have hresume := hinv.stops r hr
    have hlt := lt_of_kind hresume
    refine ⟨s.calls[r.origin], List.getElem?_eq_getElem hlt, ?_⟩
    rw [← hresume, kind_of_getElem? (List.getElem?_eq_getElem hlt)]

/-- `continue`; a command that is given up while the actor works on it; another command. -/
def abandonedCommand : List Event :=
  [.call ⟨.resume, [0x63]⟩, .accept 0, .write, .targetAck, .readAck, .returns 0, .call ⟨.exchange, [0x67]⟩,
    .targetReply [0x54], .read, .accept 1, .write, .abandon 1, .call ⟨.exchange, [0x3f]⟩, .targetAck, .readAck,
    .targetReply [1], .read, .accept 2, .write, .targetAck, .readAck, .targetReply [2], .read, .returns 2, .wait]

/-- The packets `c`, `s`, `C`, `S` and `vCont;` of the protocol. -/
def resumePackets (payload : Bytes) : Prop :=
  payload.take 1 ∈ [[0x63], [0x73], [0x43], [0x53]] ∨ payload.take 6 = [0x76, 0x43, 0x6f, 0x6e, 0x74, 0x3b]

instance (payload : Bytes) : Decidable (resumePackets payload) := inferInstanceAs (Decidable (_ ∨ _))

lemma not_isMonitor_of_resumePackets (payload : Bytes) (h : resumePackets payload) : ¬ IsMonitor payload := by
  intro hmonitor
  unfold IsMonitor at hmonitor
  rcases h with h | h
  · have hfirst : payload.take 1 = [0x71] := by
      rw [show payload.take 1 = (payload.take 6).take 1 by rw [take_take]; rfl, hmonitor]
      rfl
    rw [hfirst] at h
    exact absurd h (by decide)
  · rw [hmonitor] at h
    exact absurd h (by decide)

/-- A resume, a command whose caller has left, and a command that gets its own reply. -/
theorem replies_paired_abandonedCommand :
    ∃ s, Steps.run step (State.start false 4096 16) abandonedCommand = some s ∧
      s.calls.map Call.phase = [.returned [], .failed, .returned [⟨2, [2]⟩]] ∧ s.waited = [⟨0, [0x54]⟩] ∧
      ∃ c, s.calls[0]? = some c ∧ c.command.kind = .resume := by
  refine ⟨_, rfl, rfl, rfl, ?_⟩
  exact (replies_paired resumePackets not_isMonitor_of_resumePackets false 4096 16 abandonedCommand _ rfl).2
    ⟨0, [0x54]⟩ (by decide)

/-- `packet` with the payload `c` returns the stop reply. -/
theorem raw_continue_returns_stop :
    ∃ s, Steps.run step (State.start true 4096 16)
        [.call ⟨.exchange, [0x63]⟩, .accept 0, .write, .targetReply [0x54, 0x30, 0x35], .read, .returns 0] = some s ∧
      (s.calls.map Call.phase = [.returned [⟨0, [0x54, 0x30, 0x35]⟩]] ∧
        s.IsStop resumePackets ⟨0, [0x54, 0x30, 0x35]⟩) ∧
      s.stops = [] :=
  ⟨_, rfl, ⟨rfl, _, rfl, by decide⟩, rfl⟩

end Trex.Gdb
