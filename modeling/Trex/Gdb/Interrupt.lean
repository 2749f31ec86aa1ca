import Trex.Lib.Steps
import Trex.Lib.Bytes

/-!
# Interrupts and packets on one channel (`debug/gdb.go`, `debug/gdb_wire.go`)

The actor writes packets and acknowledgements; `interrupt` and the clean-up of `with_state` write `0x03`
from other goroutines, behind a test of `running`, under a lock that the actor does not hold.  The
channel may take a packet in parts.
-/

namespace Trex.Gdb.Interrupt

open List

/-! ## Packets -/

/-- The escapes of the protocol. -/
def escapeByte (value : UInt8) : Bytes :=
  if value = 0x23 ∨ value = 0x24 ∨ value = 0x7d ∨ value = 0x2a then [0x7d, value ^^^ 0x20] else [value]

def hexDigit (n : UInt8) : UInt8 := if n < 10 then 0x30 + n else 0x57 + n

/-- The checksum. -/
def byteSum (l : Bytes) : UInt8 := l.foldl (· + ·) 0

/-- A packet on the wire. -/
def packetBytes (payload : Bytes) : Bytes :=
  let escaped := payload.flatMap escapeByte
  let checksum := byteSum escaped
  0x24 :: escaped ++ [0x23, hexDigit (checksum >>> 4), hexDigit (checksum &&& 15)]

/-- A reader of what the session writes. -/
inductive Scan where
  | between
  | inside (sum : UInt8)
  | high (sum : UInt8)
  | low (sum digit : UInt8)
  | bad
deriving DecidableEq, Repr

/-- One byte more. -/
def Scan.byte : Scan → UInt8 → Scan
  | .between, b =>
    if b = 0x24 then .inside 0 else if b = 0x2b ∨ b = 0x2d ∨ b = 0x03 then .between else .bad
  | .inside sum, b => if b = 0x23 then .high sum else .inside (sum + b)
  | .high sum, b => .low sum b
  | .low sum digit, b => if digit = hexDigit (sum >>> 4) ∧ b = hexDigit (sum &&& 15) then .between else .bad
  | .bad, _ => .bad

def scan (l : Bytes) : Scan := l.foldl Scan.byte .between

/-! ## The two sides -/

/-- Where the actor is on the wire. -/
inductive Actor where
  | idle
  /-- `writeAll`: what the channel has taken of the packet, and the rest -/
  | writing (taken rest : Bytes) (resume : Bool)
  /-- behind `writeAll`: the acknowledgement, the reply or the stop is awaited -/
  | reading (resume : Bool)
  | stopped (ok : Bool)
  | ended
deriving DecidableEq, Repr

/-- The bytes written so far, the actor and those who interrupt. -/
structure State where
  noAck : Bool
  actor : Actor := .idle
  running : Bool := false
  /-- the callers that have seen the flag and have not written yet -/
  pending : Nat := 0
  out : Bytes := []
  /-- an interrupt has been written inside a packet -/
  split : Bool := false
deriving DecidableEq, Repr

/-- One step of the actor or of a caller of `interrupt`. -/
inductive Event where
  | send (payload : Bytes) (resume : Bool)
  /-- the channel takes the next `n` bytes of the packet -/
  | write (n : Nat)
  | setRunning
  /-- a packet has been read; `ok` says whether its checksum is right, and `more` whether a command that is no
  resume reads another one, as `monitor` does for each part of its output -/
  | read (ok more : Bool)
  | clearRunning
  | fail
  /-- `interrupt` or the clean-up of `with_state` finds the flag set -/
  | test
  /-- it writes its byte -/
  | interrupt
deriving DecidableEq, Repr

def ackBytes (noAck ok : Bool) : Bytes := if noAck then [] else if ok then [0x2b] else [0x2d]

/-- One step, if it is possible. -/
def step (s : State) : Event → Option State
  | .send payload resume =>
    match s.actor with
    | .idle => some { s with actor := .writing [] (packetBytes payload) resume }
    | _ => none
  | .write n =>
    match s.actor with
    | .writing taken rest resume =>
      if 0 < n ∧ n ≤ rest.length then
        if n = rest.length then some { s with out := s.out ++ rest, actor := .reading resume }
        else some { s with out := s.out ++ rest.take n, actor := .writing (taken ++ rest.take n) (rest.drop n) resume }
      else none
    | _ => none
  | .setRunning =>
    match s.actor with
    | .reading true => some { s with running := true }
    | _ => none
  | .read ok more =>
    match s.actor with
    | .reading resume =>
      if resume ∧ ¬ s.running then none
      else
        let s := { s with out := s.out ++ ackBytes s.noAck ok }
        if resume then some { s with actor := .stopped ok }
        else if ok then some { s with actor := if more then .reading false else .idle }
        else some { s with actor := .ended }
    | _ => none
  | .clearRunning =>
    match s.actor with
    | .stopped ok => some { s with running := false, actor := if ok then .idle else .ended }
    | _ => none
  | .fail => some { s with running := false, actor := .ended }
  | .test => if s.running then some { s with pending := s.pending + 1 } else none
  | .interrupt =>
    if 0 < s.pending then some { s with
      pending := s.pending - 1, out := s.out ++ [0x03], split := s.split || decide (scan s.out ≠ .between) }
    else none

/-! ## The scanner on what the session writes -/

lemma foldl_byte_bad (l : Bytes) : l.foldl Scan.byte .bad = .bad := by
  induction l with
  | nil => rfl
  | cons b l ih => exact ih

/-- A prefix of what scans is no error. -/
lemma scan_prefix {l l' : Bytes} (h : scan (l ++ l') = .between) : scan l ≠ .bad := by
  intro hbad
  unfold scan at h hbad
  rw [foldl_append, hbad, foldl_byte_bad] at h
  cases h

/-- No escaped byte ends a packet. -/
lemma escapeByte_ne (val b : UInt8) (h : b ∈ escapeByte val) : b ≠ 0x23 := by
  unfold escapeByte at h
  split_ifs at h with hspecial
  · rcases mem_cons.mp h with rfl | h
    · decide
    · rw [mem_singleton.mp h]
      rcases hspecial with rfl | rfl | rfl | rfl <;> decide
  · rw [mem_singleton.mp h]
    intro heq
    exact hspecial (Or.inl heq)

/-- The reader sums up what stands inside a packet. -/
lemma foldl_inside (l : Bytes) (h : ∀ b ∈ l, b ≠ 0x23) (sum : UInt8) :
    l.foldl Scan.byte (.inside sum) = .inside (l.foldl (· + ·) sum) := by
  induction l generalizing sum with
  | nil => rfl
  | cons b l ih =>
  rw [foldl_cons, foldl_cons]
  show foldl Scan.byte (if b = 0x23 then .high sum else .inside (sum + b)) l = _
  rw [if_neg (h b mem_cons_self), ih (fun b hb => h b (mem_cons_of_mem _ hb))]

variable {l : Bytes} {whole : Prop} {s s' : State}

/-- A packet takes the scanner from one place between packets to the next. -/
lemma scan_packet (h : scan l = .between) (pay : Bytes) : scan (l ++ packetBytes pay) = .between := by
  have hesc : ∀ b ∈ pay.flatMap escapeByte, b ≠ 0x23 := by
    intro b hb
    obtain ⟨val, -, hval⟩ := mem_flatMap.mp hb
    exact escapeByte_ne val b hval
  unfold scan at h ⊢
  rw [foldl_append, h, packetBytes, cons_append, foldl_cons, foldl_append]
  show foldl Scan.byte (foldl Scan.byte (.inside 0) (pay.flatMap escapeByte)) _ = _
  rw [foldl_inside _ hesc]
  simp [Scan.byte, byteSum]

/-- An acknowledgement or an interrupt may stand between packets. -/
lemma scan_single (h : scan l = .between) {b : UInt8} (hb : b = 0x2b ∨ b = 0x2d ∨ b = 0x03) :
    scan (l ++ [b]) = .between := by
  unfold scan at h ⊢
  rw [foldl_append, h]
  rcases hb with rfl | rfl | rfl <;> rfl

/-! ## Runs -/

/-- The flag is still set when an interrupt is written. -/
def FlagSet (s : State) : Event → Prop
  | .interrupt => s.running = true
  | _ => True

instance : ∀ (s : State) (e : Event), Decidable (FlagSet s e)
  | s, .interrupt => inferInstanceAs (Decidable (s.running = true))
  | _, .send _ _ | _, .write _ | _, .setRunning | _, .read _ _ | _, .clearRunning | _, .fail | _, .test =>
    inferInstanceAs (Decidable True)

/-- The channel takes a packet in one part. -/
def WholeWrites (s : State) : Event → Prop
  | .write n => ∀ taken rest resume, s.actor = .writing taken rest resume → n = rest.length
  | _ => True

/-- Where the bytes of the session end; with `whole`, no packet is ever taken in part. -/
def Place (whole : Prop) (out : Bytes) : Actor → Prop
  | .idle | .reading _ | .stopped _ => scan out = .between
  | .writing taken rest _ => ∃ before payload, out = before ++ taken ∧ scan before = .between ∧
      taken ++ rest = packetBytes payload ∧ (whole → taken = [])
  | .ended => scan out ≠ .bad ∧ (whole → scan out = .between)

/-- The invariant: no interrupt inside a packet, and complete packets. -/
structure Inv (whole : Prop) (s : State) : Prop where
  split : s.split = false
  place : Place whole s.out s.actor
  running : s.running = true → s.actor = .reading true ∨ ∃ ok, s.actor = .stopped ok

section

variable {whole : Prop} {s : State} {out : Bytes} {actor : Actor}

lemma Inv.place_at (hi : Inv whole s) (hact : s.actor = actor) : Place whole s.out actor := by
  rw [← hact]
  exact hi.place

/-- The flag is set only while a resumed target is awaited. -/
lemma Inv.not_running (hi : Inv whole s) (hreading : s.actor ≠ .reading true)
    (hstopped : ∀ ok, s.actor ≠ .stopped ok) : s.running = false := by
  by_contra hrun
  rcases hi.running (by simpa using hrun) with h | ⟨ok, h⟩
  · exact hreading h
  · exact hstopped ok h

/-- While the flag is set the wire is between packets. -/
lemma between_of_running (hi : Inv whole s) (h : s.running = true) : scan s.out = .between := by
  rcases hi.running h with hact | ⟨ok, hact⟩
  · exact hi.place_at hact
  · exact hi.place_at hact

/-- With whole writes the bytes always end between packets. -/
lemma Place.between (h : Place whole out actor) (hwhole : whole) : scan out = .between := by
  cases actor with
  | idle => exact h
  | reading resume => exact h
  | stopped ok => exact h
  | writing taken rest resume =>
    obtain ⟨before, pay, hout, hbef, -, htaken⟩ := h
    rw [hout, htaken hwhole, append_nil]
    exact hbef
  | ended => exact h.2 hwhole

lemma not_bad_of_between (h : scan out = .between) : scan out ≠ .bad := by
  rw [h]
  nofun

lemma Place.not_bad (h : Place whole out actor) : scan out ≠ .bad := by
  cases actor with
  | idle => exact not_bad_of_between h
  | reading resume => exact not_bad_of_between h
  | stopped ok => exact not_bad_of_between h
  | writing taken rest resume =>
    obtain ⟨before, pay, rfl, hbef, hpacket, -⟩ := h
    have hwhole : scan (before ++ taken ++ rest) = .between := by
      rw [append_assoc, hpacket]
      exact scan_packet hbef pay
    exact scan_prefix hwhole
  | ended => exact h.1

end

lemma inv_send {pay : Bytes} {resume : Bool} (hi : Inv whole s)
    (h : step s (.send pay resume) = some s') : Inv whole s' := by
  rw [step] at h
  split at h
  next hact =>
    cases h
    have hnot := hi.not_running (by rw [hact]; nofun) (by rw [hact]; nofun)
    refine ⟨hi.split, ⟨s.out, pay, (append_nil _).symm, hi.place_at hact, rfl, fun _ => rfl⟩, ?_⟩
    intro hrun
    rw [hnot] at hrun
    cases hrun
  · cases h

lemma inv_write {n : Nat} (hi : Inv whole s) (hwhole : whole → WholeWrites s (.write n))
    (h : step s (.write n) = some s') : Inv whole s' := by
  rw [step] at h
  split at h
  next taken rest resume hact =>
    have hnot := hi.not_running (by rw [hact]; nofun) (by rw [hact]; nofun)
    obtain ⟨before, pay, hout, hbef, hpacket, htaken⟩ := hi.place_at hact
    split at h
    next hn =>
      split at h
      next hall =>
        cases h
        refine ⟨hi.split, ?_, fun hrun => absurd hrun (by rw [hnot]; nofun)⟩
        show scan (s.out ++ rest) = .between
        rw [hout, append_assoc, hpacket]
        exact scan_packet hbef pay
      next hpart =>
      cases h
      refine ⟨hi.split, ⟨before, pay, ?_, hbef, ?_, ?_⟩, fun hrun => absurd hrun (by rw [hnot]; nofun)⟩
      · rw [hout, append_assoc]
      · rw [append_assoc, take_append_drop]
        exact hpacket
      · intro hw
        exact absurd (hwhole hw taken rest resume hact) hpart
    · cases h
  · cases h

lemma inv_setRunning (hi : Inv whole s) (h : step s .setRunning = some s') : Inv whole s' := by
  rw [step] at h
  split at h
  next hact =>
    cases h
    exact ⟨hi.split, hi.place, fun _ => Or.inl hact⟩
  · cases h

lemma scan_ack {out : Bytes} (h : scan out = .between) (noAck ok : Bool) :
    scan (out ++ ackBytes noAck ok) = .between := by
  unfold ackBytes
  split_ifs
  · rw [append_nil, h]
  · exact scan_single h (Or.inl rfl)
  · exact scan_single h (Or.inr (Or.inl rfl))

section

variable (hi : Inv whole s)

include hi

lemma inv_read {ok more : Bool} (h : step s (.read ok more) = some s') : Inv whole s' := by
  rw [step] at h
  split at h
  next resume hact =>
    have hscan := scan_ack (hi.place_at hact) s.noAck ok
    have hrun : s.running = true → resume = true := by
      intro hrunning
      rcases hi.running hrunning with h | ⟨ok, h⟩
      · rw [hact] at h
        cases h
        rfl
      · rw [hact] at h
        cases h
    split at h
    · cases h
    split at h
    next hresumes =>
      cases h
      exact ⟨hi.split, hscan, fun _ => Or.inr ⟨ok, rfl⟩⟩
    next hresumes =>
    split at h
    · cases h
      refine ⟨hi.split, ?_, fun hrunning => absurd (hrun hrunning) hresumes⟩
      cases more with
      | true | false => exact hscan
    · cases h
      exact ⟨hi.split, ⟨not_bad_of_between hscan, fun _ => hscan⟩, fun hrunning => absurd (hrun hrunning) hresumes⟩
  · cases h

lemma inv_clearRunning (h : step s .clearRunning = some s') : Inv whole s' := by
  rw [step] at h
  split at h
  next ok hact =>
    cases h
    have hscan : scan s.out = .between := hi.place_at hact
    refine ⟨hi.split, ?_, nofun⟩
    cases ok with
    | true => exact hscan
    | false => exact ⟨not_bad_of_between hscan, fun _ => hscan⟩
  · cases h

lemma inv_fail (h : step s .fail = some s') : Inv whole s' := by
  cases h
  exact ⟨hi.split, ⟨hi.place.not_bad, hi.place.between⟩, nofun⟩

lemma inv_test (h : step s .test = some s') : Inv whole s' := by
  rw [step] at h
  split at h
  · cases h
    exact { hi with }
  · cases h

/-- An interrupt between packets keeps the invariant. -/
lemma inv_interrupt (hbetw : scan s.out = .between)
    (hfree : ∀ taken rest resume, s.actor = .writing taken rest resume → taken = [])
    (h : step s .interrupt = some s') : Inv whole s' := by
  have hscan : scan (s.out ++ [0x03]) = .between := scan_single hbetw (Or.inr (Or.inr rfl))
  rw [step] at h
  split at h
  · cases h
    refine ⟨?_, ?_, hi.running⟩
    · rw [hi.split, hbetw]
      rfl
    show Place whole (s.out ++ [0x03]) s.actor
    cases hact : s.actor with
    | idle => exact hscan
    | reading resume => exact hscan
    | stopped ok => exact hscan
    | ended => exact ⟨not_bad_of_between hscan, fun _ => hscan⟩
    | writing taken rest resume =>
    obtain ⟨before, pay, -, -, hpacket, -⟩ := hi.place_at hact
    have htaken := hfree taken rest resume hact
    subst htaken
    exact ⟨s.out ++ [0x03], pay, (append_nil _).symm, hscan, hpacket, fun _ => rfl⟩
  · cases h

end

/-- The condition on a step, in a run with whole writes and in one without. -/
def Careful (whole : Prop) (s : State) (e : Event) : Prop := (whole → WholeWrites s e) ∧ (¬ whole → FlagSet s e)

/-- Every careful step keeps the invariant. -/
lemma inv_step (whole : Prop) (s : State) (e : Event) (s' : State) (hi : Inv whole s) (hc : Careful whole s e)
    (h : step s e = some s') : Inv whole s' := by
  cases e with
  | send payload resume => exact inv_send hi h
  | write n => exact inv_write hi hc.1 h
  | setRunning => exact inv_setRunning hi h
  | read ok more => exact inv_read hi h
  | clearRunning => exact inv_clearRunning hi h
  | fail => exact inv_fail hi h
  | test => exact inv_test hi h
  | interrupt =>
  by_cases hw : whole
  · refine inv_interrupt hi (hi.place.between hw) ?_ h
    intro taken rest resume hact
    have hplace := hi.place
    rw [hact] at hplace
    obtain ⟨-, -, -, -, -, htaken⟩ := hplace
    exact htaken hw
  have hrun : s.running = true := hc.2 hw
  refine inv_interrupt hi (between_of_running hi hrun) ?_ h
  intro taken rest resume hact
  rcases hi.running hrun with h | ⟨ok, h⟩
  · rw [hact] at h
    cases h
  · rw [hact] at h
    cases h

/-- No interrupt is inside a packet, the bytes scan, and all packets are complete unless one is being
written or its write has failed. -/
def Sound (s : State) : Prop :=
  s.split = false ∧ scan s.out ≠ .bad ∧
    ((∀ taken rest resume, s.actor ≠ .writing taken rest resume) → s.actor ≠ .ended → scan s.out = .between)

/-- The invariant says that no interrupt has split a packet. -/
lemma sound_of_inv (hi : Inv whole s) : Sound s := by
  refine ⟨hi.split, hi.place.not_bad, ?_⟩
  intro hwriting hended
  cases hact : s.actor with
  | idle => exact hi.place_at hact
  | reading resume => exact hi.place_at hact
  | stopped ok => exact hi.place_at hact
  | writing taken rest resume => exact absurd hact (hwriting taken rest resume)
  | ended => exact absurd hact hended

/-- Runs that write each interrupt while the flag is still set, and runs in which the channel takes each
packet in one part, write the interrupts between packets. -/
theorem interrupts_between_packets (noAck : Bool) (events : List Event) (s : State)
    (hcond : Steps.Always step FlagSet { noAck := noAck } events ∨
      Steps.Always step WholeWrites { noAck := noAck } events)
    (hrun : Steps.run step { noAck := noAck } events = some s) : Sound s := by
  rcases hcond with hflag | hwhole
  · have hinv : Inv False { noAck := noAck } := ⟨rfl, rfl, nofun⟩
    exact sound_of_inv (Steps.run_keeps (inv_step False) hinv
      (hflag.imp fun s e h => ⟨fun hf => hf.elim, fun _ => h⟩) hrun)
  · have hinv : Inv True { noAck := noAck } := ⟨rfl, rfl, nofun⟩
    exact sound_of_inv (Steps.run_keeps (inv_step True) hinv
      (hwhole.imp fun s e h => ⟨fun _ => h, fun hf => absurd trivial hf⟩) hrun)

/-- An interrupted `continue`, and then a `monitor` whose output comes in two packets. -/
def interrupted : List Event :=
  [.send [0x63] true, .write 2, .write 3, .setRunning, .test, .interrupt, .read true false, .clearRunning,
    .send [0x71] false, .write 5, .read true true, .read true false]

/-- A run with an interrupt of a target that runs. -/
theorem interrupts_between_packets_interrupted :
    ∃ s, Steps.run step { noAck := false } interrupted = some s ∧ s.actor = .idle ∧ Sound s := by
  exact ⟨_, rfl, rfl, interrupts_between_packets false interrupted _ (Or.inl (by decide)) rfl⟩

/-- The target stops by itself between the test and the write of an interrupt, and the next
command is half written. -/
theorem interrupt_splits_packet :
    ∃ s, Steps.run step { noAck := true }
        [.send [0x63] true, .write 5, .setRunning, .test, .read true false, .clearRunning, .send [0x67] false, .write 2,
          .interrupt, .write 3] = some s ∧
      s.out = [0x24, 0x63, 0x23, 0x36, 0x33, 0x24, 0x67, 0x03, 0x23, 0x36, 0x37] ∧ s.split = true ∧
      scan s.out = .bad :=
  ⟨_, rfl, rfl, rfl, rfl⟩

end Trex.Gdb.Interrupt
