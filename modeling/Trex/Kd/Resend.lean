import Trex.Kd.Wire
import Trex.Lib.Steps

/-!
# Retransmission (`sendData`, `handleControl`, `writeLoop`)

`writeLoop` and `readLoop` share the transport.  `sendData` registers its id under the lock, writes the
packet, and stores the copy under the lock again; `handleControl` takes that copy and writes it.
-/

namespace Trex.Kd.Resend

/-- Where the writer is. -/
inductive Writer where
  | idle
  /-- `sendData` behind its first section: the id is registered, the packet is built -/
  | registered (id : UInt32) (packet : Bytes)
  | written (id : UInt32) (packet : Bytes)
  /-- `writeLoop` waits for the acknowledgement -/
  | awaiting (id : UInt32)
deriving DecidableEq, Repr

/-- Where `handleControl` stands; `inFlight` is the packet in flight when the copy was taken. -/
inductive Reader where
  | idle
  | resending (outbound : Bytes) (inFlight : Option Bytes)
deriving DecidableEq, Repr

/-- The answer to one RESEND, with the packet in flight when the answer was chosen and when it
was written. -/
structure Answer where
  inFlight : Option Bytes
  inFlightAtWrite : Option Bytes
  bytes : Bytes
deriving DecidableEq, Repr

/-- The wire, the two goroutines and the packet in flight. -/
structure State where
  wire : KdWire := {}
  writer : Writer := .idle
  reader : Reader := .idle
  /-- the packet written last, with its id, unless its acknowledgement has been handled -/
  inFlight : Option (UInt32 × Bytes) := none
  answers : List Answer := []
deriving DecidableEq, Repr

/-- One step of the writer or of the reader. -/
inductive Event where
  | register (kind : UInt16) (payload : Bytes)
  | write
  | store
  | acknowledged
  /-- the reader handles a control packet that is no RESEND -/
  | control (packet : KdPacket)
  | resend
  | resendWrite
deriving DecidableEq, Repr

/-- A data packet on the wire. -/
def dataPacket (kind : UInt16) (id : UInt32) (payload : Bytes) : Bytes :=
  LittleEndian.put 4 kdPacketLeader.toNat ++ LittleEndian.put 2 kind.toNat
    ++ LittleEndian.put 2 payload.length ++ LittleEndian.put 4 id.toNat
    ++ LittleEndian.put 4 (kdChecksum payload).toNat ++ payload ++ [kdTrailingByte]

/-- The packet in flight behind a control packet: an acknowledgement of its id ends it. -/
def inFlightAfter (inFlight : Option (UInt32 × Bytes)) (packet : KdPacket) : Option (UInt32 × Bytes) :=
  inFlight.filter fun p => ¬ (packet.type = kdPacketAcknowledge ∧ packet.id &&& ~~~kdSyncPacketID = p.1)

/-- One step, if it is possible. -/
def step (s : State) : Event → Option State
  | .register kind payload =>
    match s.writer with
    | .idle =>
      let id := s.wire.remoteID
      some { s with
        wire := { s.wire with ackWait := id :: s.wire.ackWait.filter (· ≠ id) }
        writer := .registered id (dataPacket kind id payload) }
    | _ => none
  | .write =>
    match s.writer with
    | .registered id packet => some { s with writer := .written id packet, inFlight := some (id, packet) }
    | _ => none
  | .store =>
    match s.writer with
    | .written id packet => some { s with wire := { s.wire with lastOutbound := packet }, writer := .awaiting id }
    | _ => none
  | .acknowledged =>
    match s.writer with
    | .awaiting id => if id ∈ s.wire.ackWait then none else some { s with writer := .idle }
    | _ => none
  | .control packet =>
    match s.reader with
    | .idle =>
      if packet.type = kdPacketResend then none
      else some { s with
        wire := (s.wire.handleControl packet).1
        inFlight := inFlightAfter s.inFlight packet }
    | _ => none
  | .resend =>
    match s.reader with
    | .idle =>
      if s.wire.lastOutbound = [] then
        some { s with answers := ⟨s.inFlight.map Prod.snd, s.inFlight.map Prod.snd, []⟩ :: s.answers }
      else some { s with reader := .resending s.wire.lastOutbound (s.inFlight.map Prod.snd) }
    | _ => none
  | .resendWrite =>
    match s.reader with
    | .resending outbound inFlight => some { s with
        reader := .idle
        answers := ⟨inFlight, s.inFlight.map Prod.snd, outbound⟩ :: s.answers }
    | .idle => none

/-- What a RESEND is answered with while a packet is in flight is that packet. -/
def Answer.Exact (a : Answer) : Prop :=
  (∀ packet, a.inFlight = some packet → a.bytes = packet) ∧
    ∀ packet, a.inFlightAtWrite = some packet → a.bytes = packet

/-- No RESEND is taken up while a packet is written but not stored, and no packet is written
while an answer is on its way. -/
def Ordered (s : State) : Event → Prop
  | .resend => ∀ id packet, s.writer ≠ .written id packet
  | .write => s.reader = .idle
  | _ => True

/-- The invariant: what a RESEND sends again is the packet in flight. -/
structure Inv (s : State) : Prop where
  /-- the copy is the packet in flight, but for the time between the write and the store -/
  stored : (∀ id packet, s.writer ≠ .written id packet) → ∀ p ∈ s.inFlight, s.wire.lastOutbound = p.2
  written : ∀ id packet, s.writer = .written id packet → ∀ p ∈ s.inFlight, p.2 = packet
  resending : ∀ outbound inFlight, s.reader = .resending outbound inFlight →
    (∀ packet, inFlight = some packet → outbound = packet) ∧ ∀ p ∈ s.inFlight, outbound = p.2
  answers : ∀ a ∈ s.answers, a.Exact

lemma lastOutbound_handleControl (w : KdWire) (packet : KdPacket) :
    (w.handleControl packet).1.lastOutbound = w.lastOutbound := by
  unfold KdWire.handleControl
  split_ifs <;> rfl

variable {packet : KdPacket} {s s' : State}

lemma mem_inFlightAfter {inFlight : Option (UInt32 × Bytes)} {p : UInt32 × Bytes}
    (h : p ∈ inFlightAfter inFlight packet) : p ∈ inFlight := by
  unfold inFlightAfter at h
  exact (Option.mem_filter_iff.mp h).1

lemma snd_of_map {o : Option (UInt32 × Bytes)} {packet : Bytes} (h : o.map Prod.snd = some packet) :
    ∃ p ∈ o, p.2 = packet := Option.map_eq_some_iff.mp h

section

variable (hi : Inv s)

include hi

lemma inv_register {kind : UInt16} {pay : Bytes} (h : step s (.register kind pay) = some s') : Inv s' := by
  rw [step] at h
  split at h
  next hw =>
    cases h
    have hnot : ∀ id packet, s.writer ≠ .written id packet := by
      intro id packet hw'
      rw [hw] at hw'
      cases hw'
    exact ⟨fun _ => hi.stored hnot, nofun, hi.resending, hi.answers⟩
  · cases h

lemma inv_write (hidle : s.reader = .idle) (h : step s .write = some s') : Inv s' := by
  rw [step] at h
  split at h
  next id packet hw =>
    cases h
    refine ⟨fun hnot => absurd rfl (hnot id packet), ?_, ?_, hi.answers⟩
    · intro id' packet' hw' p hp
      cases hw'
      cases hp
      rfl
    · intro outbound inFlight hr
      rw [show s.reader = .resending outbound inFlight from hr] at hidle
      cases hidle
  · cases h

lemma inv_store (h : step s .store = some s') : Inv s' := by
  rw [step] at h
  split at h
  next id packet hw =>
    cases h
    refine ⟨?_, nofun, hi.resending, hi.answers⟩
    intro _ p hp
    exact (hi.written id packet hw p hp).symm
  · cases h

lemma inv_acknowledged (h : step s .acknowledged = some s') : Inv s' := by
  rw [step] at h
  split at h
  next id hw =>
    split at h
    · cases h
    cases h
    have hnot : ∀ id packet, s.writer ≠ .written id packet := by
      intro id packet hw'
      rw [hw] at hw'
      cases hw'
    exact ⟨fun _ => hi.stored hnot, nofun, hi.resending, hi.answers⟩
  · cases h

lemma inv_control (h : step s (.control packet) = some s') : Inv s' := by
  rw [step] at h
  split at h
  next hr =>
    split at h
    · cases h
    cases h
    refine ⟨?_, ?_, ?_, hi.answers⟩
    · intro hnot p hp
      show (s.wire.handleControl packet).1.lastOutbound = p.2
      rw [lastOutbound_handleControl]
      exact hi.stored hnot p (mem_inFlightAfter hp)
    · intro id bytes hw p hp
      exact hi.written id bytes hw p (mem_inFlightAfter hp)
    · intro outbound inFlight hr'
      rw [show s.reader = .resending outbound inFlight from hr'] at hr
      cases hr
  · cases h

lemma inv_resend (hnot : ∀ id packet, s.writer ≠ .written id packet) (h : step s .resend = some s') : Inv s' := by
  have hcopy : ∀ packet, s.inFlight.map Prod.snd = some packet → s.wire.lastOutbound = packet := by
    intro packet hpacket
    obtain ⟨p, hp, rfl⟩ := snd_of_map hpacket
    exact hi.stored hnot p hp
  rw [step] at h
  split at h
  next hr =>
    split at h
    next hemp =>
      cases h
      refine ⟨hi.stored, hi.written, hi.resending, ?_⟩
      intro a ha
      rcases List.mem_cons.mp ha with rfl | ha
      · rw [hemp] at hcopy
        exact ⟨hcopy, hcopy⟩
      · exact hi.answers a ha
    · cases h
      refine ⟨hi.stored, hi.written, ?_, hi.answers⟩
      intro outbound inFlight hr'
      cases hr'
      exact ⟨hcopy, fun p hp => hi.stored hnot p hp⟩
  · cases h

lemma inv_resendWrite (h : step s .resendWrite = some s') : Inv s' := by
  rw [step] at h
  split at h
  next outbound inFlight hr =>
    cases h
    refine ⟨hi.stored, hi.written, nofun, ?_⟩
    intro a ha
    rcases List.mem_cons.mp ha with rfl | ha
    · obtain ⟨hbef, hnow⟩ := hi.resending outbound inFlight hr
      refine ⟨hbef, ?_⟩
      intro packet hpacket
      obtain ⟨p, hp, rfl⟩ := snd_of_map hpacket
      exact hnow p hp
    · exact hi.answers a ha
  · cases h

end

lemma inv_init : Inv {} := by
  refine ⟨fun _ p hp => ?_, nofun, fun _ _ h => ?_, fun a ha => ?_⟩
  · cases hp
  · cases h
  · cases ha

/-- Every ordered step keeps the invariant. -/
lemma inv_step (s : State) (e : Event) (s' : State) (hi : Inv s) (ho : Ordered s e)
    (h : step s e = some s') : Inv s' := by
  cases e with
  | register kind payload => exact inv_register hi h
  | write => exact inv_write hi ho h
  | store => exact inv_store hi h
  | acknowledged => exact inv_acknowledged hi h
  | control packet => exact inv_control hi h
  | resend => exact inv_resend hi ho h
  | resendWrite => exact inv_resendWrite hi h

/-- In every run of ordered steps each RESEND that is handled while a packet is in flight is
answered with exactly that packet. -/
theorem resend_exact (events : List Event) (s : State) (hordered : Steps.Always step Ordered {} events)
    (hrun : Steps.run step {} events = some s) : ∀ a ∈ s.answers, a.Exact :=
  (Steps.run_keeps inv_step inv_init hordered hrun).answers

instance (a : Answer) : Decidable a.Exact :=
  decidable_of_iff ((∀ packet ∈ a.inFlight, a.bytes = packet) ∧ ∀ packet ∈ a.inFlightAtWrite, a.bytes = packet)
    Iff.rfl

instance : ∀ (s : State) (e : Event), Decidable (Ordered s e)
  | s, .resend =>
    match h : s.writer with
    | .written id packet => isFalse fun ho => ho id packet h
    | .idle => isTrue fun id packet hw => by rw [h] at hw; cases hw
    | .registered _ _ => isTrue fun id packet hw => by rw [h] at hw; cases hw
    | .awaiting _ => isTrue fun id packet hw => by rw [h] at hw; cases hw
  | s, .write => inferInstanceAs (Decidable (s.reader = .idle))
  | _, .register _ _ => inferInstanceAs (Decidable True)
  | _, .store => inferInstanceAs (Decidable True)
  | _, .acknowledged => inferInstanceAs (Decidable True)
  | _, .control _ => inferInstanceAs (Decidable True)
  | _, .resendWrite => inferInstanceAs (Decidable True)

/-- A packet that is acknowledged, and a second one that is written and not yet stored. -/
def twoPackets : List Event :=
  [.register kdPacketDebugIO [1], .write, .store,
    .control { leader := kdControlPacketLeader, type := kdPacketAcknowledge, id := kdInitialPacketID },
    .acknowledged, .register kdPacketDebugIO [2], .write]

def secondPacket : Bytes := dataPacket kdPacketDebugIO (kdInitialPacketID ^^^ 1) [2]

/-- The second of two packets is sent again as it was. -/
theorem resend_exact_twoPackets :
    ∃ s, Steps.run step {} (twoPackets ++ [.store, .resend, .resendWrite]) = some s ∧
      s.answers = [⟨some secondPacket, some secondPacket, secondPacket⟩] ∧ ∀ a ∈ s.answers, a.Exact := by
  refine ⟨_, rfl, by decide, resend_exact (twoPackets ++ [.store, .resend, .resendWrite]) _ (by decide) rfl⟩

/-- A RESEND between the write of the second packet and the store of its copy is answered with
the first packet. -/
theorem resend_before_store :
    ∃ s, Steps.run step {} (twoPackets ++ [.resend, .resendWrite]) = some s ∧
      s.answers = [⟨some secondPacket, some secondPacket, dataPacket kdPacketDebugIO kdInitialPacketID [1]⟩] ∧
      ¬ ∀ a ∈ s.answers, a.Exact :=
  ⟨_, rfl, by decide, by decide⟩

end Trex.Kd.Resend
