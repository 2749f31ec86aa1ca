import Mathlib.Data.LawfulXor.Basic
import Trex.Kd.Wire

/-!
# Delivery of data packets (`readLoop`, `validateAndAcknowledge`)

A stop-and-wait target sends in epochs: the first packet carries the sync bit, the ids of the others
alternate.  Any number of transmissions of a packet may arrive, intact or not.
-/

namespace Trex.Kd

open List KdWire

/-! ## What the target sends -/

/-- What arrives at the session. -/
inductive Arrival where
  /-- a transmission of the packet, with its payload as it arrives -/
  | data (payload : Bytes)
  /-- a packet that answers the session: an acknowledgement or a request to send again -/
  | control (type : UInt16) (id : UInt32)
  | breakin
deriving DecidableEq

/-- A data packet of the target and all that arrives while it is the current one. -/
structure Sent where
  type : UInt16
  id : UInt32
  payload : Bytes
  arrivals : List Arrival

/-- A stretch of the stream that begins with the sync bit, after a reset or without one. -/
structure Epoch where
  reset : Bool
  first : Sent
  rest : List Sent

/-- The packet as the target sends it. -/
def Sent.packet (p : Sent) : KdPacket where
  leader := kdPacketLeader
  type := p.type
  count := UInt16.ofNat p.payload.length
  id := p.id
  checksum := kdChecksum p.payload
  payload := p.payload

def Sent.arrive (p : Sent) : Arrival → KdPacket
  | .data payload => { p.packet with payload := payload }
  | .control type id => { leader := kdControlPacketLeader, type := type, id := id }
  | .breakin => { leader := kdBreakinPacket }

/-- What arrives while the target sends one packet. -/
def Sent.stream (p : Sent) : List KdPacket := p.arrivals.map p.arrive

/-- What arrives from one reset to the next. -/
def Epoch.stream (e : Epoch) : List KdPacket :=
  (if e.reset then [{ leader := kdControlPacketLeader, type := kdPacketReset }] else [])
    ++ (e.first :: e.rest).flatMap Sent.stream

/-- An arrival is intact, or its payload fails the checksum, or it is no data. -/
def Sent.ArrivalOK (p : Sent) : Arrival → Prop
  | .data payload => payload = p.payload ∨ kdChecksum payload ≠ kdChecksum p.payload
  | .control type _ => type ≠ kdPacketReset
  | .breakin => True

instance (p : Sent) : (a : Arrival) → Decidable (p.ArrivalOK a)
  | .data payload => inferInstanceAs (Decidable (payload = p.payload ∨ kdChecksum payload ≠ kdChecksum p.payload))
  | .control type _ => inferInstanceAs (Decidable (type ≠ kdPacketReset))
  | .breakin => inferInstanceAs (Decidable True)

/-- How often the packet arrives undamaged. -/
def Sent.intact (p : Sent) : Nat := p.arrivals.count (.data p.payload)

/-- The packets behind the first one: no sync bit, alternating ids, and every packet but the
last of the epoch has arrived before the next one is sent. -/
def StopAndWait : UInt32 → List Sent → Prop
  | _, [] => True
  | id, p :: rest =>
    p.id &&& kdSyncPacketID = 0 ∧ p.id &&& ~~~kdSyncPacketID = id ∧
      (∀ a ∈ p.arrivals, p.ArrivalOK a) ∧ (rest ≠ [] → 0 < p.intact) ∧ StopAndWait (id ^^^ 1) rest

/-- The target follows the protocol from a reset on. -/
structure Epoch.Follows (e : Epoch) : Prop where
  sync : e.first.id &&& kdSyncPacketID ≠ 0
  arrivals : ∀ a ∈ e.first.arrivals, e.first.ArrivalOK a
  acknowledged : e.rest ≠ [] → 0 < e.first.intact
  rest : StopAndWait ((e.first.id &&& ~~~kdSyncPacketID) ^^^ 1) e.rest

/-- The packets of an epoch that have arrived, each of them once and in order. -/
def Epoch.sequence (e : Epoch) : List KdPacket :=
  ((e.first :: e.rest).filter (fun p => 0 < p.intact)).map Sent.packet

/-! ## What the reader accepts -/

/-- One turn of `readLoop`: the packet if `validateAndAcknowledge` reports true. -/
def KdWire.receive (w : KdWire) (packet : KdPacket) : KdWire × List KdPacket :=
  if packet.leader = kdControlPacketLeader then ((w.handleControl packet).1, [])
  else if packet.leader = kdPacketLeader then
    let (w', valid, _) := w.validateAndAcknowledge packet
    (w', if valid then [packet] else [])
  else (w, [])

/-- The turns of `readLoop` over a stream and the packets that it hands to `handleData`. -/
def KdWire.deliver (w : KdWire) : List KdPacket → KdWire × List KdPacket
  | [] => (w, [])
  | packet :: stream =>
    let (w', accepted) := w.receive packet
    let (w'', delivered) := w'.deliver stream
    (w'', accepted ++ delivered)

lemma deliver_append (w : KdWire) (l l' : List KdPacket) : w.deliver (l ++ l') =
      (((w.deliver l).1.deliver l').1, (w.deliver l).2 ++ ((w.deliver l).1.deliver l').2) := by
  induction l generalizing w with
  | nil => rfl
  | cons packet l ih =>
    show (w.deliver (packet :: (l ++ l'))) = _
    simp only [deliver, ih, append_assoc]

lemma xor_one_ne (id : UInt32) : id ≠ id ^^^ 1 := by
  intro h
  have hzero : id ^^^ id = id ^^^ (id ^^^ 1) := congrArg (id ^^^ ·) h
  rw [← UInt32.xor_assoc, UInt32.xor_self, UInt32.zero_xor] at hzero
  exact absurd hzero (by decide)

section

variable (w : KdWire) (p : Sent)

include w p

/-- What is no data packet and no reset leaves the expected id alone. -/
lemma receive_control (type : UInt16) (id : UInt32) (h : type ≠ kdPacketReset) :
    (w.receive (p.arrive (.control type id))).1.localID = w.localID ∧
      (w.receive (p.arrive (.control type id))).2 = [] := by
  have hleader : (p.arrive (.control type id)).leader = kdControlPacketLeader := rfl
  rw [receive, if_pos hleader]
  refine ⟨?_, rfl⟩
  show ((w.handleControl { leader := kdControlPacketLeader, type := type, id := id }).1).localID = w.localID
  unfold handleControl
  simp only [if_neg h]
  split_ifs <;> rfl

lemma receive_breakin : w.receive (p.arrive .breakin) = (w, []) := by
  have h1 : ¬ kdBreakinPacket = kdControlPacketLeader := by decide
  have h2 : ¬ kdBreakinPacket = kdPacketLeader := by decide
  show (if kdBreakinPacket = kdControlPacketLeader then _ else _) = _
  rw [if_neg h1]
  show (if kdBreakinPacket = kdPacketLeader then _ else _) = _
  rw [if_neg h2]

lemma receive_data (payload : Bytes) : w.receive (p.arrive (.data payload)) =
      ((w.validateAndAcknowledge { p.packet with payload := payload }).1,
        if (w.validateAndAcknowledge { p.packet with payload := payload }).2.1
        then [{ p.packet with payload := payload }] else []) := by
  have h1 : ¬ kdPacketLeader = kdControlPacketLeader := by decide
  show (if kdPacketLeader = kdControlPacketLeader then _ else if kdPacketLeader = kdPacketLeader then _ else _) = _
  rw [if_neg h1, if_pos rfl]
  rfl

/-- A damaged packet is not accepted. -/
lemma receive_corrupted (payload : Bytes) (h : kdChecksum payload ≠ kdChecksum p.payload)
    : w.receive (p.arrive (.data payload)) = (w, []) := by
  rw [receive_data]
  have hsum : kdChecksum ({ p.packet with payload := payload } : KdPacket).payload
      ≠ ({ p.packet with payload := payload } : KdPacket).checksum := h
  rw [validateAndAcknowledge, if_pos hsum]
  rfl

/-- A packet is accepted the first time only. -/
lemma receive_intact (hsync : p.id &&& kdSyncPacketID = 0) (id : UInt32) (hid : p.id &&& ~~~kdSyncPacketID = id) :
    (w.localID = id → (w.receive (p.arrive (.data p.payload))).1.localID = id ^^^ 1 ∧
      (w.receive (p.arrive (.data p.payload))).2 = [p.packet]) ∧
    (w.localID = id ^^^ 1 → (w.receive (p.arrive (.data p.payload))).1.localID = id ^^^ 1 ∧
      (w.receive (p.arrive (.data p.payload))).2 = []) := by
  rw [receive_data]
  have hsum : ¬ kdChecksum p.packet.payload ≠ p.packet.checksum := fun h => h rfl
  have hbit : ¬ p.packet.id &&& kdSyncPacketID ≠ 0 := fun h => h hsync
  have hnum : p.packet.id &&& ~~~kdSyncPacketID = id := hid
  show (w.localID = id → ((w.validateAndAcknowledge p.packet).1.localID = id ^^^ 1 ∧
      (if (w.validateAndAcknowledge p.packet).2.1 then [p.packet] else []) = [p.packet])) ∧
    (w.localID = id ^^^ 1 → ((w.validateAndAcknowledge p.packet).1.localID = id ^^^ 1 ∧
      (if (w.validateAndAcknowledge p.packet).2.1 then [p.packet] else []) = []))
  rw [validateAndAcknowledge, if_neg hsum]
  simp only [if_neg hbit, hnum]
  constructor
  · intro hloc
    simp [hloc]
  · intro hloc
    simp [hloc, xor_one_ne]

/-- An intact packet with the sync bit is accepted whatever the expected id is. -/
lemma receive_sync (hsync : p.id &&& kdSyncPacketID ≠ 0) :
    (w.receive (p.arrive (.data p.payload))).1.localID = (p.id &&& ~~~kdSyncPacketID) ^^^ 1 ∧
      (w.receive (p.arrive (.data p.payload))).2 = [p.packet] := by
  rw [receive_data]
  have hsum : ¬ kdChecksum p.packet.payload ≠ p.packet.checksum := fun h => h rfl
  have hbit : p.packet.id &&& kdSyncPacketID ≠ 0 := hsync
  show (w.validateAndAcknowledge p.packet).1.localID = (p.id &&& ~~~kdSyncPacketID) ^^^ 1 ∧
      (if (w.validateAndAcknowledge p.packet).2.1 then [p.packet] else []) = [p.packet]
  rw [validateAndAcknowledge, if_neg hsum]
  simp only [if_pos hbit]
  simp [Sent.packet]

/-- All that arrives but the intact packet changes nothing. -/
lemma receive_other (a : Arrival) (hok : p.ArrivalOK a) (ha : a ≠ .data p.payload) :
    (w.receive (p.arrive a)).1.localID = w.localID ∧ (w.receive (p.arrive a)).2 = [] := by
  cases a with
  | data payload =>
    rcases hok with rfl | hsum
    · exact absurd rfl ha
    · rw [receive_corrupted w p payload hsum]
      exact ⟨rfl, rfl⟩
  | control type id => exact receive_control w p type id hok
  | breakin =>
    rw [receive_breakin]
    exact ⟨rfl, rfl⟩

end

/-! ## The arrivals of one packet -/

lemma deliver_localID_of_none (p : Sent) :
    ∀ (l : List Arrival) (w : KdWire), (∀ a ∈ l, p.ArrivalOK a) → l.count (.data p.payload) = 0 →
      (w.deliver (l.map p.arrive)).1.localID = w.localID := by
  intro l
  induction l with
  | nil =>
    intro w _ _
    rfl
  | cons a l ih =>
  intro w hok hcount
  have ha : a ≠ .data p.payload := by
    rintro rfl
    rw [count_cons_self] at hcount
    omega
  rw [count_cons_of_ne ha] at hcount
  rw [map_cons, deliver]
  exact (ih _ (fun b hb => hok b (mem_cons_of_mem _ hb)) hcount).trans
    (receive_other w p a (hok a mem_cons_self) ha).1

section

variable (p : Sent) (hsync : p.id &&& kdSyncPacketID = 0) (id : UInt32)
  (hid : p.id &&& ~~~kdSyncPacketID = id)

include p hsync id hid

/-- Once its packet has been accepted, its further transmissions are duplicates. -/
lemma deliver_arrivals_accepted : ∀ (l : List Arrival) (w : KdWire), (∀ a ∈ l, p.ArrivalOK a) → w.localID = id ^^^ 1 →
      (w.deliver (l.map p.arrive)).1.localID = id ^^^ 1 ∧ (w.deliver (l.map p.arrive)).2 = [] := by
  intro l
  induction l with
  | nil =>
    intro w _ hloc
    exact ⟨hloc, rfl⟩
  | cons a l ih =>
  intro w hok hloc
  have hfirst : (w.receive (p.arrive a)).1.localID = id ^^^ 1 ∧ (w.receive (p.arrive a)).2 = [] := by
    by_cases ha : a = .data p.payload
    · subst ha
      exact (receive_intact w p hsync id hid).2 hloc
    · have := receive_other w p a (hok a mem_cons_self) ha
      rw [hloc] at this
      exact this
  have hrest := ih (w.receive (p.arrive a)).1 (fun b hb => hok b (mem_cons_of_mem _ hb)) hfirst.1
  rw [map_cons, deliver]
  simp only [hfirst.2, nil_append]
  exact hrest

/-- A packet that is expected is accepted when it first arrives intact, and only then. -/
lemma deliver_arrivals_expected : ∀ (l : List Arrival) (w : KdWire), (∀ a ∈ l, p.ArrivalOK a) → w.localID = id →
      ((w.deliver (l.map p.arrive)).1.localID = if 0 < l.count (.data p.payload) then id ^^^ 1 else id) ∧
      (w.deliver (l.map p.arrive)).2 = if 0 < l.count (.data p.payload) then [p.packet] else [] := by
  intro l
  induction l with
  | nil =>
    intro w _ hloc
    exact ⟨hloc, rfl⟩
  | cons a l ih =>
  intro w hok hloc
  have hokl : ∀ b ∈ l, p.ArrivalOK b := fun b hb => hok b (mem_cons_of_mem _ hb)
  rw [map_cons, deliver]
  by_cases ha : a = .data p.payload
  · subst ha
    obtain ⟨hnext, haccept⟩ := (receive_intact w p hsync id hid).1 hloc
    obtain ⟨hlast, hnone⟩ := deliver_arrivals_accepted p hsync id hid l _ hokl hnext
    have hpos : 0 < (Arrival.data p.payload :: l).count (.data p.payload) := by
      rw [count_cons_self]
      omega
    simp only [if_pos hpos, haccept, hnone, hlast]
    exact ⟨trivial, rfl⟩
  · obtain ⟨hnext, hnone⟩ := receive_other w p a (hok a mem_cons_self) ha
    have hrest := ih (w.receive (p.arrive a)).1 hokl (by rw [hnext, hloc])
    rw [count_cons_of_ne ha]
    simp only [hnone, nil_append]
    exact hrest

end

/-- A packet with the sync bit is accepted each time that it arrives intact. -/
lemma deliver_arrivals_sync (p : Sent) (hsync : p.id &&& kdSyncPacketID ≠ 0) :
    ∀ (l : List Arrival) (w : KdWire), (∀ a ∈ l, p.ArrivalOK a) → (0 < l.count (.data p.payload) →
        (w.deliver (l.map p.arrive)).1.localID = (p.id &&& ~~~kdSyncPacketID) ^^^ 1) ∧
      (w.deliver (l.map p.arrive)).2 = replicate (l.count (.data p.payload)) p.packet := by
  intro l
  induction l with
  | nil =>
    intro w _
    exact ⟨fun h => absurd h (by simp), rfl⟩
  | cons a l ih =>
  intro w hok
  have hokl : ∀ b ∈ l, p.ArrivalOK b := fun b hb => hok b (mem_cons_of_mem _ hb)
  obtain ⟨ihlast, ihmany⟩ := ih (w.receive (p.arrive a)).1 hokl
  rw [map_cons, deliver]
  by_cases ha : a = .data p.payload
  · subst ha
    obtain ⟨hnext, haccept⟩ := receive_sync w p hsync
    rw [count_cons_self, replicate_succ]
    simp only [haccept, ihmany]
    refine ⟨fun _ => ?_, rfl⟩
    rcases Nat.eq_zero_or_pos (l.count (.data p.payload)) with hzero | hpos
    · -- no intact transmission follows, so the expected id stays what this one made it
      exact (deliver_localID_of_none p l _ hokl hzero).trans hnext
    · exact ihlast hpos
  · obtain ⟨-, hnone⟩ := receive_other w p a (hok a mem_cons_self) ha
    rw [count_cons_of_ne ha]
    simp only [hnone, nil_append]
    exact ⟨ihlast, ihmany⟩

/-! ## Epochs and streams -/

/-- Behind the first packet each one is accepted once; the induction is on the packets. -/
lemma deliver_rest : ∀ (l : List Sent) (id : UInt32) (w : KdWire), StopAndWait id l → w.localID = id →
      (w.deliver (l.flatMap Sent.stream)).2 = (l.filter (fun p => 0 < p.intact)).map Sent.packet := by
  intro l
  induction l with
  | nil =>
    intro id w _ _
    rfl
  | cons p l ih =>
  intro id w hwait hloc
  obtain ⟨hsync, hid, hok, hacked, hrest⟩ := hwait
  obtain ⟨hnext, hthis⟩ := deliver_arrivals_expected p hsync id hid p.arrivals w hok hloc
  rw [flatMap_cons, deliver_append]
  show (w.deliver (p.arrivals.map p.arrive)).2 ++ _ = _
  rw [hthis]
  rcases Nat.eq_zero_or_pos p.intact with hzero | hpos
  · -- only the last packet of an epoch can be missing
    have hlast : l = [] := by
      by_contra hl
      have := hacked hl
      omega
    subst hlast
    have hcount : ¬ 0 < p.arrivals.count (.data p.payload) := by
      rw [show p.arrivals.count (.data p.payload) = 0 from hzero]
      omega
    rw [if_neg hcount]
    simp [hzero, deliver]
  · have hcount : 0 < p.arrivals.count (.data p.payload) := hpos
    rw [if_pos hcount] at hnext ⊢
    have htail := ih (id ^^^ 1) _ hrest hnext
    rw [show (w.deliver p.stream).1 = (w.deliver (p.arrivals.map p.arrive)).1 from rfl, htail]
    simp [hpos]

/-- What the session must accept. -/
def Epoch.accepted (e : Epoch) : List KdPacket :=
  List.replicate e.first.intact e.first.packet ++ (e.rest.filter (fun p => 0 < p.intact)).map Sent.packet

/-- A packet with the sync bit is accepted every time it arrives. -/
lemma deliver_first (e : Epoch) (he : e.Follows) (w : KdWire) :
    (w.deliver ((e.first :: e.rest).flatMap Sent.stream)).2 = e.accepted := by
  obtain ⟨hloc, hmany⟩ := deliver_arrivals_sync e.first he.sync e.first.arrivals w he.arrivals
  rw [flatMap_cons, deliver_append]
  show (w.deliver (e.first.arrivals.map e.first.arrive)).2 ++ _ = _
  rw [hmany]
  by_cases hrest : e.rest = []
  · rw [Epoch.accepted, hrest]
    rfl
  · have hnext := hloc (he.acknowledged hrest)
    rw [Epoch.accepted, ← deliver_rest e.rest _ _ he.rest hnext]
    rfl

/-- What one epoch delivers. -/
lemma deliver_epoch (e : Epoch) (he : e.Follows) (w : KdWire) : (w.deliver e.stream).2 = e.accepted := by
  rw [Epoch.stream, deliver_append]
  show _ ++ (deliver _ _).2 = _
  rw [deliver_first e he]
  split_ifs <;> rfl

/-- What all epochs deliver. -/
lemma deliver_epochs (epochs : List Epoch) (hfoll : ∀ e ∈ epochs, e.Follows) (w : KdWire) :
    (w.deliver (epochs.flatMap Epoch.stream)).2 = epochs.flatMap Epoch.accepted := by
  induction epochs generalizing w with
  | nil => rfl
  | cons e epochs ih =>
    rw [flatMap_cons, deliver_append, flatMap_cons, deliver_epoch e (hfoll e mem_cons_self),
      ih (fun e he => hfoll e (mem_cons_of_mem _ he))]

/-- An epoch is accepted as it was sent when its first packet arrives intact at most once. -/
lemma accepted_eq_sequence (e : Epoch) (h : e.first.intact ≤ 1) : e.accepted = e.sequence := by
  unfold Epoch.accepted Epoch.sequence
  rcases Nat.eq_zero_or_pos e.first.intact with hzero | hpos
  · simp [hzero]
  · have hone : e.first.intact = 1 := by omega
    simp [hone]

lemma length_accepted (e : Epoch) : e.accepted.length = e.sequence.length + (e.first.intact - 1) := by
  unfold Epoch.accepted Epoch.sequence
  rcases Nat.eq_zero_or_pos e.first.intact with hzero | hpos
  · simp [hzero]
  · simp [hpos]
    omega

/-- The accepted packets of a stream that follows the protocol are those of the target, each once and in
order, exactly when no packet with the sync bit arrives intact a second time. -/
theorem delivered_once_iff (epochs : List Epoch) (hfollows : ∀ e ∈ epochs, e.Follows) (w : KdWire) :
    (w.deliver (epochs.flatMap Epoch.stream)).2 = epochs.flatMap Epoch.sequence ↔
      ∀ e ∈ epochs, e.first.intact ≤ 1 := by
  rw [deliver_epochs epochs hfollows]
  constructor
  · intro heq
    have hlength := congrArg List.length heq
    clear heq hfollows
    have hle : ∀ l : List Epoch, (l.flatMap Epoch.sequence).length ≤ (l.flatMap Epoch.accepted).length := by
      intro l
      induction l with
      | nil => exact Nat.le_refl _
      | cons e l ih =>
        rw [List.flatMap_cons, List.flatMap_cons, List.length_append, List.length_append, length_accepted]
        omega
    induction epochs with
    | nil => simp
    | cons e epochs ih =>
    rw [List.flatMap_cons, List.flatMap_cons, List.length_append, List.length_append, length_accepted] at hlength
    have htail := hle epochs
    intro e' he'
    rcases List.mem_cons.mp he' with rfl | he'
    · omega
    · exact ih (by omega) e' he'
  intro honce
  clear hfollows
  induction epochs with
  | nil => rfl
  | cons e epochs ih =>
    rw [List.flatMap_cons, List.flatMap_cons, accepted_eq_sequence e (honce e List.mem_cons_self),
      ih (fun e he => honce e (List.mem_cons_of_mem _ he))]

def threePackets : Epoch where
  reset := true
  first := .mk kdPacketDebugIO (kdInitialPacketID ||| kdSyncPacketID) [1] [.data [7], .data [1]]
  rest := [.mk kdPacketDebugIO (kdInitialPacketID ^^^ 1) [2] [.data [2], .control kdPacketAcknowledge 0, .data [2]],
    .mk kdPacketDebugIO kdInitialPacketID [3] [.data [3]]]

lemma threePackets_follows : threePackets.Follows := by
  refine ⟨by decide, by decide, by decide, ?_⟩
  exact ⟨by decide, by decide, by decide, by decide, by decide, by decide, by decide, by decide, trivial⟩

/-- Three packets, the first also damaged and the second twice, are delivered once each. -/
theorem delivered_once_iff_threePackets :
    (({} : KdWire).deliver ([threePackets].flatMap Epoch.stream)).2 = [threePackets].flatMap Epoch.sequence :=
  (delivered_once_iff [threePackets]
    (fun e he => by rw [List.mem_singleton.mp he]; exact threePackets_follows) {}).mpr
    (fun e he => by rw [List.mem_singleton.mp he]; decide)

/-- The first packet after a reset is sent again, since its acknowledgement is late. -/
def repeatedSync : Epoch where
  reset := true
  first := .mk kdPacketDebugIO (kdInitialPacketID ||| kdSyncPacketID) [1] [.data [1], .data [1]]
  rest := []

/-- A repeated packet with the sync bit is delivered twice. -/
theorem repeatedSync_delivered_twice :
    repeatedSync.Follows ∧ repeatedSync.sequence = [repeatedSync.first.packet] ∧
      (({} : KdWire).deliver repeatedSync.stream).2 = [repeatedSync.first.packet, repeatedSync.first.packet] := by
  exact ⟨⟨by decide, by decide, by decide, trivial⟩, by decide, by decide⟩

end Trex.Kd
