import Trex.Kd.Session
import Trex.Lib.Steps

/-!
# Which input panics

`Sound m s`: `m` does not panic on `s`.  Two functions index a payload without a check of its length:
`kdManipulateValue` and `handleFileCallback`.  So a session panics exactly on a short manipulate packet
that no request waits for, on a short reply to a call of `request`, and on a short file I/O packet with a
handler installed (`session_safe_iff`).
-/

namespace Trex.Kd

variable {α β : Type}

/-- The computation ends without a panic. -/
def Sound (m : Op Session Failure α) (s : Session) : Prop :=
  m.Ends s (fun _ _ => True) fun e _ => e ≠ .panic

lemma sound_pure (a : α) (s : Session) : Sound (pure a) s := trivial

lemma sound_modify (g : Session → Session) (s : Session) : Sound (Op.modify g) s := trivial

variable {x : Except Failure α} {s : Session} {m : Op Session Failure α}
  {f : α → Op Session Failure β} {data : Bytes} {packet : KdPacket}

lemma sound_ofExcept : Sound (Op.ofExcept x) s ↔ x ≠ .error .panic := by
  cases x with
  | ok a => simp [Sound, Op.Ends]
  | error e => simp [Sound, Op.Ends]

lemma sound_bind (hm : Sound m s) (hf : ∀ a s', Sound (f a) s') : Sound (m >>= f) s :=
  Op.ends_bind.mpr (hm.imp (fun a s' _ => hf a s') fun _ _ h => h)

/-- When nothing behind it panics, a computation panics exactly when its first part does. -/
lemma sound_bind_iff (hf : ∀ a s', Sound (f a) s') : Sound (m >>= f) s ↔ Sound m s := by
  constructor
  · intro h
    exact (Op.ends_bind.mp h).imp (fun _ _ _ => trivial) fun _ _ he => he
  · intro hm
    exact sound_bind hm hf

/-- What stands behind a check may use that the check has passed. -/
lemma sound_failIf_bind {c : Prop} [Decidable c] {text : String} {f : Unit → Op Session Failure β}
    (hf : ¬ c → Sound (f ()) s) : Sound (Op.failIf c (.protocol text) >>= f) s := by
  apply Op.ends_bind.mpr
  rw [Op.ends_failIf]
  split_ifs with hc
  · nofun
  · exact hf hc

lemma sound_modify_bind {g : Session → Session} {f : Unit → Op Session Failure β} :
    Sound (Op.modify g >>= f) s ↔ Sound (f ()) (g s) := Iff.rfl

lemma sound_gets_bind {g : Session → α} : Sound (Op.gets g >>= f) s ↔ Sound (f (g s)) s := Iff.rfl

lemma sound_get_bind {f : Session → Op Session Failure β} : Sound (Op.get >>= f) s ↔ Sound (f s) s := Iff.rfl

/-! ## Slices -/

lemma slice_ne_panic {low high : Nat} : slice data low high ≠ .error .panic ↔ low ≤ high ∧ high ≤ data.length := by
  unfold slice
  split_ifs with h
  · simp [h]
  · simp only [ne_eq, not_true_eq_false, false_iff]
    exact h

lemma index_ne_panic {i : Nat} (h : i < data.length) : index data i ≠ .error .panic := by
  unfold index
  rw [List.getElem?_eq_getElem h]
  nofun

lemma bind_pure_ne_panic {f : α → β} : (do let a ← x; pure (f a)) ≠ .error .panic ↔ x ≠ .error .panic := by
  cases x with
  | ok a => simp [bind, Except.bind, pure, Except.pure]
  | error e => simp [bind, Except.bind]

/-- A manipulate packet of less than 16 bytes panics. -/
lemma kdManipulateValue_ne_panic : kdManipulateValue packet ≠ .error .panic ↔ 16 ≤ packet.payload.length := by
  unfold kdManipulateValue
  rw [bind_pure_ne_panic, slice_ne_panic, kdManipulateSize]
  omega

lemma kdDebugIOValue_ne_panic (packet : KdPacket) : kdDebugIOValue packet ≠ .error .panic := by
  unfold kdDebugIOValue
  rw [bind_pure_ne_panic, slice_ne_panic]
  exact ⟨Nat.zero_le _, Nat.min_le_right _ _⟩

/-- A file request shorter than its header panics. -/
lemma fileResponse_ne_panic {status : UInt32} :
    fileResponse packet status ≠ .error .panic ↔ kdFileIOSize ≤ packet.payload.length := by
  unfold fileResponse
  rw [bind_pure_ne_panic, slice_ne_panic]
  omega

/-! ## The handlers -/

lemma sound_publish (event : KdEvent) (s : Session) : Sound (publish event) s := by
  unfold publish
  rw [sound_get_bind]
  split_ifs
  · exact sound_modify _ _
  · exact sound_modify _ _

/-- The last two steps of every packet that becomes an event. -/
lemma sound_publish_event (event : KdEvent) (s : Session) : Sound (do publish event; return Outcome.event) s :=
  sound_bind (sound_publish event s) fun _ s' => sound_pure _ s'

lemma sound_stateChangeEvent (packet : KdPacket) (s : Session) : Sound (stateChangeEvent packet) s := by
  unfold stateChangeEvent
  apply sound_failIf_bind
  intro hsize
  have hsize : 240 ≤ packet.payload.length := by
    unfold kdStateChangeSize at hsize
    omega
  rw [noteState, sound_modify_bind, sound_gets_bind]
  split_ifs
  · exact sound_pure _ _
  · apply sound_bind
    · rw [sound_ofExcept, slice_ne_panic]
      omega
    intro path s'
    apply sound_bind
    · rw [sound_ofExcept]
      exact index_ne_panic (by omega)
    · intro unload s''
      exact sound_pure _ _
  · apply sound_bind
    · rw [sound_ofExcept, slice_ne_panic, kdStateChangeSize]
      omega
    · intro data s'
      exact sound_pure _ _
  · exact sound_pure _ _

lemma sound_stateChange32Event (packet : KdPacket) (s : Session) : Sound (stateChange32Event packet) s := by
  unfold stateChange32Event
  apply sound_failIf_bind
  intro hsize
  rw [noteState, sound_modify_bind, sound_gets_bind]
  split_ifs
  · apply sound_failIf_bind
    intro _
    exact sound_pure _ _
  · apply sound_failIf_bind
    intro hload
    apply sound_failIf_bind
    intro hlength
    apply sound_bind
    · rw [sound_ofExcept, slice_ne_panic]
      omega
    intro path s'
    apply sound_bind
    · rw [sound_ofExcept]
      exact index_ne_panic (by omega)
    · intro unload s''
      exact sound_pure _ _
  · apply sound_bind
    · rw [sound_ofExcept, slice_ne_panic]
      omega
    · intro data s'
      exact sound_pure _ _
  · exact sound_pure _ _

lemma sound_queueData (kind : UInt16) (pay : Bytes) (s : Session) : Sound (queueData kind pay) s := by
  unfold queueData
  rw [sound_get_bind]
  apply sound_failIf_bind
  intro _
  exact sound_modify _ _

/-- `rejectFileIO` looks at the length before it copies the header. -/
lemma sound_rejectFile (packet : KdPacket) (s : Session) : Sound ( rejectFileIO packet) s := by
  unfold rejectFileIO
  apply sound_failIf_bind
  intro hsize
  apply sound_bind
  · rw [sound_ofExcept, fileResponse_ne_panic]
    omega
  · intro response s'
    exact sound_queueData _ _ _

/-- An accepted packet that does not panic: a manipulate packet answers the pending request or has 16
bytes. -/
def HandledSafely (packet : KdPacket) (s : Session) : Prop :=
  packet.type = kdPacketStateManipulate → s.pending ≠ some (kdU32 packet.payload 0) → 16 ≤ packet.payload.length

/-- When handling a data packet does not panic. -/
lemma sound_handleData (packet : KdPacket) (s : Session) : Sound (handleData packet) s ↔ HandledSafely packet s := by
  have hoth : packet.type ≠ kdPacketStateManipulate → HandledSafely packet s := fun h ht => absurd ht h
  unfold handleData
  split_ifs with h32 h64 hmanip hdebug hfile
  · refine iff_of_true ?_ (hoth (by rw [h32]; decide))
    exact sound_bind (sound_stateChange32Event packet s) fun event s' => sound_publish_event event s'
  · refine iff_of_true ?_ (hoth (by rw [h64]; decide))
    exact sound_bind (sound_stateChangeEvent packet s) fun event s' => sound_publish_event event s'
  · rw [sound_gets_bind]
    split_ifs with hpend
    · exact iff_of_true trivial fun _ hne => absurd hpend hne
    · rw [sound_bind_iff fun val s' => sound_publish_event _ s', sound_ofExcept, kdManipulateValue_ne_panic]
      exact ⟨fun h _ _ => h, fun h => h hmanip hpend⟩
  · refine iff_of_true ?_ (hoth (by rw [hdebug]; decide))
    exact sound_bind (sound_ofExcept.mpr (kdDebugIOValue_ne_panic packet)) fun val s' => sound_publish_event _ s'
  · refine iff_of_true ?_ (hoth (by rw [hfile]; decide))
    rw [sound_gets_bind]
    split_ifs
    · exact sound_publish_event _ s
    · exact sound_bind (sound_rejectFile packet s) fun _ s' => sound_publish_event _ s'
  · refine iff_of_true ?_ (hoth hmanip)
    exact sound_publish_event _ s

lemma readLeader_ne_panic (input window : Bytes) : readLeader window input ≠ .error .panic := by
  induction input generalizing window with
  | nil => nofun
  | cons value input ih =>
  rw [readLeader]
  split_ifs
  · nofun
  · exact ih _
  · nofun
  · exact ih _

lemma readFull_ne_panic (n : Nat) (input : Bytes) : readFull n input ≠ .error .panic := by
  unfold readFull
  split_ifs <;> nofun

lemma bind_ne_panic {f : α → Except Failure β} (hx : x ≠ .error .panic)
    (hf : ∀ a, f a ≠ .error .panic) : (x >>= f) ≠ .error .panic := by
  cases x with
  | ok a => exact hf a
  | error e =>
  intro h
  cases h
  exact hx rfl

/-- What `readPacket` refuses, it refuses with an error. -/
lemma readPacket_ne_panic (maximum : Nat) (input : Bytes) : readPacket maximum input ≠ .error .panic := by
  unfold readPacket
  apply bind_ne_panic (readLeader_ne_panic _ _)
  rintro ⟨leaderData, afterLeader⟩
  simp only
  split
  · nofun
  apply bind_ne_panic (readFull_ne_panic _ _)
  rintro ⟨rest, afterHeader⟩
  split
  · nofun
  split
  · nofun
  apply bind_ne_panic (readFull_ne_panic _ _)
  rintro ⟨pay, afterPayload⟩
  apply bind_ne_panic (readFull_ne_panic _ _)
  rintro ⟨trailing, afterTrailing⟩
  simp only
  split
  · nofun
  · nofun

/-- The condition under which a turn of the reader does not panic. -/
def TurnSafely (s : Session) : Prop :=
  ∀ packet rest, readPacket s.maximum s.input = .ok (packet, rest) → packet.leader ≠ kdBreakinPacket →
    packet.leader ≠ kdControlPacketLeader → (s.wire.validateAndAcknowledge packet).2.1 = true →
    HandledSafely packet s

/-- When handling a packet does not panic. -/
lemma sound_handlePacket (packet : KdPacket) (s : Session) : Sound (handlePacket packet) s ↔
      (packet.leader ≠ kdBreakinPacket → packet.leader ≠ kdControlPacketLeader →
        (s.wire.validateAndAcknowledge packet).2.1 = true → HandledSafely packet s) := by
  unfold handlePacket
  split_ifs with hbreak hcontrol hreset
  · exact iff_of_true (sound_publish_event _ s) fun h => absurd hbreak h
  · rw [sound_modify_bind, sound_modify_bind, sound_gets_bind]
    exact iff_of_true (sound_publish_event _ _) fun _ h => absurd hcontrol h
  · rw [sound_modify_bind]
    exact iff_of_true (sound_publish_event _ _) fun _ h => absurd hcontrol h
  · rw [sound_gets_bind, sound_modify_bind]
    split_ifs with hval
    · rw [sound_handleData]
      exact ⟨fun h _ _ _ => h, fun h => h hbreak hcontrol hval⟩
    · exact iff_of_true (sound_pure _ _) fun _ _ h => absurd h hval

/-- When a turn of the reader does not panic. -/
lemma sound_readTurn (s : Session) : Sound readTurn s ↔ TurnSafely s := by
  unfold readTurn TurnSafely
  rw [sound_get_bind]
  cases hread : readPacket s.maximum s.input with
  | error e =>
    refine iff_of_true ?_ nofun
    intro he
    exact readPacket_ne_panic s.maximum s.input (by rw [hread, he])
  | ok r =>
  obtain ⟨packet, rest⟩ := r
  have hturn : Sound (Op.ofExcept (Except.ok (packet, rest)) >>= fun r : KdPacket × Bytes => do
      Op.modify fun s => { s with input := r.2 }
      handlePacket r.1) s ↔ Sound (handlePacket packet) { s with input := rest } := Iff.rfl
  refine hturn.trans ((sound_handlePacket packet _).trans ?_)
  constructor
  · intro h packet' rest' heq
    cases heq
    exact h
  · intro h
    exact h packet rest rfl

/-- `next_event` does not panic on this event. -/
def ConsumedSafely (event : KdEvent) (s : Session) : Prop :=
  ∀ packet, event.file = some packet → s.fileHandler = true → kdFileIOSize ≤ packet.payload.length

/-- When answering a file request does not panic. -/
lemma sound_handleFileCallback (packet : KdPacket) (result : HandlerResult) (s : Session) :
    Sound (handleFileCallback packet result) s ↔ (s.fileHandler = true → kdFileIOSize ≤ packet.payload.length) := by
  unfold handleFileCallback
  rw [sound_gets_bind]
  split_ifs with hhandler
  · dsimp only
    rw [sound_bind_iff ?_, sound_ofExcept, fileResponse_ne_panic]
    · exact ⟨fun h _ => h, fun h => h hhandler⟩
    · intro response s'
      rw [sound_modify_bind]
      split
      · nofun
      · exact sound_pure _ _
  · exact iff_of_true (sound_rejectFile packet s) fun h => absurd h hhandler

lemma sound_consumeEvent (event : KdEvent) (result : HandlerResult) (s : Session) :
    Sound (consumeEvent event result) s ↔ ConsumedSafely event s := by
  unfold consumeEvent ConsumedSafely
  cases hfile : event.file with
  | none => exact iff_of_true (sound_pure _ _) nofun
  | some packet =>
  rw [sound_bind_iff fun _ s' => sound_pure _ s', sound_handleFileCallback]
  constructor
  · intro h packet' hpacket
    cases hpacket
    exact h
  · intro h
    exact h packet rfl

/-! ## Replies -/

lemma contextBytes_ne_panic (size contextSize : Nat) (name : String) :
    contextBytes size contextSize name data ≠ .error .panic := by
  unfold contextBytes
  dsimp only
  split_ifs with hshort
  · nofun
  · rw [slice_ne_panic]
    omega

lemma checkStatus_ne_panic (name : String) : checkStatus name data ≠ .error .panic := by
  unfold checkStatus
  dsimp only
  split_ifs
  · nofun
  · nofun

lemma contextValue_ne_panic (s : Session) (architecture : String) (packet : KdPacket) :
    contextValue s architecture packet ≠ .error .panic := by
  unfold contextValue
  apply bind_ne_panic (checkStatus_ne_panic _)
  intro _
  split_ifs
  · rw [bind_pure_ne_panic]
    exact contextBytes_ne_panic _ _ _
  · nofun
  · rw [bind_pure_ne_panic]
    exact contextBytes_ne_panic _ _ _

/-- The count that the target names is checked against what is there. -/
lemma readMemoryReply_ne_panic (name : String) (size actualOffset length : Nat) (packet : KdPacket) :
    readMemoryReply name size actualOffset length packet ≠ .error .panic := by
  unfold readMemoryReply
  apply bind_ne_panic (checkStatus_ne_panic _)
  intro _
  dsimp only
  split_ifs with hinvalid
  · nofun
  · rw [slice_ne_panic]
    omega

/-- A call of `request` needs a reply of 16 bytes; the other callers look before they slice. -/
lemma take_ne_panic (s : Session) (packet : KdPacket) (caller : Caller) :
    caller.take s packet ≠ .error .panic ↔ (caller = .request → 16 ≤ packet.payload.length) := by
  cases caller with
  | request =>
    rw [Caller.take, bind_pure_ne_panic, kdManipulateValue_ne_panic]
    simp
  | context architecture =>
    rw [Caller.take, bind_pure_ne_panic]
    exact iff_of_true (contextValue_ne_panic _ _ _) nofun
  | readMemory name size actualOffset length =>
    rw [Caller.take, bind_pure_ne_panic]
    exact iff_of_true (readMemoryReply_ne_panic _ _ _ _ _) nofun
  | fields => exact iff_of_true nofun nofun

/-! ## Runs of the session -/

/-- What a call needs in order not to panic. -/
def SafeCall (s : Session) : Call → Prop
  | .receive => s.reading = true → TurnSafely s
  | .nextEvent _ => ∀ event rest, s.events = event :: rest → ConsumedSafely event s
  | .reply => ∀ packet, s.caller = some .request → s.reply = some packet → 16 ≤ packet.payload.length
  | _ => True

lemma sound_iff : Sound m s ↔ (m s).1 ≠ .error .panic := by
  unfold Sound Op.Ends
  cases hm : m s with
  | mk r s' =>
  cases r with
  | ok a => simp
  | error e => simp

/-- A step is possible exactly if it does not panic. -/
lemma isSome_step (s : Session) (c : Call) : (s.step c).isSome ↔ SafeCall s c := by
  cases c with
  | receive =>
    simp only [Session.step, SafeCall]
    split
    next hreading =>
      rw [← sound_readTurn, sound_iff]
      simp only [hreading, forall_const]
      split
      next r s' hturn => simp [hturn]
      next text s' hturn => simp [hturn]
      next s' hturn => simp [hturn]
    next hreading => simp [hreading]
  | nextEvent result =>
    simp only [Session.step, SafeCall]
    cases hevents : s.events with
    | nil => simp
    | cons event rest =>
    have hconsume := (sound_consumeEvent event result { s with events := rest }).symm.trans sound_iff
    simp only
    split
    next s' hend =>
      rw [hend] at hconsume
      refine iff_of_false (by simp) ?_
      intro h
      exact hconsume.mp (h event rest rfl) rfl
    next r s' hnot hend =>
    refine iff_of_true rfl ?_
    intro event' rest' heq
    cases heq
    apply hconsume.mpr
    intro hpanic
    rw [hend] at hpanic
    exact hnot hpanic
  | setFileHandler installed => simp [Session.step, SafeCall]
  | request api caller =>
    simp only [Session.step, SafeCall]
    split_ifs
    · simp
    · simp
  | reply =>
    simp only [Session.step, SafeCall]
    split
    next caller packet hcaller hreply =>
      have htake := take_ne_panic s packet caller
      simp only [hcaller, hreply, Option.some.injEq]
      split
      next hpanic =>
        refine iff_of_false (by simp) fun h => ?_
        exact htake.mpr (fun hrequest => h packet hrequest rfl) hpanic
      next hnot =>
        refine iff_of_true rfl ?_
        rintro _ hrequest rfl
        exact htake.mp hnot hrequest
    next hnone =>
      refine iff_of_true rfl ?_
      intro packet hcaller hreply
      exact absurd hreply (hnone _ _ hcaller)
  | clearPending => simp [Session.step, SafeCall]

/-- No payload is indexed outside its bounds exactly when each turn of `readLoop` accepts no manipulate
packet of fewer than 16 bytes that is not the pending reply, each call of `request` that returns has a
reply of at least 16 bytes, and each `next_event` finds no file I/O packet of fewer than 64 bytes while a
handler is installed. -/
theorem session_safe_iff (s : Session) (calls : List Call) :
    (Steps.run Session.step s calls).isSome ↔ Steps.Always Session.step SafeCall s calls :=
  Steps.isSome_run_iff isSome_step

def packetBytes (type sum : UInt8) (payload : Bytes) : Bytes :=
  [0x30, 0x30, 0x30, 0x30, type, 0, UInt8.ofNat payload.length, 0, 0x00, 0x08, 0x80, 0x80, sum, 0, 0, 0]
    ++ payload ++ [kdTrailingByte]

/-- A manipulate packet of four bytes panics when it arrives, or as the reply to `request` when the call
returns, and a file I/O packet of one byte when it is consumed. -/
theorem short_packets_panic :
    Steps.run Session.step { maximum := 0xffff, eventQueue := 512, input := packetBytes 2 0x61 [0x30, 0x31, 0, 0] }
        [.receive] = none ∧
      Steps.run Session.step { maximum := 0xffff, eventQueue := 512, input := packetBytes 2 0x61 [0x30, 0x31, 0, 0] }
        [.request 0x3130 .request, .receive, .reply] = none ∧
      Steps.run Session.step { maximum := 0xffff, eventQueue := 512, input := packetBytes 11 0x30 [0x30] }
        [.setFileHandler true, .receive, .nextEvent (.dict none none)] = none := by
  decide +kernel

end Trex.Kd
