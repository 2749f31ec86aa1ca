import Mathlib.Data.List.DropRight
import Trex.Kd.Wire
import Trex.Lib.Op

/-!
# The session's handling of input (`windows/kd/session.go`, `methods.go`)

A packet becomes an event in the queue, the reply to a pending request, or an error; `next_event`
consumes the events and runs the file handler, and the call that waits for a reply takes it apart.  A
slice or an index outside its payload ends in `Failure.panic`.
-/

namespace Trex.Kd

def kdStateException : UInt32 := 0x3030
def kdStateLoadSymbols : UInt32 := 0x3031
def kdStateCommand : UInt32 := 0x3032

def kdAPICreateFile : UInt32 := 0x3430

def kdStatusObjectNameNotFound : UInt32 := 0xc0000034
def kdStatusInvalidHandle : UInt32 := 0xc0000008

def kdStateChangeSize : Nat := 240
def kdManipulate32Size : Nat := 52
def kdManipulateSize : Nat := 56
def kdFileIOSize : Nat := 64

/-! ## Slices -/

/-- `data[low:high]`. -/
def slice (data : Bytes) (low high : Nat) : Except Failure Bytes :=
  if low ≤ high ∧ high ≤ data.length then .ok ((data.take high).drop low) else .error .panic

/-- `data[i]`. -/
def index (data : Bytes) (i : Nat) : Except Failure UInt8 :=
  match data[i]? with
  | some value => .ok value
  | none => .error .panic

/-! ## Events -/

/-- The values of the records that the events carry. -/
inductive Value where
  | string (text : String)
  | path (text : Bytes)
  | uint (n : Nat)
  | bytes (data : Bytes)
  | bool (b : Bool)
  | list (l : List Nat)
deriving DecidableEq, Repr

abbrev Record := List (String × Value)

/-- An event in the queue, with the packet of a file request. -/
structure KdEvent where
  kind : String
  value : Record
  file : Option KdPacket := none
deriving DecidableEq, Repr

/-- The calls of `request`, by what they do with the reply. -/
inductive Caller where
  | request
  | context (architecture : String)
  /-- `read_virtual` and `read_physical`: one turn of their loop, with the layout from before the request -/
  | readMemory (name : String) (manipulateSize actualOffset length : Nat)
  /-- the others, which look at the reply through `kdU32` only -/
  | fields
deriving DecidableEq, Repr

/-- The session as the reader and its callers see it. -/
structure Session where
  /-- `packet_limit` -/
  maximum : Nat
  /-- the capacity of the channel `events` -/
  eventQueue : Nat
  /-- what the channel still delivers -/
  input : Bytes
  wire : KdWire := {}
  /-- `readLoop` has not returned -/
  reading : Bool := true
  readerErr : Option String := none
  /-- the API number of the pending request -/
  pending : Option UInt32 := none
  /-- the call that holds `requestMu` -/
  caller : Option Caller := none
  /-- what the channel of that call holds -/
  reply : Option KdPacket := none
  fileHandler : Bool := false
  events : List KdEvent := []
  /-- the channel `outbound`, as far as the handling of input fills it -/
  outbound : List (UInt16 × Bytes) := []
  processor : UInt16 := 0
  processorLevel : UInt16 := 0
  stopped : Bool := false
  stopGeneration : Nat := 0
  protocolKnown : Bool := false
  target64 : Bool := false
deriving DecidableEq, Repr

/-- What became of a packet that is no error of the protocol. -/
inductive Outcome where
  | event
  | reply (packet : KdPacket)
  | ignored
deriving DecidableEq, Repr

/-- The first error of the reader stays. -/
def fail (text : String) : Op Session Failure Unit :=
  Op.modify fun s => { s with readerErr := some (s.readerErr.getD text) }

/-- Puts an event in the queue; a full queue is an error of the reader. -/
def publish (event : KdEvent) : Op Session Failure Unit := do
  let s ← Op.get
  if s.events.length < s.eventQueue then Op.modify fun s => { s with events := s.events ++ [event] }
  else fail "KD event queue overflow"

/-- A packet as a record. -/
def kdPacketValue (packet : KdPacket) (kind : String) : Record :=
  [("kind", .string kind), ("packet_type", .uint packet.type.toNat), ("packet_id", .uint packet.id.toNat),
    ("payload", .bytes packet.payload)]

/-- A manipulate packet as a record; a short one panics. -/
def kdManipulateValue (packet : KdPacket) : Except Failure Record := do
  let data := if packet.payload.length > kdManipulateSize then packet.payload.drop kdManipulateSize else []
  let arguments ← slice packet.payload 16 (min packet.payload.length kdManipulateSize)
  return [("kind", .string "manipulate"), ("api", .uint (kdU32 packet.payload 0).toNat),
    ("status", .uint (kdU32 packet.payload 8).toNat), ("processor", .uint (kdU16 packet.payload 6).toNat),
    ("arguments", .bytes arguments), ("data", .bytes data), ("packet_id", .uint packet.id.toNat)]

/-- A debug output packet as a record. -/
def kdDebugIOValue (packet : KdPacket) : Except Failure Record := do
  let data := if packet.payload.length > 16 then packet.payload.drop 16 else []
  let length := min (kdU32 packet.payload 8).toNat data.length
  let data ← slice data 0 length
  return [("kind", .string "debug_io"), ("api", .uint (kdU32 packet.payload 0).toNat), ("data", .bytes data),
    ("packet_id", .uint packet.id.toNat)]

/-- A file request as a record. -/
def kdFileIOValue (packet : KdPacket) : Record :=
  let data := if packet.payload.length > kdFileIOSize then packet.payload.drop kdFileIOSize else []
  [("kind", .string "file_io"), ("api", .uint (kdU32 packet.payload 0).toNat),
    ("status", .uint (kdU32 packet.payload 4).toNat), ("data", .bytes data), ("packet_id", .uint packet.id.toNat)]

/-- Notes the processor of a state change, and that the target has stopped. -/
def noteState (packet : KdPacket) (target64 : Bool) : Op Session Failure Unit :=
  Op.modify fun s => { s with
    processorLevel := kdU16 packet.payload 4, processor := kdU16 packet.payload 6, stopped := true
    protocolKnown := true, target64 := target64, stopGeneration := s.stopGeneration + 1 }

def stateFields (kind reason : String) (packet : KdPacket) (programCounter generation : Nat) : Record :=
  [("kind", .string kind), ("state", .uint (kdU32 packet.payload 0).toNat),
    ("processor", .uint (kdU16 packet.payload 6).toNat), ("processor_level", .uint (kdU16 packet.payload 4).toNat),
    ("program_counter", .uint programCounter), ("packet_id", .uint packet.id.toNat),
    ("packet_size", .uint packet.payload.length), ("raw", .bytes packet.payload),
    ("generation", .uint generation), ("reason", .string reason), ("resumable", .bool true)]

def trimPath (path : Bytes) : Bytes := path.rdropWhile (· == 0)

/-- A state change of 64 bits. -/
def stateChangeEvent (packet : KdPacket) : Op Session Failure KdEvent := do
  let size := packet.payload.length
  Op.failIf (size < kdStateChangeSize)
    (.protocol s!"KD state change has {size} bytes, want {kdStateChangeSize}")
  let state := kdU32 packet.payload 0
  noteState packet true
  let generation ← Op.gets Session.stopGeneration
  let fields := fun kind reason => stateFields kind reason packet (kdU64 packet.payload 24).toNat generation
  if state = kdStateException then
    let count := min (kdU32 packet.payload 56).toNat 15
    return { kind := "exception", value := fields "exception" "exception" ++
      [("code", .uint (kdU32 packet.payload 32).toNat), ("address", .uint (kdU64 packet.payload 48).toNat),
        ("first_chance", .uint (kdU32 packet.payload 184).toNat),
        ("parameters", .list ((List.range count).map fun i => (kdU64 packet.payload (64 + i * 8)).toNat))] }
  else if state = kdStateLoadSymbols then
    let length := min (kdU32 packet.payload 32).toNat (size - kdStateChangeSize)
    let path ← Op.ofExcept (slice packet.payload (size - length) size)
    let unload ← Op.ofExcept (index packet.payload 64)
    return { kind := "load_symbols", value := fields "load_symbols" "load-symbols" ++
      [("path", .path (trimPath path)), ("base", .uint (kdU64 packet.payload 40).toNat),
        ("size", .uint (kdU32 packet.payload 60).toNat), ("unload", .bool (unload ≠ 0))] }
  else if state = kdStateCommand then
    let data ← Op.ofExcept (slice packet.payload kdStateChangeSize size)
    return { kind := "command_string", value := fields "command_string" "state" ++ [("data", .bytes data)] }
  else return { kind := "state", value := fields "state" "state" }

/-- A state change of 32 bits. -/
def stateChange32Event (packet : KdPacket) : Op Session Failure KdEvent := do
  let headerSize := 20
  let size := packet.payload.length
  Op.failIf (size < headerSize) (.protocol s!"KD32 state change has {size} bytes, want at least {headerSize}")
  let state := kdU32 packet.payload 0
  noteState packet false
  let generation ← Op.gets Session.stopGeneration
  let fields := fun kind reason => stateFields kind reason packet (kdU32 packet.payload 16).toNat generation
  if state = kdStateException then
    Op.failIf (size < 104) (.protocol s!"KD32 exception state has {size} bytes, want at least 104")
    let count := min (kdU32 packet.payload 36).toNat 15
    return { kind := "exception", value := fields "exception" "exception" ++
      [("code", .uint (kdU32 packet.payload 20).toNat), ("address", .uint (kdU32 packet.payload 32).toNat),
        ("first_chance", .uint (kdU32 packet.payload 100).toNat),
        ("parameters", .list ((List.range count).map fun i => (kdU32 packet.payload (40 + i * 4)).toNat))] }
  else if state = kdStateLoadSymbols then
    Op.failIf (size < 44) (.protocol s!"KD32 load-symbols state has {size} bytes, want at least 44")
    let length := (kdU32 packet.payload 20).toNat
    Op.failIf (length > size - 44) (.protocol s!"KD32 image path length {length} exceeds packet")
    let path ← Op.ofExcept (slice packet.payload (size - length) size)
    let unload ← Op.ofExcept (index packet.payload 40)
    return { kind := "load_symbols", value := fields "load_symbols" "load-symbols" ++
      [("path", .path (trimPath path)), ("base", .uint (kdU32 packet.payload 24).toNat),
        ("size", .uint (kdU32 packet.payload 36).toNat), ("unload", .bool (unload ≠ 0))] }
  else if state = kdStateCommand then
    let data ← Op.ofExcept (slice packet.payload headerSize size)
    return { kind := "command_string", value := fields "command_string" "state" ++ [("data", .bytes data)] }
  else return { kind := "state", value := fields "state" "state" }

/-- Puts a packet in the queue of the writer. -/
def queueData (kind : UInt16) (payload : Bytes) : Op Session Failure Unit := do
  let s ← Op.get
  Op.failIf (64 ≤ s.outbound.length) (.protocol "KD outbound queue overflow")
  Op.modify fun s => { s with outbound := s.outbound ++ [(kind, payload)] }

/-- The first 64 bytes of a file I/O packet with a new status. -/
def fileResponse (packet : KdPacket) (status : UInt32) : Except Failure Bytes := do
  let response ← slice packet.payload 0 kdFileIOSize
  return response.take 4 ++ LittleEndian.put 4 status.toNat ++ response.drop 8

/-- Answers a file request with the status of a missing file or a bad handle. -/
def rejectFileIO (packet : KdPacket) : Op Session Failure Unit := do
  Op.failIf (packet.payload.length < kdFileIOSize) (.protocol "KD file I/O packet is too short")
  let status := if kdU32 packet.payload 0 = kdAPICreateFile then kdStatusObjectNameNotFound else kdStatusInvalidHandle
  let response ← Op.ofExcept (fileResponse packet status)
  queueData kdPacketFileIO response

/-- What the reader does with a data packet that was accepted. -/
def handleData (packet : KdPacket) : Op Session Failure Outcome := do
  if packet.type = kdPacketStateChange32 then
    let event ← stateChange32Event packet
    publish event
    return .event
  else if packet.type = kdPacketStateChange64 then
    let event ← stateChangeEvent packet
    publish event
    return .event
  else if packet.type = kdPacketStateManipulate then
    let pending ← Op.gets Session.pending
    if pending = some (kdU32 packet.payload 0) then
      Op.modify fun s => { s with pending := none, reply := some packet }
      return .reply packet
    else
      let value ← Op.ofExcept (kdManipulateValue packet)
      publish { kind := "manipulate", value := value }
      return .event
  else if packet.type = kdPacketDebugIO then
    let value ← Op.ofExcept (kdDebugIOValue packet)
    publish { kind := "debug_io", value := value }
    return .event
  else if packet.type = kdPacketFileIO then
    let hasHandler ← Op.gets Session.fileHandler
    if hasHandler then
      publish { kind := "file_io", value := kdFileIOValue packet, file := some packet }
      return .event
    else
      rejectFileIO packet
      publish { kind := "file_io", value := kdFileIOValue packet }
      return .event
  else
    publish { kind := "packet", value := kdPacketValue packet "packet" }
    return .event

/-- What the reader does with a packet. -/
def handlePacket (packet : KdPacket) : Op Session Failure Outcome := do
  if packet.leader = kdBreakinPacket then
    publish { kind := "breakin", value := [("kind", .string "breakin")] }
    return .event
  else if packet.leader = kdControlPacketLeader then
    Op.modify fun s => { s with wire := (s.wire.handleControl packet).1 }
    if packet.type = kdPacketReset then
      Op.modify fun s => { s with
        stopped := false, protocolKnown := false, stopGeneration := s.stopGeneration + 1 }
      let generation ← Op.gets Session.stopGeneration
      publish { kind := "reset", value := [("generation", .uint generation), ("kind", .string "reset"),
        ("reason", .string "rebooted"), ("resumable", .bool false)] }
      return .event
    else
      publish { kind := "control", value := kdPacketValue packet "control" }
      return .event
  else
    let valid ← Op.gets fun s => (s.wire.validateAndAcknowledge packet).2.1
    Op.modify fun s => { s with wire := (s.wire.validateAndAcknowledge packet).1 }
    if valid then handleData packet else return .ignored

/-- One turn of `readLoop`. -/
def readTurn : Op Session Failure Outcome := do
  let s ← Op.get
  let (packet, rest) ← Op.ofExcept (readPacket s.maximum s.input)
  Op.modify fun s => { s with input := rest }
  handlePacket packet

/-! ## Consuming events -/

/-- What a call of the file handler returns: an error, no dictionary, or one with a status (`none` for no
integer) and data that `BytesForValue` takes or refuses. -/
inductive HandlerResult where
  | error (text : String)
  | noDict (type : String)
  | dict (status : Option (Option Nat)) (data : Option (Except String Bytes))

/-- The status, the output and the error with which `handleFileCallback` goes on. -/
def handlerAnswer : HandlerResult → Nat × Bytes × Option String
  | .error text => (kdStatusInvalidHandle.toNat, [], some text)
  | .noDict type => (kdStatusInvalidHandle.toNat, [], some s!"KD file handler returned {type}, want dict")
  | .dict status data =>
    let (value, err) := match status with
      | none => (kdStatusInvalidHandle.toNat, none)
      | some none => (kdStatusInvalidHandle.toNat, some "KD file handler returned invalid status")
      | some (some n) => (n, if n ≥ 2 ^ 32 then some "KD file handler returned invalid status" else none)
    -- the data decides about the error once more
    match data with
    | none => (value, [], err)
    | some (.ok output) => (value, output, none)
    | some (.error text) => (value, [], some text)

/-- Queues the answer of the file handler; without a handler the request is rejected. -/
def handleFileCallback (packet : KdPacket) (result : HandlerResult) : Op Session Failure Unit := do
  let handler ← Op.gets Session.fileHandler
  if handler then
    let (status, output, callbackErr) := handlerAnswer result
    let response ← Op.ofExcept (fileResponse packet (UInt32.ofNat status))
    Op.modify fun s => { s with outbound := s.outbound ++ [.mk kdPacketFileIO (response ++ output)] }
    match callbackErr with
    | some text => Op.throw (.protocol text)
    | none => pure ()
  else rejectFileIO packet

/-- What `next_event` does with an event: a file request is answered. -/
def consumeEvent (event : KdEvent) (result : HandlerResult) : Op Session Failure Record := do
  match event.file with
  | some packet => handleFileCallback packet result
  | none => pure ()
  return event.value

/-! ## Replies -/

/-- The size of the header of a manipulate packet (`manipulateLayout`). -/
def Session.manipulateSize (s : Session) : Nat :=
  if s.protocolKnown ∧ s.target64 = false then kdManipulate32Size else kdManipulateSize

def amd64Registers : List (String × Nat) :=
  [("rax", 120), ("rcx", 128), ("rdx", 136), ("rbx", 144), ("rsp", 152), ("rbp", 160), ("rsi", 168), ("rdi", 176),
    ("r8", 184), ("r9", 192), ("r10", 200), ("r11", 208), ("r12", 216), ("r13", 224), ("r14", 232), ("r15", 240),
    ("rip", 248)]

def i386Registers : List (String × Nat) :=
  [("edi", 156), ("esi", 160), ("ebx", 164), ("edx", 168), ("ecx", 172), ("eax", 176), ("ebp", 180), ("eip", 184),
    ("eflags", 192), ("esp", 196)]

/-- A context record behind the header of the reply. -/
def contextBytes (manipulateSize contextSize : Nat) (name : String) (payload : Bytes) : Except Failure Bytes :=
  let rest : Int := payload.length - manipulateSize
  if payload.length < manipulateSize + contextSize then
    .error (.protocol s!"context: short {name} context ({rest} bytes)")
  else slice payload manipulateSize (manipulateSize + contextSize)

/-- The status in a reply must be zero. -/
def checkStatus (name : String) (payload : Bytes) : Except Failure Unit :=
  let status := hex (LittleEndian.put 4 (kdU32 payload 8).toNat)
  if kdU32 payload 8 ≠ 0 then .error (.protocol s!"{name}: target status {status}") else .ok ()

/-- The record of the registers (`contextBuiltin`). -/
def contextValue (s : Session) (architecture : String) (packet : KdPacket) : Except Failure Record := do
  checkStatus "context" packet.payload
  if architecture = "amd64" then
    let data ← contextBytes s.manipulateSize 1232 "amd64" packet.payload
    return amd64Registers.map (fun r => (r.1, .uint (kdU64 data r.2).toNat)) ++
      [("eflags", .uint (kdU32 data 68).toNat), ("raw", .bytes data)]
  else if architecture ≠ "" ∧ architecture ≠ "i386" then
    .error (.protocol s!"context: architecture \"{architecture}\" is not implemented")
  else
    let data ← contextBytes s.manipulateSize 204 "x86" packet.payload
    return i386Registers.map (fun r => (r.1, .uint (kdU32 data r.2).toNat)) ++ [("raw", .bytes data)]

/-- What a turn of `readMemoryBuiltin` appends: the bytes behind the header, as many as the target says. -/
def readMemoryReply (name : String) (manipulateSize actualOffset length : Nat) (packet : KdPacket) :
    Except Failure Bytes := do
  checkStatus name packet.payload
  let actual := (kdU32 packet.payload actualOffset).toNat
  let available := packet.payload.length - manipulateSize
  if actual = 0 ∨ length < actual ∨ available < actual then
    .error (.protocol s!"{name}: invalid actual byte count {actual}")
  else slice packet.payload manipulateSize (manipulateSize + actual)

/-- What a call does with its reply. -/
def Caller.take (s : Session) (packet : KdPacket) : Caller → Except Failure Unit
  | .request => do
    let _ ← kdManipulateValue packet
    return ()
  | .context architecture => do
    let _ ← contextValue s architecture packet
    return ()
  | .readMemory name manipulateSize actualOffset length => do
    let _ ← readMemoryReply name manipulateSize actualOffset length packet
    return ()
  | .fields => .ok ()

/-! ## The session as a whole -/

/-- The steps of a session: its reader takes a packet, or a caller acts. -/
inductive Call where
  | receive
  /-- `next_event`, with the result of the file handler if it runs -/
  | nextEvent (result : HandlerResult)
  | setFileHandler (installed : Bool)
  | request (api : UInt32) (caller : Caller)
  /-- the call that waits takes its reply and returns -/
  | reply
  /-- the call returns without a reply: its context or the session has ended -/
  | clearPending

/-- The state behind a call; `none` is a panic. -/
def Session.step (s : Session) : Call → Option Session
  | .receive =>
    if s.reading then
      match readTurn s with
      | (.ok _, s') => some s'
      | (.error (.protocol text), s') => some { s' with reading := false, readerErr := some (s'.readerErr.getD text) }
      | (.error .panic, _) => none
    else some s
  | .nextEvent result =>
    match s.events with
    | event :: rest =>
      match consumeEvent event result { s with events := rest } with
      | (.error .panic, _) => none
      | (_, s') => some s'
    | [] => some s
  | .setFileHandler installed => some { s with fileHandler := installed }
  | .request api caller =>
    -- another call waits for the mutex, and a filled slot is an error
    if s.caller.isSome || s.pending.isSome then some s else some { s with pending := some api, caller := some caller }
  | .reply =>
    match s.caller, s.reply with
    | some caller, some packet =>
      match caller.take s packet with
      | .error .panic => none
      | _ => some { s with caller := none, reply := none }
    | _, _ => some s
  | .clearPending => some { s with pending := none, caller := none, reply := none }

end Trex.Kd
