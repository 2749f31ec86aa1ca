import Trex.Lib.Bytes

/-!
# The KD transport (`windows/kd/wire.go`)

Packets, their reader, and the handlers `handleControl` and `validateAndAcknowledge`.  What a handler
writes is part of its result; a failed write ends the session and is left out.
-/

namespace Trex.Kd

/-! ## Constants -/

def kdInitialPacketID : UInt32 := 0x80800000
def kdSyncPacketID : UInt32 := 0x00000800

def kdPacketLeader : UInt32 := 0x30303030
def kdControlPacketLeader : UInt32 := 0x69696969
def kdBreakinPacket : UInt32 := 0x62626262
def kdTrailingByte : UInt8 := 0xaa

def kdPacketStateChange32 : UInt16 := 1
def kdPacketStateManipulate : UInt16 := 2
def kdPacketDebugIO : UInt16 := 3
def kdPacketAcknowledge : UInt16 := 4
def kdPacketResend : UInt16 := 5
def kdPacketReset : UInt16 := 6
def kdPacketStateChange64 : UInt16 := 7
def kdPacketFileIO : UInt16 := 11

def kdHeaderSize : Nat := 16

/-! ## Fields of a payload -/

/-- A field of a packet, zero when it is not there. -/
def kdU16 (data : Bytes) (offset : Nat) : UInt16 :=
  if offset + 2 > data.length then 0 else UInt16.ofNat (LittleEndian.get ((data.drop offset).take 2))

def kdU32 (data : Bytes) (offset : Nat) : UInt32 :=
  if offset + 4 > data.length then 0 else UInt32.ofNat (LittleEndian.get ((data.drop offset).take 4))

def kdU64 (data : Bytes) (offset : Nat) : UInt64 :=
  if offset + 8 > data.length then 0 else UInt64.ofNat (LittleEndian.get ((data.drop offset).take 8))

/-- The sum of the bytes. -/
def kdChecksum (data : Bytes) : UInt32 := data.foldl (fun result value => result + value.toUInt32) 0

/-! ## Packets -/

/-- A packet as it was read. -/
structure KdPacket where
  leader : UInt32
  type : UInt16 := 0
  count : UInt16 := 0
  id : UInt32 := 0
  checksum : UInt32 := 0
  payload : Bytes := []
deriving DecidableEq, Repr

/-- How the handling of input ends when it does not succeed: with an error that ends the
reader, or with an index outside a payload. -/
inductive Failure where
  | protocol (text : String)
  | panic
deriving DecidableEq, Repr

def hex (value : Bytes) : String :=
  "0x" ++ String.ofList (Nat.toDigits 16 (LittleEndian.get value))

/-- Takes `n` bytes from the channel. -/
def readFull (n : Nat) (input : Bytes) : Except Failure (Bytes × Bytes) :=
  if n ≤ input.length then .ok (input.take n, input.drop n)
  else .error (.protocol (if input = [] then "EOF" else "unexpected EOF"))

def kdIsLeader (value : Bytes) : Bool :=
  value = [0x30, 0x30, 0x30, 0x30] ∨ value = [0x69, 0x69, 0x69, 0x69] ∨ value = [0x62, 0x62, 0x62, 0x62]

/-- `readLeader`: the window holds the last four bytes read. -/
def readLeader (window : Bytes) : Bytes → Except Failure (Bytes × Bytes)
  | [] => .error (.protocol "EOF")
  | value :: input =>
    let window := (if window.length < 4 then window else window.drop 1) ++ [value]
    if kdIsLeader window then .ok (window, input) else readLeader window input

/-- The packet with the next leader of the input. -/
def readPacket (maximum : Nat) (input : Bytes) : Except Failure (KdPacket × Bytes) := do
  let (leaderData, input) ← readLeader [] input
  let leader := kdU32 leaderData 0
  if leader = kdBreakinPacket then return ({ leader := leader }, input)
  let (rest, input) ← readFull (kdHeaderSize - 4) input
  let packet : KdPacket :=
    { leader := leader, type := kdU16 rest 0, count := kdU16 rest 2, id := kdU32 rest 4, checksum := kdU32 rest 8 }
  if packet.count.toNat > maximum then
    throw (.protocol s!"KD packet payload {packet.count.toNat} exceeds limit {maximum}")
  if leader ≠ kdPacketLeader then return (packet, input)
  let (payload, input) ← readFull packet.count.toNat input
  let (trailing, input) ← readFull 1 input
  if trailing ≠ [kdTrailingByte] then throw (.protocol (s!"invalid KD trailing byte {hex trailing}"))
  return ({ packet with payload := payload }, input)

/-! ## The state of the transport -/

/-- The identities and the waiters of a session. -/
structure KdWire where
  remoteID : UInt32 := kdInitialPacketID
  localID : UInt32 := kdInitialPacketID
  lastOutbound : Bytes := []
  /-- the ids whose channel in `ackWait` is open -/
  ackWait : List UInt32 := []
deriving DecidableEq, Repr

/-- A control packet that the session sends. -/
structure Control where
  kind : UInt16
  id : UInt32
deriving DecidableEq, Repr

/-- An acknowledgement wakes its waiter and moves the identity on. -/
def KdWire.acknowledged (w : KdWire) (packetID : UInt32) : KdWire :=
  let id := packetID &&& ~~~kdSyncPacketID
  { w with
    ackWait := w.ackWait.filter (· ≠ id)
    remoteID := if id = w.remoteID then w.remoteID ^^^ 1 else w.remoteID }

/-- Both identities start again, and nobody waits. -/
def KdWire.reset (w : KdWire) : KdWire :=
  { w with remoteID := kdInitialPacketID, localID := kdInitialPacketID, ackWait := [] }

/-- `handleControl`: the state after it and the bytes that it writes. -/
def KdWire.handleControl (w : KdWire) (packet : KdPacket) : KdWire × Bytes :=
  if packet.type = kdPacketAcknowledge then (w.acknowledged packet.id, [])
  else if packet.type = kdPacketResend then (w, w.lastOutbound)
  else if packet.type = kdPacketReset then (w.reset, [])
  else (w, [])

/-- `validateAndAcknowledge`: the state after it, whether the packet is accepted, and the
control packet that answers it. -/
def KdWire.validateAndAcknowledge (w : KdWire) (packet : KdPacket) : KdWire × Bool × Control :=
  if kdChecksum packet.payload ≠ packet.checksum then (w, false, ⟨kdPacketResend, 0⟩)
  else
    let id := packet.id &&& ~~~kdSyncPacketID
    let expected := if packet.id &&& kdSyncPacketID ≠ 0 then id else w.localID
    let accept := decide (id = expected)
    let duplicate := decide (id = expected ^^^ 1)
    let w := { w with localID := if accept then expected ^^^ 1 else expected }
    if !accept && !duplicate then (w, false, ⟨kdPacketResend, expected⟩)
    else (w, accept, ⟨kdPacketAcknowledge, id⟩)

end Trex.Kd
