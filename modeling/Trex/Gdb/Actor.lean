import Trex.Lib.Steps
import Trex.Lib.Bytes

/-!
# Commands of a GDB session (`debug/gdb.go`, `debug/gdb_wire.go`)

Any number of threads call `execute`; one goroutine, the actor, takes a command, writes its packet and
reads its reply, or behind `continue` and `step` the stop.  A caller may give up at any time.  A reply is
told apart by the call whose packet it answers, which the source does not know.
-/

namespace Trex.Gdb

/-- What a call of `execute` does on the wire. -/
inductive Kind where
  /-- `wire.exchange`: one packet, one reply -/
  | exchange
  /-- `monitor`: an exchange, and further reads while the reply is console output -/
  | monitor
  /-- `continue` and `step`: `wire.send`; the stop reply is for the queue -/
  | resume
deriving DecidableEq, Repr

/-- What a caller hands to the actor. -/
structure Command where
  kind : Kind
  payload : Bytes
deriving DecidableEq, Repr

/-- A packet that asks for the command of `monitor`: `qRcmd,` and the text. -/
def IsMonitor (payload : Bytes) : Prop := payload.take 6 = [0x71, 0x52, 0x63, 0x6d, 0x64, 0x2c]

instance (payload : Bytes) : Decidable (IsMonitor payload) := inferInstanceAs (Decidable (_ = _))

/-- The payloads that the callers of `execute` build: `c` and `s` to resume, `qRcmd,` and the command for
`monitor`, any payload for an exchange. -/
def Command.Valid (c : Command) : Prop :=
  match c.kind with
  | .exchange => True
  | .monitor => IsMonitor c.payload
  | .resume => c.payload = [0x63] ∨ c.payload = [0x73]

instance (c : Command) : Decidable c.Valid := by
  unfold Command.Valid
  cases c.kind <;> infer_instance

/-- A packet of the target, with the call that it answers. -/
structure Reply where
  origin : Nat
  content : Bytes
deriving DecidableEq, Repr

/-- What the target sends. -/
inductive Item where
  | ack
  | packet (r : Reply)
deriving DecidableEq, Repr

/-- Where a call of `execute` is. -/
inductive Phase where
  /-- `execute` offers its command to the actor -/
  | offering
  /-- `execute` waits for the result -/
  | accepted
  | returned (value : List Reply)
  | failed
deriving DecidableEq, Repr

/-- A call of `execute`; `result` is what its channel holds, an error as `none`. -/
structure Call where
  command : Command
  phase : Phase := .offering
  result : Option (Option (List Reply)) := none
deriving DecidableEq, Repr

/-- Where the actor is. -/
inductive Actor where
  | idle
  | sending (id : Nat)
  /-- `send` waits for the acknowledgement -/
  | acking (id : Nat)
  /-- `read`, with the console output of `monitor` so far -/
  | reading (id : Nat) (output : List Reply)
  /-- the `read` behind a resumed target -/
  | stopping (id : Nat)
  | ended
deriving DecidableEq, Repr

/-- The session, its callers and the target. -/
structure State where
  noAck : Bool
  packetSize : Nat
  stopQueue : Nat
  calls : List Call := []
  actor : Actor := .idle
  running : Bool := false
  /-- the acknowledgements that the target owes -/
  owed : Nat := 0
  /-- the packets that the target has not answered -/
  received : List Nat := []
  /-- what the target has sent and the actor has not read -/
  output : List Item := []
  stops : List Reply := []
  /-- the stops that `wait` has taken from the queue -/
  waited : List Reply := []
deriving DecidableEq, Repr

/-- One step of a caller, of the actor or of the target. -/
inductive Event where
  | call (c : Command)
  | accept (id : Nat)
  | write
  | targetAck
  | targetReply (content : Bytes)
  | readAck
  | read
  | fail
  | returns (id : Nat)
  /-- the context of a call ends, or the session does -/
  | abandon (id : Nat)
  | wait
deriving DecidableEq, Repr

def State.setResult (s : State) (id : Nat) (result : Option (List Reply)) : State :=
  { s with calls := s.calls.modify id fun c => { c with result := some result } }

def State.setPhase (s : State) (id : Nat) (phase : Phase) : State :=
  { s with calls := s.calls.modify id fun c => { c with phase := phase } }

def State.kind (s : State) (id : Nat) : Kind := ((s.calls[id]?.map fun c => c.command.kind)).getD .exchange

/-- What the actor does once the packet is acknowledged. -/
def State.afterSend (s : State) (id : Nat) : State :=
  if s.kind id = .resume then { s.setResult id (some []) with running := true, actor := .stopping id }
  else { s with actor := .reading id [] }

/-- The error of a command: it goes to the caller and ends the actor. -/
def State.commandError (s : State) (id : Nat) : State := { s.setResult id none with actor := .ended }

/-- Console output: a packet with `O` in front, other than `OK`. -/
def isConsole (content : Bytes) : Bool := content.head? = some 0x4f && content ≠ [0x4f, 0x4b]

/-- The actor has read the reply to a command. -/
def State.gotReply (s : State) (id : Nat) (output : List Reply) (r : Reply) : State :=
  if s.kind id = .monitor then
    if isConsole r.content then { s with actor := .reading id (output ++ [r]) }
    else if r.content = [0x4f, 0x4b] then { s.setResult id (some (output ++ [r])) with actor := .idle }
    else s.commandError id
  else { s.setResult id (some [r]) with actor := .idle }

/-- The actor has read the stop; a full queue ends it. -/
def State.gotStop (s : State) (r : Reply) : State :=
  if s.stops.length < s.stopQueue then { s with running := false, stops := s.stops ++ [r], actor := .idle }
  else { s with running := false, actor := .ended }

/-- One step, if it is possible. -/
def step (s : State) : Event → Option State
  | .call c => if c.Valid then some { s with calls := s.calls ++ [{ command := c }] } else none
  | .accept id =>
    match s.actor, s.calls[id]? with
    | .idle, some c =>
      if c.phase = .offering then some { s.setPhase id .accepted with actor := .sending id } else none
    | _, _ => none
  | .write =>
    match s.actor with
    | .sending id =>
      match s.calls[id]? with
      | some c =>
        if c.command.payload.length > s.packetSize then some (s.commandError id)
        else if s.noAck then some (({ s with received := s.received ++ [id] } : State).afterSend id)
        else some { s with received := s.received ++ [id], owed := s.owed + 1, actor := .acking id }
      | none => none
    | _ => none
  | .targetAck => if 0 < s.owed then some { s with owed := s.owed - 1, output := s.output ++ [.ack] } else none
  | .targetReply content =>
    match s.received with
    | id :: rest =>
      if s.owed = 0 then some { s with received := rest, output := s.output ++ [.packet ⟨id, content⟩] } else none
    | [] => none
  | .readAck =>
    match s.actor, s.output with
    | .acking id, .ack :: rest => some (({ s with output := rest } : State).afterSend id)
    | .acking id, .packet _ :: rest => some (({ s with output := rest } : State).commandError id)
    | _, _ => none
  | .read =>
    match s.actor, s.output with
    | .reading _ _, .ack :: rest => some { s with output := rest }
    | .stopping _, .ack :: rest => some { s with output := rest }
    | .reading id output, .packet r :: rest => some (({ s with output := rest } : State).gotReply id output r)
    | .stopping _, .packet r :: rest => some (({ s with output := rest } : State).gotStop r)
    | _, _ => none
  | .fail =>
    match s.actor with
    | .sending id | .acking id | .reading id _ => some (s.commandError id)
    | _ => some { s with running := false, actor := .ended }
  | .returns id =>
    match s.calls[id]? with
    | some c =>
      match c.phase, c.result with
      | .accepted, some (some value) => some (s.setPhase id (.returned value))
      | .accepted, some none => some (s.setPhase id .failed)
      | _, _ => none
    | none => none
  | .abandon id =>
    match s.calls[id]? with
    | some c => if c.phase = .offering ∨ c.phase = .accepted then some (s.setPhase id .failed) else none
    | none => none
  | .wait =>
    match s.stops with
    | r :: rest => some { s with stops := rest, waited := s.waited ++ [r] }
    | [] => none

def State.start (noAck : Bool) (packetSize stopQueue : Nat) : State :=
  { noAck := noAck, packetSize := packetSize, stopQueue := stopQueue }

end Trex.Gdb
