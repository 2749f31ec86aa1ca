import Trex.Lib.Tally
import Trex.Nbd.Server

/-!
# The NBD transmission phase

`transmit` of `block/nbd/server.go` as a transition system: the reader, the queue of observing requests,
the workers, the wait group `jobs`, the device and the reply stream.  The reader executes mutations
itself, after `jobs.Wait()`.  `accepted` is a ghost field; a `Task` is a request with what the medium
will do to it.  The abstract side is the sequential execution (`contentsAfter`, `expected`).
-/

namespace Trex.Nbd

open Slice Tally

/-! ## The request stream -/

/-- One turn of the reader up to a complete request; `none` ends the loop. -/
def nextRequest (srv : NBDServer) (input : List UInt8) : Option (Request × List UInt8) :=
  if input.length < 28 then none
  else if BigEndian.get (slice input 0 4) ≠ nbdRequestMagic.toNat then none
  else
    let flags := UInt16.ofNat (BigEndian.get (slice input 4 2))
    let kind := UInt16.ofNat (BigEndian.get (slice input 6 2))
    let cookie := UInt64.ofNat (BigEndian.get (slice input 8 8))
    let offset := UInt64.ofNat (BigEndian.get (slice input 16 8))
    let length := UInt32.ofNat (BigEndian.get (slice input 24 4))
    let rest := input.drop 28
    if kind = nbdCommandDisconnect then none
    else if hwrite : kind = nbdCommandWrite then
      if length > srv.maxRequest then none
      else if hlen : length.toNat ≤ rest.length then
        some (⟨flags, kind, cookie, offset, length, rest.take length.toNat,
          fun _ => List.length_take_of_le hlen⟩, rest.drop length.toNat)
      else none
    else some (⟨flags, kind, cookie, offset, length, [], fun h => absurd h hwrite⟩, rest)

/-- Reading `requests` off `input`, one after the other, leaves `rest`. -/
inductive Reads (srv : NBDServer) : List UInt8 → List Request → List UInt8 → Prop where
  | nil (input : List UInt8) : Reads srv input [] input
  | snoc {input rest rest' : List UInt8} {requests : List Request} {request : Request} :
      Reads srv input requests rest → nextRequest srv rest = some (request, rest') →
      Reads srv input (requests ++ [request]) rest'

lemma nextRequest_shorter (srv : NBDServer) (input rest : List UInt8) (req : Request)
    (h : nextRequest srv input = some (req, rest)) : rest.length + 28 ≤ input.length := by
  unfold nextRequest at h
  split at h
  · simp at h
  split at h
  · simp at h
  dsimp only at h
  split at h
  · simp at h
  split at h
  · split at h
    · simp at h
    split at h
    · simp only [Option.some.injEq, Prod.mk.injEq] at h
      rw [← h.2, List.length_drop, List.length_drop]
      omega
    · simp at h
  · simp only [Option.some.injEq, Prod.mk.injEq] at h
    rw [← h.2, List.length_drop]
    omega

/-! ## Sequential execution -/

section

/-- A request with what happens below the device while it is executed. -/
structure Task (srv : NBDServer) where
  request : Request
  env : srv.device.Env

variable (srv : NBDServer) (neg : NegotiationState)

/-- Executing one request on the device: the state it leaves and its outcome. -/
def perform (device : srv.device.State) (task : Task srv) : srv.device.State × Outcome :=
  (handleRequest srv neg task.request).run srv.device task.env device

/-- What a task does to the device, one mutation after the other. -/
def mutationsOne (device : srv.device.State) (task : Task srv) : List Mutation :=
  (handleRequest srv neg task.request).mutations srv.device task.env device

/-- The device after executing `tasks` one at a time. -/
def contentsAfter (device : srv.device.State) (tasks : List (Task srv)) : srv.device.State :=
  tasks.foldl (fun device task => (perform srv neg device task).1) device

/-- The outcome of the request at place `i` when all are executed one at a time. -/
def expected (device : srv.device.State) (tasks : List (Task srv)) (i : Nat) : Option Outcome :=
  tasks[i]?.map fun task => (perform srv neg (contentsAfter srv neg device (tasks.take i)) task).2

/-- The mutating device calls of executing `tasks` one at a time. -/
def mutationsOf (device : srv.device.State) : List (Task srv) → List Mutation
  | [] => []
  | task :: tasks => mutationsOne srv neg device task ++ mutationsOf (perform srv neg device task).1 tasks

end

/-! ## The concurrent system -/

/-- A task with its number in the stream. -/
structure Job (srv : NBDServer) where
  index : Nat
  task : Task srv

/-- The goroutine `run`.  `idle failed` is the head of its loop. -/
inductive Worker (srv : NBDServer) where
  | idle (failed : Bool)
  /-- took a job after a failure, about to call `jobs.Done()` -/
  | discarding
  /-- took a job, about to call the device -/
  | started (job : Job srv)
  /-- the device has answered, about to write the reply -/
  | replying (job : Job srv) (outcome : Outcome)
  | finishing (failed : Bool)
  /-- about to cancel the context and close the channel -/
  | reporting

/-- Where the reader of the connection is. -/
inductive Reader (srv : NBDServer) where
  | reading
  /-- after `jobs.Add(1)`, in the `select` -/
  | sending (job : Job srv)
  | waiting (request : Request)
  /-- past the check of the context, about to execute a mutation -/
  | mutating (request : Request)
  | replying (job : Job srv) (outcome : Outcome)
  /-- left the loop and closed the queue -/
  | stopped

/-- The reader, the queue, the workers and the device. -/
structure State (srv : NBDServer) where
  input : List UInt8
  reader : Reader srv
  queue : List (Job srv)
  pool : List (Worker srv)
  jobs : Nat
  device : srv.device.State
  /-- the mutating calls the device has received -/
  log : List Mutation
  /-- the reply chunks on the wire, each with the place of its request -/
  replies : List (Nat × Reply)
  /-- a write failed: `bufio.Writer` keeps its error and writes nothing more -/
  wireDown : Bool
  /-- reading from the channel failed -/
  readFailed : Bool
  cancelled : Bool
  accepted : List (Task srv)

/-- The start of the transmission. -/
def State.init (srv : NBDServer) (input : List UInt8) (device : srv.device.State) : State srv where
  input := input
  reader := .reading
  queue := []
  pool := List.replicate srv.workers (.idle false)
  jobs := 0
  device := device
  log := []
  replies := []
  wireDown := false
  readFailed := false
  cancelled := false
  accepted := []

/-- One step of some goroutine, or of the environment.  The transport may fail, and
the context may be cancelled, at any time. -/
inductive Step (srv : NBDServer) (neg : NegotiationState) : State srv → State srv → Prop where
  | readObserving {s : State srv} {task : Task srv} {rest : List UInt8} :
      s.reader = .reading → nextRequest srv s.input = some (task.request, rest) →
      nbdMutationBarrier task.request.kind = false →
      Step srv neg s { s with
        input := rest, reader := .sending ⟨s.accepted.length, task⟩, jobs := s.jobs + 1,
        accepted := s.accepted ++ [task] }
  | readMutation {s : State srv} {request : Request} {rest : List UInt8} :
      s.reader = .reading → nextRequest srv s.input = some (request, rest) →
      nbdMutationBarrier request.kind = true →
      Step srv neg s { s with input := rest, reader := .waiting request }
  | readEnd {s : State srv} :
      s.reader = .reading → nextRequest srv s.input = none →
      Step srv neg s { s with reader := .stopped }
  | readFails {s : State srv} : s.reader = .reading → Step srv neg s { s with reader := .stopped, readFailed := true }
  | readCancelled {s : State srv} :
      s.reader = .reading → s.cancelled = true → Step srv neg s { s with reader := .stopped }
  | send {s : State srv} {job : Job srv} :
      s.reader = .sending job → s.queue.length < srv.workers →
      Step srv neg s { s with reader := .reading, queue := s.queue ++ [job] }
  | sendCancelled {s : State srv} {job : Job srv} :
      s.reader = .sending job → s.cancelled = true →
      Step srv neg s { s with reader := .stopped, jobs := s.jobs - 1 }
  | waitDone {s : State srv} {request : Request} :
      s.reader = .waiting request → s.jobs = 0 → s.cancelled = false →
      Step srv neg s { s with reader := .mutating request }
  | waitCancelled {s : State srv} {request : Request} :
      s.reader = .waiting request → s.jobs = 0 → s.cancelled = true →
      Step srv neg s { s with reader := .stopped }
  | mutate {s : State srv} {task : Task srv} :
      s.reader = .mutating task.request →
      Step srv neg s { s with
        reader := .replying ⟨s.accepted.length, task⟩ (perform srv neg s.device task).2,
        device := (perform srv neg s.device task).1,
        log := s.log ++ mutationsOne srv neg s.device task,
        accepted := s.accepted ++ [task] }
  | mutationReplied {s : State srv} {job : Job srv} {reply : Reply} :
      s.reader = .replying job (.ok reply) → s.wireDown = false →
      Step srv neg s { s with reader := .reading, replies := s.replies ++ [(job.index, reply)] }
  | mutationReplyFails {s : State srv} {job : Job srv} {reply : Reply} :
      s.reader = .replying job (.ok reply) →
      Step srv neg s { s with reader := .stopped, wireDown := true }
  | mutationError {s : State srv} {job : Job srv} {text : String} :
      s.reader = .replying job (.error text) → Step srv neg s { s with reader := .stopped }
  | take {s : State srv} {w : Nat} {job : Job srv} {queue : List (Job srv)} :
      s.pool[w]? = some (.idle false) → s.queue = job :: queue →
      Step srv neg s { s with queue := queue, pool := s.pool.set w (.started job) }
  | discard {s : State srv} {w : Nat} {job : Job srv} {queue : List (Job srv)} :
      s.pool[w]? = some (.idle true) → s.queue = job :: queue →
      Step srv neg s { s with queue := queue, pool := s.pool.set w .discarding }
  | discarded {s : State srv} {w : Nat} :
      s.pool[w]? = some .discarding →
      Step srv neg s { s with jobs := s.jobs - 1, pool := s.pool.set w (.idle true) }
  | observe {s : State srv} {w : Nat} {job : Job srv} :
      s.pool[w]? = some (.started job) →
      Step srv neg s { s with
        device := (perform srv neg s.device job.task).1,
        log := s.log ++ mutationsOne srv neg s.device job.task,
        pool := s.pool.set w (.replying job (perform srv neg s.device job.task).2) }
  | replied {s : State srv} {w : Nat} {job : Job srv} {reply : Reply} :
      s.pool[w]? = some (.replying job (.ok reply)) → s.wireDown = false →
      Step srv neg s { s with
        replies := s.replies ++ [(job.index, reply)], pool := s.pool.set w (.finishing false) }
  | replyFails {s : State srv} {w : Nat} {job : Job srv} {reply : Reply} :
      s.pool[w]? = some (.replying job (.ok reply)) →
      Step srv neg s { s with wireDown := true, pool := s.pool.set w (.finishing true) }
  | replyError {s : State srv} {w : Nat} {job : Job srv} {text : String} :
      s.pool[w]? = some (.replying job (.error text)) →
      Step srv neg s { s with pool := s.pool.set w (.finishing true) }
  | done {s : State srv} {w : Nat} {failed : Bool} :
      s.pool[w]? = some (.finishing failed) →
      Step srv neg s { s with
        jobs := s.jobs - 1,
        pool := s.pool.set w (if failed then .reporting else .idle false) }
  | report {s : State srv} {w : Nat} :
      s.pool[w]? = some .reporting →
      Step srv neg s { s with cancelled := true, pool := s.pool.set w (.idle true) }
  | cancel {s : State srv} : s.cancelled = false → Step srv neg s { s with cancelled := true }

/-- The states of every run over the bytes `input` and the device state `device`. -/
inductive Reachable (srv : NBDServer) (neg : NegotiationState) (input : List UInt8)
    (device : srv.device.State) : State srv → Prop where
  | init : Reachable srv neg input device (State.init srv input device)
  | step {s s' : State srv} : Reachable srv neg input device s → Step srv neg s s' → Reachable srv neg input device s'

/-- `transmit` returns: the loop has ended, the queue is drained, the workers are idle. -/
def State.finished {srv : NBDServer} (s : State srv) : Prop :=
  s.reader = .stopped ∧ s.queue = [] ∧ ∀ worker ∈ s.pool, ∃ failed, worker = .idle failed

/-- No transport error so far, and nobody has cancelled the context. -/
def State.clean {srv : NBDServer} (s : State srv) : Prop :=
  s.wireDown = false ∧ s.cancelled = false

end Trex.Nbd
