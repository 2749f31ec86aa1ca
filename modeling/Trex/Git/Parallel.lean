import Trex.Git.Pack
import Trex.Lib.Chain

/-!
# The parallel import

`importParallel` of `parallel.go` as a transition system: the main loop with its `select`, the scanner,
the workers and their channels.  An `Event` says which goroutine moves, which case a `select` takes and
whether a read succeeds.  `dispatched` and `ingested` are ghost fields.
-/

namespace Trex.GitStore

open Trex.Repo (GitOID Env Extent gitValid zeroOID)

/-- How the loop ends with an error: one that was reported to it, or one of its own. -/
inductive Stop where
  | reported (e : Err)
  | missingOffsetBase
  | packObjectType
  | scannedCount
  | missingOrCyclic
  deriving DecidableEq, Repr

/-! ## The scheduler's data -/

/-- Links are one-based; zero is the end of a child or waiter list. -/
structure DeltaNode where
  offset : Nat := 0
  child : Nat := 0
  next : Nat := 0
  base : GitOID := zeroOID
  done : Bool := false

/-- What a worker is given. -/
structure DeltaJob where
  index : Nat
  offset : Nat
  base : GitOID

/-- What a worker gives back. -/
structure DeltaResult where
  /-- `none` when the worker could not start. -/
  index : Option Nat
  edges : List (GitOID × UInt8) := []
  oid : GitOID := zeroOID
  kind : UInt8 := 0
  /-- The source keeps only its length. -/
  body : Bytes := []
  err : Option Err := none

/-- What the scanner sends. -/
structure ScanBatch where
  headers : List PackEntry := []
  checksum : Bytes := []
  err : Option Err := none
  done : Bool := false

/-- The variables of the loop that order the objects. -/
structure Sched where
  nodes : Nat → DeltaNode := fun _ => {}
  offsets : SortedMap Int Nat := ∅
  waiting : SortedMap GitOID Nat := ∅
  /-- A stack, its top first. -/
  ready : List Nat := []
  roots : List Nat := []
  rootPos : Nat := 0
  active : Nat := 0
  scanned : Nat := 0
  scanDone : Bool := false

def Sched.next (s : Sched) (i : Nat) : Nat := (s.nodes i).next

/-- The offset deltas that wait for an object of the pack. -/
def Sched.children (s : Sched) (i : Nat) : List Nat := Chain.cells s.next (s.nodes i).child

/-- The reference deltas that wait for an identity. -/
def Sched.waiters (s : Sched) (oid : GitOID) : List Nat :=
  Chain.cells s.next ((s.waiting.find oid).getD 0)

/-- The index of the next job, and whether it is a root. -/
def Sched.available (s : Sched) : Option (Nat × Bool) :=
  match s.ready with
  | i :: _ => some (i, false)
  | [] => s.roots[s.rootPos]?.map fun i => (i, true)

/-- Counts an entry, notes its offset and writes its node. -/
def Sched.enter (h : PackEntry) (node : DeltaNode) (s : Sched) : Sched :=
  { s with
    scanned := s.scanned + 1
    offsets := s.offsets.insert h.offset (s.scanned + 1)
    nodes := Function.update s.nodes s.scanned node }

def Sched.setChild (p link : Nat) (s : Sched) : Sched :=
  { s with nodes := Function.update s.nodes p { s.nodes p with child := link } }

/-- The body of the loop over the headers of a batch; `present`: the base of a reference delta is there. -/
def Sched.addHeader (h : PackEntry) (present : Bool) (s : Sched) : Except Stop Sched :=
  let i := s.scanned
  let node := { s.nodes i with offset := h.offset }
  match h.type with
  | .ofsDelta =>
      match s.offsets.find h.offsetReference with
      | none => .error .missingOffsetBase
      | some parent =>
          let p := s.nodes (parent - 1)
          if p.done then .ok { s.enter h { node with base := p.base } with ready := i :: s.ready }
          else .ok ((s.enter h { node with next := p.child }).setChild (parent - 1) (i + 1))
  | .refDelta =>
      let base := gitOID h.reference
      if present then .ok { s.enter h { node with base } with ready := i :: s.ready }
      else
        .ok { s.enter h { node with base, next := (s.waiting.find base).getD 0 } with
          waiting := s.waiting.insert base (i + 1) }
  | .commit | .tree | .blob | .tag => .ok { s.enter h node with roots := s.roots ++ [i] }
  | .invalid => .error .packObjectType

/-- What the loop does with the result of an object: it is done, and those that wait for
it become ready. -/
def Sched.release (i : Nat) (oid : GitOID) (s : Sched) : Sched :=
  let kids := s.children i
  let held := s.waiters oid
  { s with
    nodes := fun j =>
      if j = i then { s.nodes j with done := true, base := oid }
      else if j ∈ kids then { s.nodes j with base := oid }
      else s.nodes j
    ready := held.reverse ++ (kids.reverse ++ s.ready)
    waiting := s.waiting.erase oid
    active := s.active - 1 }

/-- The job on offer is taken. -/
def Sched.take (fromRoot : Bool) (s : Sched) : Sched :=
  if fromRoot then { s with rootPos := s.rootPos + 1, active := s.active + 1 }
  else { s with ready := s.ready.tail, active := s.active + 1 }

/-! ## The goroutines -/

/-- The goroutine that scans the pack. -/
inductive Scanner where
  | scanning (i : Nat) (batch : List PackEntry)
  | sending (i : Nat) (batch : ScanBatch)
  | exited

/-- A worker, by what it does next. -/
inductive Worker where
  | starting
  | idle
  | seeking (job : DeltaJob)
  | reading (job : DeltaJob) (h : PackEntry) (kind : UInt8) (baseSize : Nat)
  | storing (job : DeltaJob) (kind : UInt8) (oid : GitOID) (body : Bytes)
  | sending (result : DeltaResult)
  | exited

/-- The main loop. -/
inductive Main where
  | running
  | leaving (result : Except Stop (Bytes × Nat))
  | returned (result : Except Stop (Bytes × Nat))

/-- An object as it was stored, with its place in the pack. -/
structure Ingested where
  index : Nat
  oid : GitOID
  kind : UInt8
  body : Bytes

/-- The goroutines, their channels and the repository. -/
structure Import where
  sched : Sched := {}
  session : Session
  checksum : Bytes := []
  main : Main := .running
  cancelled : Bool := false
  scanner : Scanner := .scanning 0 []
  /-- The channel of batches, which holds two. -/
  scans : List ScanBatch := []
  workers : List Worker
  /-- The channel of results, which holds one for each worker. -/
  results : List DeltaResult := []
  dispatched : List Nat := []
  ingested : List Ingested := []

/-- A step of one of the goroutines. -/
inductive Event where
  | cancel
  | scan (ok : Bool)
  | scanSend
  | scanStop
  | start (w : Nat) (ok : Bool)
  | work (w : Nat) (ok : Bool)
  | send (w : Nat)
  | stop (w : Nat)
  | finish
  | leaveCancelled
  | giveUp
  | receiveScan
  | dispatch (w : Nat)
  | receiveResult
  | wait
  deriving DecidableEq, Repr

namespace Import

variable (env : Env) (pack : Pack)

def setWorker (s : Import) (w : Nat) (worker : Worker) : Import :=
  { s with workers := s.workers.set w worker }

def setRepo (s : Import) (repo : Repository) : Import :=
  { s with session := { s.session with repo } }

/-! ### The scanner -/

/-- One turn of the scanner's loop, or what follows the loop. -/
def scanNext (i : Nat) (batch : List PackEntry) (ok : Bool) : Scanner :=
  match pack.entries[i]? with
  | some h =>
      match if ok then h.check else .error .failed with
      | .error e => .sending i { err := some e, done := true }
      | .ok () =>
          if batch.length + 1 = 1024 then .sending (i + 1) { headers := batch ++ [h] }
          else .scanning (i + 1) (batch ++ [h])
  | none =>
      if batch ≠ [] then .sending i { headers := batch }
      else .sending i
        { checksum := pack.checksum, err := if ok then none else some .failed, done := true }

/-- The scanner reads an entry. -/
def scan (ok : Bool) (s : Import) : Option Import :=
  match s.scanner with
  | .scanning i batch => some { s with scanner := scanNext pack i batch ok }
  | _ => none

/-- The scanner hands over a batch. -/
def scanSend (s : Import) : Option Import :=
  match s.scanner with
  | .sending i batch =>
      if s.scans.length < 2 then
        some { s with
          scans := s.scans ++ [batch]
          scanner := if batch.done then .exited else .scanning i [] }
      else none
  | _ => none

/-- The scanner sees the cancellation. -/
def scanStop (s : Import) : Option Import :=
  match s.scanner with
  | .sending _ _ => if s.cancelled then some { s with scanner := .exited } else none
  | _ => none

/-! ### The workers -/

/-- A worker opens the pack. -/
def start (w : Nat) (ok : Bool) (s : Import) : Option Import :=
  match s.workers[w]? with
  | some .starting => some (s.setWorker w (if ok then .idle else .sending { index := none, err := some .failed }))
  | _ => none

/-- The result of a job that failed. -/
def fail (job : DeltaJob) (e : Err) : Worker := .sending { index := some job.index, err := some e }

/-- `ingestJob` up to the lookup of the base. -/
def seek (job : DeltaJob) (ok : Bool) (repo : Repository) : Worker × Repository :=
  match if ok then pack.seek job.offset else none with
  | none => (fail job .failed, repo)
  | some h =>
      if h.length < 0 ∨ h.length > 2 ^ 30 then (fail job .inflatedLimit, repo)
      else if h.type.isDelta then
        match gitObjectHeader job.base repo with
        | (.ok (some (kind, baseSize)), repo) => (.reading job h kind baseSize, repo)
        | (.ok none, repo) => (fail job .scheduledBase, repo)
        | (.error e, repo) => (fail job e, repo)
      else (.reading job h h.type.byte 0, repo)

/-- `ingestJob` from there to the first lock of `Ingest`. -/
def readObject (job : DeltaJob) (h : PackEntry) (kind : UInt8) (baseSize : Nat) :
    RepoM (GitOID × Bytes) := do
  Op.ofExcept h.check
  if gitValid job.base then
    let (extents, size) ← Op.ofExcept (translateDelta h.data baseSize)
    ingestRead env kind [] job.base extents size
  else ingestRead env kind h.data job.base [] h.data.length

/-- A worker reads and reconstructs the object. -/
def read (job : DeltaJob) (h : PackEntry) (kind : UInt8) (baseSize : Nat) (ok : Bool)
    (repo : Repository) : Worker × Repository :=
  if ok then
    match readObject env job h kind baseSize repo with
    | (.ok (oid, body), repo) => (.storing job kind oid body, repo)
    | (.error e, repo) => (fail job e, repo)
  else (fail job .failed, repo)

/-- The second lock of `Ingest`, and the edges of the object. -/
def store (w : Nat) (job : DeltaJob) (kind : UInt8) (oid : GitOID) (body : Bytes) (s : Import) :
    Import :=
  match ingestStore oid kind body s.session.repo with
  | (.error e, repo) => (s.setWorker w (fail job e)).setRepo repo
  | (.ok (), repo) =>
      let (edges, err) := gitLinks kind body 20
      { (s.setWorker w (.sending { index := some job.index, edges, oid, kind, body, err })).setRepo
          repo with
        ingested := s.ingested ++ [⟨job.index, oid, kind, body⟩] }

/-- A worker goes on with its job. -/
def work (w : Nat) (ok : Bool) (s : Import) : Option Import :=
  match s.workers[w]? with
  | some (.seeking job) =>
      match seek pack job ok s.session.repo with
      | (worker, repo) => some ((s.setWorker w worker).setRepo repo)
  | some (.reading job h kind baseSize) =>
      match read env job h kind baseSize ok s.session.repo with
      | (worker, repo) => some ((s.setWorker w worker).setRepo repo)
  | some (.storing job kind oid body) => some (s.store w job kind oid body)
  | _ => none

/-- A worker hands over its result. -/
def send (w : Nat) (s : Import) : Option Import :=
  match s.workers[w]? with
  | some (.sending r) =>
      if s.results.length < s.workers.length then
        some { s.setWorker w (if r.err.isSome then .exited else .idle) with
          results := s.results ++ [r] }
      else none
  | _ => none

/-- A worker sees the cancellation. -/
def stop (w : Nat) (s : Import) : Option Import :=
  match s.workers[w]? with
  | some .idle | some (.sending _) => if s.cancelled then some (s.setWorker w .exited) else none
  | _ => none

/-! ### The main loop -/

/-- The main loop ends, and cancels the others. -/
def leave (r : Except Stop (Bytes × Nat)) (s : Import) : Import :=
  { s with main := .leaving r, cancelled := true }

/-- The condition of the loop. -/
def isOpen (s : Import) : Bool :=
  !s.sched.scanDone || s.session.storer.inserted < pack.entries.length

/-- The job on offer: there must be a worker left for it. -/
def offer (s : Import) : Option (Nat × Bool) :=
  if s.sched.active < s.workers.length then s.sched.available else none

/-- Nothing runs, nothing is ready and nothing will come. -/
def isStuck (s : Import) : Bool := s.sched.scanDone && s.sched.active == 0 && s.offer.isNone

/-- In the `select` of the loop. -/
def selecting (s : Import) : Bool :=
  (match s.main with | .running => true | _ => false) && s.isOpen pack && !s.isStuck

/-- The loop ends with everything inserted. -/
def finish (s : Import) : Option Import :=
  match s.main with
  | .running =>
      if s.isOpen pack then none else some (s.leave (.ok (s.checksum, s.session.storer.inserted)))
  | _ => none

/-- The loop sees the cancellation. -/
def leaveCancelled (s : Import) : Option Import :=
  match s.main with
  | .running => if s.isOpen pack && s.cancelled then some (s.leave (.error (.reported .canceled))) else none
  | _ => none

/-- The loop ends because it is stuck. -/
def giveUp (s : Import) : Option Import :=
  match s.main with
  | .running =>
      if s.isOpen pack && s.isStuck then some (s.leave (.error .missingOrCyclic)) else none
  | _ => none

/-- Whether the base of a header is in the repository; only reference deltas ask. -/
def present (h : PackEntry) : RepoM Bool := do
  if h.type = .refDelta then return (← gitObjectHeader (gitOID h.reference)).isSome else return false

/-- Adds the entries of a batch to the schedule. -/
def addHeaders : List PackEntry → Sched → Repository → Except Stop Sched × Repository
  | [], sched, repo => (.ok sched, repo)
  | h :: headers, sched, repo =>
      match present h repo with
      | (.error e, repo) => (.error (.reported e), repo)
      | (.ok found, repo) =>
          match sched.addHeader h found with
          | .error e => (.error e, repo)
          | .ok sched => addHeaders headers sched repo

/-- The main loop takes a batch. -/
def receiveScan (s : Import) : Option Import :=
  match s.scans with
  | batch :: scans =>
      if s.selecting pack && !s.sched.scanDone then
        let s := { s with scans }
        match batch.err with
        | some e => some (s.leave (.error (.reported e)))
        | none =>
            match addHeaders batch.headers s.sched s.session.repo with
            | (.error e, repo) => some ((s.setRepo repo).leave (.error e))
            | (.ok sched, repo) =>
                let s := s.setRepo repo
                if !batch.done then some { s with sched }
                else if sched.scanned ≠ pack.entries.length then
                  some (s.leave (.error .scannedCount))
                else
                  some { s with
                    sched := { sched with scanDone := true }
                    checksum := batch.checksum }
      else none
  | [] => none

/-- The main loop hands a job to a worker. -/
def dispatch (w : Nat) (s : Import) : Option Import :=
  match s.workers[w]?, s.offer with
  | some .idle, some (i, fromRoot) =>
      if s.selecting pack then
        let node := s.sched.nodes i
        some { s.setWorker w (.seeking ⟨i, node.offset, node.base⟩) with
          sched := s.sched.take fromRoot
          dispatched := s.dispatched ++ [i] }
      else none
  | _, _ => none

/-- Takes the result of an object that was ingested. -/
def account (r : DeltaResult) (s : Import) : Import :=
  match accountLinks r.oid r.kind (requireAll r.edges) s.session with
  | (.error e, session) => { s with session }.leave (.error (.reported e))
  | (.ok (), session) => { s with session, sched := s.sched.release (r.index.getD 0) r.oid }

/-- The main loop takes a result. -/
def receiveResult (s : Import) : Option Import :=
  match s.results with
  | r :: results =>
      if s.selecting pack then
        let s := { s with results }
        match r.err with
        | some e => some (s.leave (.error (.reported e)))
        | none => some (s.account r)
      else none
  | [] => none

/-- `wg.Wait` behind the loop. -/
def wait (s : Import) : Option Import :=
  match s.main, s.scanner with
  | .leaving r, .exited =>
      if s.workers.all fun w => match w with | .exited => true | _ => false then
        some { s with main := .returned r }
      else none
  | _, _ => none

/-- One step of the system; `none` when the event cannot happen. -/
def step (s : Import) : Event → Option Import
  | .cancel => if s.cancelled then none else some { s with cancelled := true }
  | .scan ok => s.scan pack ok
  | .scanSend => s.scanSend
  | .scanStop => s.scanStop
  | .start w ok => s.start w ok
  | .work w ok => s.work env pack w ok
  | .send w => s.send w
  | .stop w => s.stop w
  | .finish => s.finish pack
  | .leaveCancelled => s.leaveCancelled pack
  | .giveUp => s.giveUp pack
  | .receiveScan => s.receiveScan pack
  | .dispatch w => s.dispatch pack w
  | .receiveResult => s.receiveResult pack
  | .wait => s.wait

/-- The start: a repository and workers that have not opened the pack. -/
def init (repo : Repository) (workers : Nat) : Import :=
  { session := ⟨repo, {}⟩, workers := List.replicate workers .starting }

/-- The state after a sequence of steps, if each is possible. -/
def run (s : Import) : List Event → Option Import
  | [] => some s
  | e :: events => (s.step env pack e).bind fun s => run s events

end Import

end Trex.GitStore
