import Trex.Nbd.TransmitProof
import Trex.Block.SparseProof
import Mathlib.Data.List.Perm.Basic
import Mathlib.Data.List.Nodup
import Mathlib.Order.WellFounded

/-!
# Runs of the transmission phase

`SequentiallyConsistent` is what one connection promises in a state of a run; it holds in every
reachable state.  A run cannot go on for ever (`Step.weight_lt`) and stops only where `transmit` returns
(`Inv.progress`).
-/

namespace Trex.Nbd

open List State

open Slice Tally

open Trex.Block

open SparseOverlay (faultless)

open Device.Steady (same)

variable {srv : NBDServer} {neg : NegotiationState}

/-! ## Every run ends where `transmit` returns -/

def Worker.weight : Worker srv → Nat
  | .idle _ => 0
  | .reporting => 1
  | .finishing _ => 2
  | .replying _ _ => 3
  | .discarding | .started _ => 4

def Reader.weight : Reader srv → Nat
  | .stopped => 0
  | .reading => 1
  | .replying _ _ => 2
  | .mutating _ => 3
  | .waiting _ => 4
  | .sending _ => 7

/-- A bound on the steps that are left. -/
def State.weight (s : State srv) : Nat :=
  s.input.length + s.reader.weight + 5 * s.queue.length + tally Worker.weight s.pool + (if s.cancelled then 0 else 1)

/-- Every step makes the weight smaller. -/
lemma Step.weight_lt {s s' : State srv} (hstep : Step srv neg s s') : s'.weight < s.weight := by
  cases hstep with
  | readObserving hr hnext | readMutation hr hnext =>
    have hshort := nextRequest_shorter srv _ _ _ hnext
    simp only [weight, hr, Reader.weight]
    omega
  | readEnd hr | readFails hr | readCancelled hr | sendCancelled hr | waitDone hr
  | waitCancelled hr | mutate hr | mutationReplied hr | mutationReplyFails hr
  | mutationError hr =>
    simp only [weight, hr, Reader.weight]
    omega
  | send hr =>
    simp only [weight, hr, Reader.weight, length_append, length_singleton]
    omega
  | take hw hq | discard hw hq =>
    simp only [weight, hq, length_cons, tally_set_eq hw, Worker.weight]
    omega
  | discarded hw | observe hw | replied hw | replyFails hw | replyError hw =>
    have hle := le_tally Worker.weight s.pool _ (mem_of_getElem? hw)
    simp only [weight, tally_set_eq hw, Worker.weight] at hle ⊢
    omega
  | @done w failed hw =>
    have hle := le_tally Worker.weight s.pool _ (mem_of_getElem? hw)
    simp only [weight, tally_set_eq hw, Worker.weight] at hle ⊢
    cases failed <;> simp <;> omega
  | report hw =>
    have hle := le_tally Worker.weight s.pool _ (mem_of_getElem? hw)
    simp only [weight, tally_set_eq hw, Worker.weight, if_true] at hle ⊢
    split <;> omega
  | cancel hc =>
    simp only [weight, hc]
    simp

/-- The step brings no failure of the wire. -/
def Fine (s s' : State srv) : Prop := s.clean → s'.clean ∧ s'.readFailed = s.readFailed

section

variable [srv.device.Steady] {input : List UInt8} {device : srv.device.State} {s : State srv}

lemma Inv.worker_progress (hinv : Inv neg input device s) {w : Nat} {worker : Worker srv}
    (hw : s.pool[w]? = some worker) (h : s.queue ≠ [] ∨ ∀ failed, worker ≠ .idle failed) :
    ∃ s', Step srv neg s s' ∧ Fine s s' := by
  have hok := hinv.pool worker (mem_of_getElem? hw)
  cases worker with
  | idle failed =>
    obtain ⟨job, queue, hq⟩ : ∃ job queue, s.queue = job :: queue := by
      rcases h with h | h
      · exact exists_cons_of_ne_nil h
      · exact absurd rfl (h failed)
    cases failed with
    | false => exact ⟨_, .take hw hq, fun hclean => ⟨hclean, rfl⟩⟩
    | true => exact ⟨_, .discard hw hq, fun hclean => ⟨hclean, rfl⟩⟩
  | discarding => exact ⟨_, .discarded hw, fun hclean => ⟨hclean, rfl⟩⟩
  | started job => exact ⟨_, .observe hw, fun hclean => ⟨hclean, rfl⟩⟩
  | replying job outcome =>
    cases outcome with
    | ok reply =>
      cases hwire : s.wireDown with
      | false => exact ⟨_, .replied hw hwire, fun hclean => ⟨hclean, rfl⟩⟩
      | true => exact ⟨_, .replyFails hw, fun hclean => by simp [clean, hwire] at hclean⟩
    | error text => exact ⟨_, .replyError hw, fun hclean => ⟨hclean, rfl⟩⟩
  | finishing failed => exact ⟨_, .done hw, fun hclean => ⟨hclean, rfl⟩⟩
  | reporting =>
    have hwire : s.wireDown = true := hok
    exact ⟨_, .report hw, fun hclean => by simp [clean, hwire] at hclean⟩

/-- A non-empty queue or a busy worker never waits for the reader. -/
lemma Inv.pool_progress (h : Inv neg input device s) (hwork : s.queue ≠ [] ∨ tally Worker.busy s.pool ≠ 0) :
    ∃ s', Step srv neg s s' ∧ Fine s s' := by
  rcases hwork with hq | hbusy
  · have hpos : 0 < s.pool.length := by rw [h.size]; exact srv.workers_pos
    exact h.worker_progress (getElem?_eq_getElem hpos) (.inl hq)
  by_contra hstuck
  apply hbusy
  apply tally_eq_zero
  intro worker hmem
  obtain ⟨w, hw⟩ := mem_iff_getElem?.mp hmem
  by_contra hnz
  refine hstuck (h.worker_progress hw (.inr fun failed hidle => ?_))
  rw [hidle] at hnz
  exact hnz rfl

/-- Until everything has finished, some step is possible that fails nothing. -/
lemma Inv.progress (h : Inv neg input device s) : s.finished ∨ ∃ s', Step srv neg s s' ∧ Fine s s' := by
  obtain ⟨env⟩ := srv.device.env_nonempty
  cases hr : s.reader with
  | reading =>
    right
    cases hnext : nextRequest srv s.input with
    | none => exact ⟨_, .readEnd hr hnext, fun hclean => ⟨hclean, rfl⟩⟩
    | some got =>
    obtain ⟨req, rest⟩ := got
    cases hkind : nbdMutationBarrier req.kind with
    | false =>
      let task : Task srv := ⟨req, env⟩
      have hnext : nextRequest srv s.input = some (task.request, rest) := hnext
      exact ⟨_, .readObserving hr hnext hkind, fun hclean => ⟨hclean, rfl⟩⟩
    | true => exact ⟨_, .readMutation hr hnext hkind, fun hclean => ⟨hclean, rfl⟩⟩
  | sending job =>
    right
    by_cases hroom : s.queue.length < srv.workers
    · exact ⟨_, .send hr hroom, fun hclean => ⟨hclean, rfl⟩⟩
    · have := srv.workers_pos
      exact h.pool_progress (.inl (ne_nil_of_length_pos (by omega)))
  | waiting req =>
    right
    by_cases hjobs : s.jobs = 0
    · cases hc : s.cancelled with
      | false => exact ⟨_, .waitDone hr hjobs hc, fun hclean => ⟨hclean, rfl⟩⟩
      | true => exact ⟨_, .waitCancelled hr hjobs hc, fun hclean => ⟨hclean, rfl⟩⟩
    have hcount := h.jobs
    simp only [hr, Reader.busy] at hcount
    refine h.pool_progress ?_
    by_cases hq : s.queue = []
    · rw [hq, length_nil] at hcount
      exact .inr (by omega)
    · exact .inl hq
  | mutating req =>
    let task : Task srv := ⟨req, env⟩
    have hr : s.reader = .mutating task.request := hr
    exact .inr ⟨_, .mutate hr, fun hclean => ⟨hclean, rfl⟩⟩
  | replying job outcome =>
    right
    cases outcome with
    | ok reply =>
      cases hwire : s.wireDown with
      | false => exact ⟨_, .mutationReplied hr hwire, fun hclean => ⟨hclean, rfl⟩⟩
      | true => exact ⟨_, .mutationReplyFails hr, fun hclean => by simp [clean, hwire] at hclean⟩
    | error text => exact ⟨_, .mutationError hr, fun hclean => ⟨hclean, rfl⟩⟩
  | stopped =>
  by_cases hq : s.queue = []
  · by_cases hidle : ∀ worker ∈ s.pool, ∃ failed, worker = .idle failed
    · exact .inl ⟨hr, hq, hidle⟩
    · push Not at hidle
      obtain ⟨worker, hmem, hbusy⟩ := hidle
      obtain ⟨w, hw⟩ := mem_iff_getElem?.mp hmem
      exact .inr (h.worker_progress hw (.inr hbusy))
  · exact .inr (h.pool_progress (.inl hq))

end

/-! ## The promise to the client -/

/-- How many of those who hold jobs hold job `i`. -/
def State.outstanding (s : State srv) (i : Nat) : Nat :=
  (s.queue.map Job.index).count i + s.reader.hits i + tally (Worker.hits i) s.pool

/-- The replies are those of a run that takes the requests one by one. -/
structure SequentiallyConsistent (srv : NBDServer) [srv.device.Steady] (neg : NegotiationState) (input : List UInt8)
    (device : srv.device.State) (s : State srv) : Prop where
  /-- The accepted requests are the first ones of the stream, in arrival order. -/
  arrival : ∃ requests, Reads srv input (s.accepted.map Task.request ++ requests) s.input
  /-- The device has received the mutating calls of the sequential execution, in order. -/
  mutations : s.log = mutationsOf srv neg device s.accepted
  contents : same s.device (contentsAfter srv neg device s.accepted)
  /-- A reply chunk is the one its request gets when all requests before it have been
  executed one at a time, and it has the cookie of the request. -/
  reply : ∀ i reply, (i, reply) ∈ s.replies → ∃ task, s.accepted[i]? = some task ∧
    (perform srv neg (contentsAfter srv neg device (s.accepted.take i)) task).2 = .ok reply ∧
    reply.cookie = task.request.cookie
  /-- No request gets two replies. -/
  once : (s.replies.map Prod.fst).Nodup
  /-- Until a transport error or a cancellation no request is lost. -/
  kept : s.clean → ∀ i, i < s.accepted.length → (s.replies.map Prod.fst).count i + s.outstanding i = 1
  /-- When `transmit` has returned after neither, each request got one reply; -/
  replied : s.finished → s.clean → (s.replies.map Prod.fst).Perm (List.range s.accepted.length)
  /-- and if reading did not fail either, these are all requests of the stream. -/
  all : s.finished → s.clean → s.readFailed = false →
    Reads srv input (s.accepted.map Task.request) s.input ∧ nextRequest srv s.input = none
  /-- The connection goes on until `transmit` returns, for which no failure is needed, -/
  progress : s.finished ∨ ∃ s', Step srv neg s s' ∧ Fine s s'
  /-- and it does return, under every schedule. -/
  terminates : WellFounded fun t t' : State srv => Step srv neg t' t

lemma State.copies_eq (s : State srv) (i : Nat) :
    s.copies i = (s.replies.map Prod.fst).count i + s.outstanding i := by
  unfold copies outstanding
  omega

/-- Nothing is outstanding at the end. -/
lemma State.finished.outstanding {s : State srv} (h : s.finished) (i : Nat) : s.outstanding i = 0 := by
  obtain ⟨hstop, hqueue, hidle⟩ := h
  have hpool : tally (Worker.hits i) s.pool = 0 := by
    apply tally_eq_zero
    intro worker hmem
    obtain ⟨failed, rfl⟩ := hidle worker hmem
    rfl
  simp [State.outstanding, hqueue, hstop, hpool, Reader.hits]

/-- On a clean wire every accepted request has one reply. -/
lemma Inv.replied_perm [srv.device.Steady] {input : List UInt8} {device : srv.device.State} {s : State srv}
    (h : Inv neg input device s) (hfin : s.finished) (hclean : s.clean) :
    (s.replies.map Prod.fst).Perm (range s.accepted.length) := by
  rw [perm_iff_count]
  intro i
  have hcopies := s.copies_eq i
  rw [hfin.outstanding i] at hcopies
  by_cases hi : i < s.accepted.length
  · have hone := h.exact hclean i hi
    rw [count_eq_one_of_mem nodup_range (mem_range.mpr hi)]
    omega
  · have hzero := h.copies i
    rw [if_neg hi] at hzero
    rw [count_eq_zero_of_not_mem (mt mem_range.mp hi)]
    omega

/-- Whatever the schedule of the worker pool, every state of every connection to a steady device is
sequentially consistent. -/
theorem transmit_sequentially_consistent (srv : NBDServer) [srv.device.Steady] (neg : NegotiationState)
    (input : List UInt8) (device : srv.device.State) (s : State srv)
    (h : Reachable srv neg input device s) : SequentiallyConsistent srv neg input device s := by
  have hinv := inv_reachable h
  constructor
  case arrival => exact hinv.dropped
  case mutations => exact hinv.log
  case contents => exact hinv.contents
  case reply =>
    intro i reply hmem
    have hexp := hinv.sent i reply hmem
    obtain ⟨task, hget, hcookie⟩ := expected_cookie hexp
    refine ⟨task, hget, ?_, hcookie⟩
    simpa [expected, hget] using hexp
  case once =>
    rw [List.nodup_iff_count_le_one]
    intro i
    have hcopies := hinv.copies i
    have hsplit := s.copies_eq i
    split at hcopies <;> omega
  case kept =>
    intro hclean i hi
    rw [← s.copies_eq i]
    exact hinv.exact hclean i hi
  case replied => exact hinv.replied_perm
  case all => exact fun hfin => hinv.ended hfin.1
  case progress => exact hinv.progress
  case terminates => exact (measure State.weight).wf.mono fun _ _ hstep => hstep.weight_lt

/-! ## One connection, from the first byte to the last -/

/-- A disk in memory. -/
def memoryDisk (size : Nat) : Device where
  State := List UInt8
  Env := Unit
  size := size
  minimumTransfer := 1
  writable := ⟨true, true⟩
  flush := ⟨true, true⟩
  zero := ⟨true, true⟩
  trim := ⟨false, false⟩
  extents := ⟨false, false⟩
  prefetch := ⟨false, false⟩
  env_nonempty := ⟨()⟩
  exec := fun _ s c => match c with
    | .readAt off n => (s, .ok (slice s off.toNat n))
    | .writeAt data off => (overwrite s off.toNat data, .ok ())
    | .zeroAt off length => (overwrite s off.toNat (List.replicate length.toNat 0), .ok ())
    | .flush => (s, .ok ())
    | .trimAt _ _ | .prefetch _ _ => (s, .error .unsupported)
    | .extents _ _ => (s, .error .unsupported)

instance memoryDisk_steady (size : Nat) : (memoryDisk size).Steady where
  same := Eq
  same_equivalence := ⟨fun _ => rfl, Eq.symm, Eq.trans⟩
  exec_congr := fun _ _ _ _ h => by rw [h]; exact ⟨rfl, rfl⟩
  exec_observes := fun _ c _ h => by cases c <;> first | rfl | simp [Call.observes] at h

def memoryServer : NBDServer := ⟨memoryDisk 2, 8, 1, by decide⟩

instance memoryServer_steady : memoryServer.device.Steady := memoryDisk_steady 2

def plainReplies : NegotiationState := ⟨false, false⟩

def writeSeven : Request := ⟨0, nbdCommandWrite, 5, 0, 1, [7], fun _ => rfl⟩

def readBoth : Request := ⟨0, nbdCommandRead, 6, 0, 2, [], by decide⟩

def writeThenRead : List UInt8 :=
  [0x25, 0x60, 0x95, 0x13, 0, 0, 0, 1, 0, 0, 0, 0, 0, 0, 0, 5, 0, 0, 0, 0, 0, 0, 0, 0, 0, 0, 0, 1, 7] ++
  [0x25, 0x60, 0x95, 0x13, 0, 0, 0, 0, 0, 0, 0, 0, 0, 0, 0, 6, 0, 0, 0, 0, 0, 0, 0, 0, 0, 0, 0, 2]

def writeThenReadServed : State memoryServer where
  input := []
  reader := .stopped
  queue := []
  pool := [.idle false]
  jobs := 0
  device := ([7, 0] : List UInt8)
  log := [⟨Unit, .writeAt [7] 0⟩]
  replies := [(0, .simple 5 0 []), (1, .simple 6 0 [7, 0])]
  wireDown := false
  readFailed := false
  cancelled := false
  accepted := [⟨writeSeven, ()⟩, ⟨readBoth, ()⟩]

lemma writeThenRead_reachable : Reachable memoryServer plainReplies writeThenRead ([0, 0] : List UInt8)
      writeThenReadServed := by
  have start : Reachable memoryServer plainReplies writeThenRead ([0, 0] : List UInt8) _ := .init
  have hwrite : nextRequest memoryServer writeThenRead = some (writeSeven, writeThenRead.drop 29) := by decide +kernel
  have hread : nextRequest memoryServer (writeThenRead.drop 29) = some (readBoth, []) := by decide +kernel
  have waiting := start.step (.readMutation rfl hwrite rfl)
  have mutating := waiting.step (.waitDone rfl rfl rfl)
  have mutated := mutating.step (.mutate
    (show _ = Reader.mutating (⟨writeSeven, ()⟩ : Task memoryServer).request from rfl))
  have written := mutated.step (.mutationReplied
    (show _ = Reader.replying _ (.ok (.simple 5 0 [])) from rfl) rfl)
  have sending := written.step (.readObserving rfl
    (show _ = some ((⟨readBoth, ()⟩ : Task memoryServer).request, []) from hread) rfl)
  have queued := sending.step (.send rfl (by decide))
  have started := queued.step (.take (w := 0) rfl rfl)
  have observed := started.step (.observe (w := 0) rfl)
  have replied := observed.step (.replied (w := 0)
    (show _ = some (Worker.replying _ (.ok (.simple 6 0 [7, 0]))) from rfl) rfl)
  have idle := replied.step (.done (w := 0) rfl)
  exact idle.step (.readEnd rfl rfl)

/-- A write and a read behind it, on a disk in memory. -/
theorem write_then_read_consistent :
    writeThenReadServed.finished ∧ writeThenReadServed.clean ∧
      SequentiallyConsistent memoryServer plainReplies writeThenRead ([0, 0] : List UInt8)
        writeThenReadServed := by
  refine ⟨⟨rfl, rfl, fun worker hmem => ⟨false, List.mem_singleton.mp hmem⟩⟩, ⟨rfl, rfl⟩, ?_⟩
  exact transmit_sequentially_consistent _ _ _ _ _ writeThenRead_reachable

/-! ## A device that is not steady -/

/-- The sparse overlay as a device: after a failed read it refuses everything.  What happens below it is the
base and the store, and the answer of `Sync`. -/
def sparseDevice (b : Base) : Device where
  State := SparseOverlay
  Env := SparseIO b × Option BlockError
  size := b.data.length
  minimumTransfer := UInt32.ofNat b.logicalBlockSize
  writable := ⟨true, true⟩
  flush := ⟨true, true⟩
  zero := ⟨false, false⟩
  trim := ⟨false, false⟩
  extents := ⟨false, false⟩
  prefetch := ⟨false, false⟩
  env_nonempty := ⟨(faultless b, none)⟩
  exec := fun env d c => match c with
    | .readAt off n =>
      let (answer, d) := d.readAt sparseChunkSize off n env.1
      (d, match answer.err with
        | some err => .error err
        | none => .ok answer.bytes)
    | .writeAt data off =>
      let (answer, d) := d.writeAt sparseChunkSize off data env.1
      (d, match answer.err with
        | some err => .error err
        | none => .ok ())
    | .flush =>
      match d.failure, env.2 with
      | some err, _ => (d, .error err)
      | none, some err => (d.fail err, .error err)
      | none, none => (d, .ok ())
    | .zeroAt _ _ | .trimAt _ _ | .prefetch _ _ => (d, .error .unsupported)
    | .extents _ _ => (d, .error .unsupported)

def twoBytes : Base := ⟨[1, 2], 1⟩

/-- The base cannot be read. -/
def unreadable : SparseIO twoBytes where
  __ := faultless twoBytes
  base := ⟨fun _ _ => ([], some (.other "I/O error")), fun _ _ => ⟨0, Nat.zero_le _, rfl⟩⟩

def sparseServer : NBDServer := ⟨sparseDevice twoBytes, 8, 2, Nat.two_pos⟩

def sparseStart : sparseServer.device.State := newSparseOverlay fun _ => 0

def readAgain : Request := ⟨0, nbdCommandRead, 7, 0, 2, [], by decide⟩

def readTwice : List UInt8 :=
  [0x25, 0x60, 0x95, 0x13, 0, 0, 0, 0, 0, 0, 0, 0, 0, 0, 0, 6, 0, 0, 0, 0, 0, 0, 0, 0, 0, 0, 0, 2] ++
  [0x25, 0x60, 0x95, 0x13, 0, 0, 0, 0, 0, 0, 0, 0, 0, 0, 0, 7, 0, 0, 0, 0, 0, 0, 0, 0, 0, 0, 0, 2]

def goodRead : Task sparseServer := ⟨readBoth, (faultless twoBytes, none)⟩

/-- The second read, whose storage fails. -/
def failingRead : Task sparseServer := ⟨readAgain, (unreadable, none)⟩

/-- Two reads on a sparse overlay.  The second one fails and runs first: the first read, which returns its
data in the sequential execution, gets the error. -/
theorem overtaken_read_fails :
    ∃ s, Reachable sparseServer plainReplies readTwice sparseStart s ∧ s.clean ∧
      s.accepted = [goodRead, failingRead] ∧ (0, Reply.simple 6 nbdErrIO []) ∈ s.replies ∧
      expected sparseServer plainReplies sparseStart s.accepted 0 = some (.ok (.simple 6 0 [1, 2])) := by
  have start : Reachable sparseServer plainReplies readTwice sparseStart _ := .init
  have hfirst : nextRequest sparseServer readTwice = some (goodRead.request, readTwice.drop 28) := by decide +kernel
  have hsecond : nextRequest sparseServer (readTwice.drop 28) = some (failingRead.request, []) := by decide +kernel
  have sending := start.step (.readObserving rfl hfirst rfl)
  have queued := sending.step (.send rfl (by decide))
  have sendingAgain := queued.step (.readObserving rfl hsecond rfl)
  have queuedAgain := sendingAgain.step (.send rfl (by decide))
  have started := queuedAgain.step (.take (w := 0) rfl rfl)
  have startedAgain := started.step (.take (w := 1) rfl rfl)
  have failed := startedAgain.step (.observe (w := 1) rfl)
  have observed := failed.step (.observe (w := 0) rfl)
  have replied := observed.step (.replied (w := 0)
    (show _ = some (Worker.replying _ (.ok (.simple 6 nbdErrIO []))) from rfl) rfl)
  exact ⟨_, replied, ⟨rfl, rfl⟩, rfl, List.mem_singleton.mpr rfl, rfl⟩

end Trex.Nbd
