import Trex.Git.Parallel

/-!
# The steps of the parallel import, one by one

`Moves` lists what a step can do, with its guard; `moves_of_step` says that there is
nothing else.  The invariants are proved over `Moves`.
-/

namespace Trex.GitStore

open Option Import

open Trex.Repo (GitOID Env)

namespace Import

/-- What a step can do, with its guard. -/
inductive Moves (env : Env) (pack : Pack) (s : Import) : Event → Import → Prop where
  | cancel : s.cancelled = false → Moves env pack s .cancel { s with cancelled := true }
  | scan {i : Nat} {batch : List PackEntry} (ok : Bool) : s.scanner = .scanning i batch →
      Moves env pack s (.scan ok) { s with scanner := scanNext pack i batch ok }
  | scanSend {i : Nat} {batch : ScanBatch} : s.scanner = .sending i batch → s.scans.length < 2 →
      Moves env pack s .scanSend { s with
        scans := s.scans ++ [batch]
        scanner := if batch.done then .exited else .scanning i [] }
  | scanStop {i : Nat} {batch : ScanBatch} : s.scanner = .sending i batch → s.cancelled = true →
      Moves env pack s .scanStop { s with scanner := .exited }
  | start {w : Nat} (ok : Bool) : s.workers[w]? = some .starting →
      Moves env pack s (.start w ok)
        (s.setWorker w (if ok then .idle else .sending { index := none, err := some .failed }))
  | seek {w : Nat} {job : DeltaJob} {worker : Worker} {repo : Repository} (ok : Bool) :
      s.workers[w]? = some (.seeking job) →
      Import.seek pack job ok s.session.repo = (worker, repo) →
      Moves env pack s (.work w ok) ((s.setWorker w worker).setRepo repo)
  | read {w : Nat} {job : DeltaJob} {h : PackEntry} {kind : UInt8} {baseSize : Nat}
      {worker : Worker} {repo : Repository} (ok : Bool) :
      s.workers[w]? = some (.reading job h kind baseSize) →
      Import.read env job h kind baseSize ok s.session.repo = (worker, repo) →
      Moves env pack s (.work w ok) ((s.setWorker w worker).setRepo repo)
  | storeFails {w : Nat} {job : DeltaJob} {kind : UInt8} {oid : GitOID} {body : Bytes} {e : Err}
      {repo : Repository} (ok : Bool) : s.workers[w]? = some (.storing job kind oid body) →
      ingestStore oid kind body s.session.repo = (.error e, repo) →
      Moves env pack s (.work w ok) ((s.setWorker w (fail job e)).setRepo repo)
  | stored {w : Nat} {job : DeltaJob} {kind : UInt8} {oid : GitOID} {body : Bytes}
      {edges : List (GitOID × UInt8)} {err : Option Err} {repo : Repository} (ok : Bool) :
      s.workers[w]? = some (.storing job kind oid body) →
      ingestStore oid kind body s.session.repo = (.ok (), repo) →
      gitLinks kind body 20 = (edges, err) →
      Moves env pack s (.work w ok)
        { (s.setWorker w (.sending { index := some job.index, edges, oid, kind, body, err })).setRepo
            repo with
          ingested := s.ingested ++ [⟨job.index, oid, kind, body⟩] }
  | send {w : Nat} {r : DeltaResult} : s.workers[w]? = some (.sending r) →
      s.results.length < s.workers.length →
      Moves env pack s (.send w) { s.setWorker w (if r.err.isSome then .exited else .idle) with
        results := s.results ++ [r] }
  | stop {w : Nat} {worker : Worker} : s.workers[w]? = some worker →
      (worker = .idle ∨ ∃ r, worker = .sending r) → s.cancelled = true →
      Moves env pack s (.stop w) (s.setWorker w .exited)
  | finish : s.main = .running → s.isOpen pack = false →
      Moves env pack s .finish (s.leave (.ok (s.checksum, s.session.storer.inserted)))
  | leaveCancelled : s.main = .running → s.cancelled = true →
      Moves env pack s .leaveCancelled (s.leave (.error (.reported .canceled)))
  | giveUp : s.main = .running → s.isOpen pack = true → s.isStuck = true →
      Moves env pack s .giveUp (s.leave (.error .missingOrCyclic))
  | scanFails {batch : ScanBatch} {scans : List ScanBatch} {e : Err} : s.scans = batch :: scans →
      s.main = .running → s.sched.scanDone = false → batch.err = some e →
      Moves env pack s .receiveScan ({ s with scans }.leave (.error (.reported e)))
  | headersFail {batch : ScanBatch} {scans : List ScanBatch} {e : Stop} {repo : Repository} :
      s.scans = batch :: scans → s.main = .running → s.sched.scanDone = false → batch.err = none →
      addHeaders batch.headers s.sched s.session.repo = (.error e, repo) →
      Moves env pack s .receiveScan (({ s with scans }.setRepo repo).leave (.error e))
  | headers {batch : ScanBatch} {scans : List ScanBatch} {sched : Sched} {repo : Repository} :
      s.scans = batch :: scans → s.main = .running → s.sched.scanDone = false → batch.err = none →
      addHeaders batch.headers s.sched s.session.repo = (.ok sched, repo) → batch.done = false →
      Moves env pack s .receiveScan { { s with scans }.setRepo repo with sched }
  | countFails {batch : ScanBatch} {scans : List ScanBatch} {sched : Sched} {repo : Repository} :
      s.scans = batch :: scans → s.main = .running → s.sched.scanDone = false → batch.err = none →
      addHeaders batch.headers s.sched s.session.repo = (.ok sched, repo) → batch.done = true →
      sched.scanned ≠ pack.entries.length →
      Moves env pack s .receiveScan (({ s with scans }.setRepo repo).leave (.error .scannedCount))
  | scanEnds {batch : ScanBatch} {scans : List ScanBatch} {sched : Sched} {repo : Repository} :
      s.scans = batch :: scans → s.main = .running → s.sched.scanDone = false → batch.err = none →
      addHeaders batch.headers s.sched s.session.repo = (.ok sched, repo) → batch.done = true →
      sched.scanned = pack.entries.length →
      Moves env pack s .receiveScan { { s with scans }.setRepo repo with
        sched := { sched with scanDone := true }
        checksum := batch.checksum }
  | dispatch {w i : Nat} {fromRoot : Bool} : s.workers[w]? = some .idle →
      s.offer = some (i, fromRoot) → s.main = .running →
      Moves env pack s (.dispatch w)
        { s.setWorker w (.seeking ⟨i, (s.sched.nodes i).offset, (s.sched.nodes i).base⟩) with
          sched := s.sched.take fromRoot
          dispatched := s.dispatched ++ [i] }
  | resultFails {r : DeltaResult} {results : List DeltaResult} {e : Err} :
      s.results = r :: results → s.main = .running → r.err = some e →
      Moves env pack s .receiveResult ({ s with results }.leave (.error (.reported e)))
  | accountFails {r : DeltaResult} {results : List DeltaResult} {e : Err} {session : Session} :
      s.results = r :: results → s.main = .running → r.err = none →
      accountLinks r.oid r.kind (requireAll r.edges) s.session = (.error e, session) →
      Moves env pack s .receiveResult ({ s with results, session }.leave (.error (.reported e)))
  | accounted {r : DeltaResult} {results : List DeltaResult} {session : Session} :
      s.results = r :: results → s.main = .running → r.err = none →
      accountLinks r.oid r.kind (requireAll r.edges) s.session = (.ok (), session) →
      Moves env pack s .receiveResult
        { s with results, session, sched := s.sched.release (r.index.getD 0) r.oid }
  | wait {r : Except Stop (Bytes × Nat)} : s.main = .leaving r → s.scanner = .exited →
      (∀ w ∈ s.workers, w = .exited) → Moves env pack s .wait { s with main := .returned r }

variable {env : Env} {pack : Pack} {s s' : Import}

lemma running_of_selecting (h : s.selecting pack = true) :
    s.main = .running ∧ s.isOpen pack = true ∧ s.isStuck = false := by
  unfold selecting at h
  rw [Bool.and_eq_true, Bool.and_eq_true, Bool.not_eq_true'] at h
  refine ⟨?_, h.1.2, h.2⟩
  have := h.1.1
  split at this
  next heq => exact heq
  · cases this

lemma moves_work {w : Nat} {ok : Bool} (h : s.work env pack w ok = some s') : Moves env pack s (.work w ok) s' := by
  unfold work at h
  split at h
  next job hw =>
    cases hseek : seek pack job ok s.session.repo with
    | mk worker repo =>
    rw [hseek] at h
    obtain rfl := some.inj h
    exact .seek ok hw hseek
  next job entry kind baseSize hw =>
    cases hread : read env job entry kind baseSize ok s.session.repo with
    | mk worker repo =>
    rw [hread] at h
    obtain rfl := some.inj h
    exact .read ok hw hread
  next job kind oid body hw =>
    obtain rfl := some.inj h
    unfold store
    cases hsto : ingestStore oid kind body s.session.repo with
    | mk r repo =>
    cases r with
    | error e => exact .storeFails ok hw hsto
    | ok u =>
      cases hlinks : gitLinks kind body 20 with
      | mk edges err => exact .stored ok hw hsto hlinks
  · cases h

lemma moves_receiveScan (h : s.receiveScan pack = some s') : Moves env pack s .receiveScan s' := by
  unfold receiveScan at h
  split at h
  next batch scans hscans =>
    split at h
    next hguard =>
      rw [Bool.and_eq_true, Bool.not_eq_true'] at hguard
      have hrun := (running_of_selecting hguard.1).1
      dsimp only at h
      split at h
      next e herr =>
        obtain rfl := some.inj h
        exact .scanFails hscans hrun hguard.2 herr
      next herr =>
      split at h
      next e repo hadd =>
        obtain rfl := some.inj h
        exact .headersFail hscans hrun hguard.2 herr hadd
      next sched repo hadd =>
      split at h
      next hdone =>
        obtain rfl := some.inj h
        exact .headers hscans hrun hguard.2 herr hadd (by simpa using hdone)
      next hdone =>
      split at h
      next hcount =>
        obtain rfl := some.inj h
        exact .countFails hscans hrun hguard.2 herr hadd (by simpa using hdone) hcount
      next hcount =>
      obtain rfl := some.inj h
      exact .scanEnds hscans hrun hguard.2 herr hadd (by simpa using hdone)
        (by simpa using hcount)
    · cases h
  · cases h

lemma moves_receiveResult (h : s.receiveResult pack = some s') : Moves env pack s .receiveResult s' := by
  unfold receiveResult at h
  split at h
  next r results hres =>
    split at h
    next hguard =>
      have hrun := (running_of_selecting hguard).1
      split at h
      next e herr =>
        obtain rfl := some.inj h
        exact .resultFails hres hrun herr
      next herr =>
      obtain rfl := some.inj h
      unfold account
      cases hacc : accountLinks r.oid r.kind (requireAll r.edges) s.session with
      | mk res session =>
      cases res with
      | error e => exact .accountFails hres hrun herr hacc
      | ok u => exact .accounted hres hrun herr hacc
    · cases h
  · cases h

/-! ## The other functions, one by one -/

lemma moves_scan {ok : Bool} (h : s.scan pack ok = some s') : Moves env pack s (.scan ok) s' := by
  unfold scan at h
  split at h
  next i batch hscan =>
    obtain rfl := some.inj h
    exact .scan ok hscan
  · cases h

lemma moves_scanSend (h : s.scanSend = some s') : Moves env pack s .scanSend s' := by
  unfold scanSend at h
  split at h
  next i batch hscan =>
    obtain ⟨hroom, h⟩ := ite_none_right_eq_some.mp h
    obtain rfl := some.inj h
    exact .scanSend hscan hroom
  · cases h

lemma moves_scanStop (h : s.scanStop = some s') : Moves env pack s .scanStop s' := by
  unfold scanStop at h
  split at h
  next i batch hscan =>
    obtain ⟨hcancelled, h⟩ := ite_none_right_eq_some.mp h
    obtain rfl := some.inj h
    exact .scanStop hscan hcancelled
  · cases h

lemma moves_start {w : Nat} {ok : Bool} (h : s.start w ok = some s') : Moves env pack s (.start w ok) s' := by
  unfold start at h
  split at h
  next hw =>
    obtain rfl := some.inj h
    exact .start ok hw
  · cases h

lemma moves_send {w : Nat} (h : s.send w = some s') : Moves env pack s (.send w) s' := by
  unfold send at h
  split at h
  next r hw =>
    obtain ⟨hroom, h⟩ := ite_none_right_eq_some.mp h
    obtain rfl := some.inj h
    exact .send hw hroom
  · cases h

lemma moves_stop {w : Nat} (h : s.stop w = some s') : Moves env pack s (.stop w) s' := by
  unfold stop at h
  split at h
  next hw =>
    obtain ⟨hcancelled, h⟩ := ite_none_right_eq_some.mp h
    obtain rfl := some.inj h
    exact .stop hw (.inl rfl) hcancelled
  next r hw =>
    obtain ⟨hcancelled, h⟩ := ite_none_right_eq_some.mp h
    obtain rfl := some.inj h
    exact .stop hw (.inr ⟨r, rfl⟩) hcancelled
  · cases h

lemma moves_finish (h : s.finish pack = some s') : Moves env pack s .finish s' := by
  unfold finish at h
  split at h
  next hrun =>
    obtain ⟨hopen, h⟩ := ite_none_left_eq_some.mp h
    obtain rfl := some.inj h
    exact .finish hrun (Bool.not_eq_true _ ▸ hopen)
  · cases h

lemma moves_leaveCancelled (h : s.leaveCancelled pack = some s') : Moves env pack s .leaveCancelled s' := by
  unfold leaveCancelled at h
  split at h
  next hrun =>
    obtain ⟨hguard, h⟩ := ite_none_right_eq_some.mp h
    obtain rfl := some.inj h
    exact .leaveCancelled hrun ((Bool.and_eq_true _ _).mp hguard).2
  · cases h

lemma moves_giveUp (h : s.giveUp pack = some s') : Moves env pack s .giveUp s' := by
  unfold giveUp at h
  split at h
  next hrun =>
    obtain ⟨hguard, h⟩ := ite_none_right_eq_some.mp h
    obtain rfl := some.inj h
    rw [Bool.and_eq_true] at hguard
    exact .giveUp hrun hguard.1 hguard.2
  · cases h

lemma moves_dispatch {w : Nat} (h : s.dispatch pack w = some s') : Moves env pack s (.dispatch w) s' := by
  unfold dispatch at h
  split at h
  next i fromRoot hw hofr =>
    obtain ⟨hguard, h⟩ := ite_none_right_eq_some.mp h
    obtain rfl := some.inj h
    exact .dispatch hw hofr (running_of_selecting hguard).1
  · cases h

lemma moves_wait (h : s.wait = some s') : Moves env pack s .wait s' := by
  unfold wait at h
  split at h
  next r hmain hscan =>
    obtain ⟨hall, h⟩ := ite_none_right_eq_some.mp h
    obtain rfl := some.inj h
    refine .wait hmain hscan fun w hw => ?_
    have hexited := List.all_eq_true.mp hall w hw
    split at hexited
    · rfl
    · cases hexited
  · cases h

/-- A step is one of the moves. -/
lemma moves_of_step {e : Event} (h : s.step env pack e = some s') : Moves env pack s e s' := by
  cases e with
  | cancel =>
    simp only [step] at h
    obtain ⟨hcancelled, h⟩ := ite_none_left_eq_some.mp h
    obtain rfl := some.inj h
    exact .cancel (Bool.not_eq_true _ ▸ hcancelled)
  | scan ok => exact moves_scan h
  | scanSend => exact moves_scanSend h
  | scanStop => exact moves_scanStop h
  | start w ok => exact moves_start h
  | work w ok => exact moves_work h
  | send w => exact moves_send h
  | stop w => exact moves_stop h
  | finish => exact moves_finish h
  | leaveCancelled => exact moves_leaveCancelled h
  | giveUp => exact moves_giveUp h
  | receiveScan => exact moves_receiveScan h
  | dispatch w => exact moves_dispatch h
  | receiveResult => exact moves_receiveResult h
  | wait => exact moves_wait h

end Import

end Trex.GitStore
