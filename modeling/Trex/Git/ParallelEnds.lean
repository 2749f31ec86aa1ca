import Trex.Git.ParallelRun

/-!
# Every run of the parallel import ends

Each step leaves fewer steps to make (`Inv.weight_lt`), and a state that has not returned can make one
(`Inv.progress`).
-/

namespace Trex.GitStore

open List Import

open Tally
open Trex.Repo (Env)

namespace Import

variable {env : Env} {pack : Pack} {first : Repository} {ws : Nat} {s s' : Import}

/-! ## Every run ends -/

def scannerWeight (pack : Pack) : Scanner → Nat
  | .scanning i batch => 4 * (pack.entries.length - i) + if batch.isEmpty then 3 else 6
  | .sending i batch => 4 * (pack.entries.length - i) + if batch.done then 2 else 5
  | .exited => 0

def workerWeight : Worker → Nat
  | .exited => 0
  | .idle => 1
  | .starting => 3
  | .sending r => if r.index.isSome then 4 else 2
  | .storing _ _ _ _ => 5
  | .reading _ _ _ _ => 6
  | .seeking _ => 7

def mainWeight : Main → Nat
  | .running => 2
  | .leaving _ => 1
  | .returned _ => 0

/-- A bound on the steps that are left. -/
def weight (pack : Pack) (s : Import) : Nat :=
  scannerWeight pack s.scanner + s.scans.length + tally workerWeight s.workers + s.results.length +
    7 * (pack.entries.length - s.dispatched.length) + mainWeight s.main +
    (!s.cancelled).toNat

lemma scanNext_weight (pack : Pack) (i : Nat) (batch : List PackEntry) (ok : Bool) :
    scannerWeight pack (scanNext pack i batch ok) < scannerWeight pack (.scanning i batch) := by
  have hbatch : 3 ≤ if batch.isEmpty then 3 else 6 := by split <;> omega
  unfold scanNext
  cases hget : pack.entries[i]? with
  | some e =>
    have hlt := (List.getElem?_eq_some_iff.mp hget).1
    dsimp only
    split
    · simp only [scannerWeight, if_true]
      omega
    split
    · simp only [scannerWeight, Bool.false_eq_true, if_false]
      omega
    · have hne : ¬ (batch ++ [e]).isEmpty = true := by simp
      simp only [scannerWeight, if_neg hne]
      omega
  | none =>
  dsimp only
  split
  next hne =>
    simp only [scannerWeight, List.isEmpty_iff, if_neg hne, Bool.false_eq_true, if_false]
    omega
  next hemp =>
    simp only [scannerWeight, if_true]
    omega

variable {r : Except Stop (Bytes × Nat)} {w : Nat} {job : DeltaJob} {ok : Bool}
  {repo repo' : Repository} {worker : Worker} {e : Event}

lemma leave_weight (hrun : s.main = .running) : (s.leave r).weight pack < s.weight pack := by
  simp only [weight, leave, hrun, mainWeight, Bool.not_true, Bool.toNat_false]
  omega

/-- A worker that gets on makes the weight smaller. -/
lemma worker_weight {old new : Worker} (hw : s.workers[w]? = some old)
    (hlt : workerWeight new < workerWeight old) (hworkers : s'.workers = s.workers.set w new)
    (hscan : s'.scanner = s.scanner) (hscans : s'.scans = s.scans)
    (hres : s'.results = s.results) (hdisp : s'.dispatched = s.dispatched)
    (hmain : s'.main = s.main) (hcanc : s'.cancelled = s.cancelled) : s'.weight pack < s.weight pack := by
  have hset := tally_set workerWeight s.workers w old new hw
  unfold weight
  rw [hworkers, hscan, hscans, hres, hdisp, hmain, hcanc]
  omega

lemma popScan_weight {batch : ScanBatch} (hscans : s.scans = batch :: s'.scans)
    (hworkers : s'.workers = s.workers) (hscan : s'.scanner = s.scanner)
    (hres : s'.results = s.results) (hdisp : s'.dispatched = s.dispatched)
    (hmain : s'.main = s.main) (hcanc : s'.cancelled = s.cancelled) : s'.weight pack < s.weight pack := by
  unfold weight
  rw [hworkers, hscan, hscans, hres, hdisp, hmain, hcanc, length_cons]
  omega

lemma popResult_weight {r : DeltaResult} (hres : s.results = r :: s'.results)
    (hworkers : s'.workers = s.workers) (hscan : s'.scanner = s.scanner)
    (hscans : s'.scans = s.scans) (hdisp : s'.dispatched = s.dispatched)
    (hmain : s'.main = s.main) (hcanc : s'.cancelled = s.cancelled) : s'.weight pack < s.weight pack := by
  unfold weight
  rw [hworkers, hscan, hscans, hres, hdisp, hmain, hcanc, length_cons]
  omega

lemma seek_weight (h : seek pack job ok repo = (worker, repo')) :
    workerWeight worker < workerWeight (.seeking job) := by
  unfold seek at h
  split at h
  · obtain ⟨rfl, -⟩ := Prod.mk.inj h
    simp [fail, workerWeight]
  split at h
  · obtain ⟨rfl, -⟩ := Prod.mk.inj h
    simp [fail, workerWeight]
  split at h
  · split at h <;> obtain ⟨rfl, -⟩ := Prod.mk.inj h <;> simp [fail, workerWeight]
  · obtain ⟨rfl, -⟩ := Prod.mk.inj h
    simp [workerWeight]

lemma read_weight {h : PackEntry} {kind : UInt8} {baseSize : Nat}
    (hread : read env job h kind baseSize ok repo = (worker, repo')) :
    workerWeight worker < workerWeight (.reading job h kind baseSize) := by
  unfold read at hread
  split at hread
  · split at hread <;> obtain ⟨rfl, -⟩ := Prod.mk.inj hread <;> simp [fail, workerWeight]
  · obtain ⟨rfl, -⟩ := Prod.mk.inj hread
    simp [fail, workerWeight]

lemma Core.dispatched_length (h : Core pack first s) : s.dispatched.length ≤ pack.entries.length := by
  have hsub : s.dispatched.toFinset ⊆ Finset.range pack.entries.length := by
    intro i hi
    exact Finset.mem_range.mpr (h.dispatched_lt (mem_toFinset.mp hi))
  have := Finset.card_le_card hsub
  rwa [toFinset_card_of_nodup (nodup_dispatched h), Finset.card_range] at this

/-- Every step makes the weight smaller. -/
lemma Inv.weight_lt (h : Inv pack first ws s) (h' : Inv pack first ws s')
    (hmove : Moves env pack s e s') : s'.weight pack < s.weight pack := by
  cases hmove with
  | cancel hc => simp [weight, hc]
  | @scan i batch ok hs =>
    have := scanNext_weight pack i batch ok
    simp only [weight, hs]
    omega
  | @scanSend i batch hs hroom =>
    have hlt : scannerWeight pack (if batch.done then .exited else .scanning i []) + 1 <
        scannerWeight pack (.sending i batch) := by
      cases hd : batch.done <;> simp [scannerWeight, hd]
    simp only [weight, hs, length_append, length_singleton]
    omega
  | @scanStop i batch hs hc =>
    have hpos : 0 < scannerWeight pack (.sending i batch) := by cases hd : batch.done <;> simp [scannerWeight, hd]
    have hzero : scannerWeight pack .exited = 0 := rfl
    simp only [weight, hs]
    omega
  | @start w ok hw =>
    refine worker_weight hw ?_ rfl rfl rfl rfl rfl rfl rfl
    cases ok <;> decide
  | seek ok hw hseek => exact worker_weight hw (seek_weight hseek) rfl rfl rfl rfl rfl rfl rfl
  | read ok hw hread => exact worker_weight hw (read_weight hread) rfl rfl rfl rfl rfl rfl rfl
  | storeFails ok hw hsto => exact worker_weight hw (by simp [fail, workerWeight]) rfl rfl rfl rfl rfl rfl rfl
  | @stored w job kind oid body edges err repo ok hw hsto hlinks =>
    have hlt : workerWeight (.sending { index := some job.index, edges, oid, kind, body, err }) <
        workerWeight (.storing job kind oid body) := by simp [workerWeight]
    exact worker_weight hw hlt rfl rfl rfl rfl rfl rfl rfl
  | @send w r hw hroom =>
    have hlt : workerWeight (if r.err.isSome then .exited else .idle) + 1 < workerWeight (.sending r) := by
      cases herr : r.err with
      | some e => cases hi : r.index <;> simp [workerWeight, hi]
      | none =>
        obtain ⟨i, hi, -⟩ := h.core.sending r (mem_of_getElem? hw) herr
        simp [workerWeight, hi]
    have hset := tally_set workerWeight s.workers w _ (if r.err.isSome then .exited else .idle) hw
    simp only [weight, setWorker, length_append, length_singleton]
    omega
  | stop hw hworkers hc =>
    refine worker_weight hw ?_ rfl rfl rfl rfl rfl rfl rfl
    rcases hworkers with rfl | ⟨r, rfl⟩
    · decide
    · cases hi : r.index <;> simp [workerWeight, hi]
  | finish hrun | leaveCancelled hrun | giveUp hrun => exact leave_weight hrun
  | @scanFails batch scans e hscans hrun hs herr =>
    have hrun' : { s with scans }.main = .running := hrun
    exact (leave_weight hrun').trans (popScan_weight hscans rfl rfl rfl rfl rfl rfl)
  | @headersFail batch scans _ repo hscans hrun | @countFails batch scans _ repo hscans hrun =>
    have hrun' : ({ s with scans }.setRepo repo).main = .running := hrun
    exact (leave_weight hrun').trans (popScan_weight hscans rfl rfl rfl rfl rfl rfl)
  | headers hscans | scanEnds hscans => exact popScan_weight hscans rfl rfl rfl rfl rfl rfl
  | @dispatch w i fromRoot hw hofr hrun =>
    -- the new worker's seven steps were those of an object that was left
    have hroom := h'.core.dispatched_length
    have hset := tally_set workerWeight s.workers w _
      (.seeking ⟨i, (s.sched.nodes i).offset, (s.sched.nodes i).base⟩) hw
    simp only [workerWeight] at hset
    simp only [length_append, length_singleton] at hroom
    simp only [weight, setWorker, length_append, length_singleton]
    omega
  | @resultFails r results e hres hrun herr =>
    have hrun' : { s with results }.main = .running := hrun
    exact (leave_weight hrun').trans (popResult_weight hres rfl rfl rfl rfl rfl rfl)
  | @accountFails r results e session hres hrun herr hacc =>
    have hrun' : { s with results, session }.main = .running := hrun
    exact (leave_weight hrun').trans (popResult_weight hres rfl rfl rfl rfl rfl rfl)
  | accounted hres hrun herr hacc => exact popResult_weight hres rfl rfl rfl rfl rfl rfl
  | wait hmain hs hall => simp [weight, hmain, mainWeight]

/-- A run has a bounded number of steps. -/
lemma length_le_weight (repo : Repository) (hworkers : 0 < ws) {evs : List Event}
    (hrun : (init repo ws).run env pack evs = some s) :
    evs.length ≤ 11 * pack.entries.length + 3 * ws + 6 := by
  have hfrom : ∀ {evs : List Event} {s0 : Import}, Inv pack repo ws s0 →
      s0.run env pack evs = some s → evs.length ≤ s0.weight pack := by
    intro evs
    induction evs with
    | nil => exact fun _ _ => Nat.zero_le _
    | cons e evs ih =>
    intro s0 h hrun
    obtain ⟨s1, hstep, hrest⟩ := Option.bind_eq_some_iff.mp hrun
    have hmove := moves_of_step hstep
    have h1 := h.step hworkers hmove
    have hlt := h.weight_lt h1 hmove
    have := ih h1 hrest
    rw [length_cons]
    omega
  have hinit : (init repo ws).weight pack = 11 * pack.entries.length + 3 * ws + 6 := by
    simp only [weight, init, tally_replicate, scannerWeight, workerWeight, mainWeight,
      isEmpty_nil, if_true, length_nil, Bool.not_false, Bool.toNat_true]
    omega
  rw [← hinit]
  exact hfrom (inv_init pack repo ws) hrun

/-! ## No run is stuck before it returns -/

/-- The import itself can go on: a cancellation by the caller, which is possible at any time, does not count. -/
def CanStep (env : Env) (pack : Pack) (s : Import) : Prop := ∃ e ≠ .cancel, ∃ s', s.step env pack e = some s'

lemma canStep_of_isSome (he : e ≠ .cancel) (h : (s.step env pack e).isSome = true) : CanStep env pack s :=
  ⟨e, he, Option.isSome_iff_exists.mp h⟩

/-- A worker can go on unless it has exited or waits for the main loop. -/
lemma canStep_worker (hw : s.workers[w]? = some worker) (hexited : worker ≠ .exited)
    (hidle : worker = .idle → s.cancelled = true) (hsend : ∀ r, worker = .sending r →
      s.cancelled = true ∨ s.results.length < s.workers.length) : CanStep env pack s := by
  cases worker with
  | exited => exact absurd rfl hexited
  | starting => exact canStep_of_isSome (e := .start w true) (by simp) (by simp [step, start, hw])
  | idle => exact canStep_of_isSome (e := .stop w) (by simp) (by simp [step, stop, hw, hidle rfl])
  | seeking | reading | storing => exact canStep_of_isSome (e := .work w true) (by simp) (by simp [step, work, hw])
  | sending r =>
  rcases hsend r rfl with hc | hroom
  · exact canStep_of_isSome (e := .stop w) (by simp) (by simp [step, stop, hw, hc])
  · exact canStep_of_isSome (e := .send w) (by simp) (by simp [step, send, hw, hroom])

/-- Once the loop is left, the goroutines exit and the import returns. -/
lemma canStep_leaving (hmain : s.main = .leaving r) (hcanc : s.cancelled = true) : CanStep env pack s := by
  cases hscan : s.scanner with
  | scanning i batch => exact canStep_of_isSome (e := .scan true) (by simp) (by simp [step, scan, hscan])
  | sending i batch => exact canStep_of_isSome (e := .scanStop) (by simp) (by simp [step, scanStop, hscan, hcanc])
  | exited =>
  by_cases hall : ∀ worker ∈ s.workers, worker = .exited
  · refine canStep_of_isSome (e := .wait) (by simp) ?_
    simp only [step, wait, hmain, hscan]
    split
    · rfl
    next hno => exact absurd (all_eq_true.mpr fun w hw => by rw [hall w hw]) hno
  · push Not at hall
    obtain ⟨worker, hmem, hne⟩ := hall
    obtain ⟨w, hw⟩ := mem_iff_getElem?.mp hmem
    exact canStep_worker hw hne (fun _ => hcanc) fun _ _ => .inl hcanc

lemma canStep_receiveResult (hsel : s.selecting pack = true) (hres : s.results ≠ []) : CanStep env pack s := by
  obtain ⟨r, res, heq⟩ := exists_cons_of_ne_nil hres
  refine canStep_of_isSome (e := .receiveResult) (by simp) ?_
  simp only [step, receiveResult, heq, hsel, if_true]
  cases r.err <;> rfl

lemma canStep_receiveScan (hsel : s.selecting pack = true) (hscan : s.sched.scanDone = false)
    (hscans : s.scans ≠ []) : CanStep env pack s := by
  obtain ⟨batch, scans, heq⟩ := exists_cons_of_ne_nil hscans
  refine canStep_of_isSome (e := .receiveScan) (by simp) ?_
  simp only [step, receiveScan, heq, hsel, hscan, Bool.not_false, Bool.and_true, if_true]
  cases batch.err with
  | some e => rfl
  | none =>
  dsimp only
  split
  · rfl
  · split
    · rfl
    · split <;> rfl

/-- The scanner's turn, when the main loop waits for it. -/
lemma Feed.canStep (h : Feed pack s) (hcanc : s.cancelled = false) (hscans : s.scans = []) :
    CanStep env pack s := by
  cases hscan : s.scanner with
  | scanning i batch => exact canStep_of_isSome (e := .scan true) (by simp) (by simp [Import.step, Import.scan, hscan])
  | sending i batch =>
    exact canStep_of_isSome (e := .scanSend) (by simp) (by simp [Import.step, Import.scanSend, hscan, hscans])
  | exited =>
  rcases h.exited hscan with hc | ⟨batch, hmem, -⟩
  · rw [hcanc] at hc
    cases hc
  · rw [hscans] at hmem
    cases hmem

/-- The workers' turn, when all headers are read and no result waits. -/
lemma Inv.canStep_workers (h : Inv pack first ws s) (hworkers : 0 < ws)
    (hrun : s.main = .running) (hsel : s.selecting pack = true) (hcanc : s.cancelled = false)
    (hscan : s.sched.scanDone = true) (hres : s.results = []) : CanStep env pack s := by
  have hcounts := h.counts hrun
  have hroom : s.results.length < s.workers.length := by
    rw [hres, h.pool]
    exact hworkers
  by_cases hact : s.sched.active = 0
  · -- nothing is at work, so something is on offer, and every worker is there to take it
    have hofr : s.offer ≠ none := by
      intro hnone
      have := (running_of_selecting hsel).2.2
      simp [isStuck, hscan, hact, hnone] at this
    obtain ⟨⟨i, fromRoot⟩, hofr⟩ := Option.ne_none_iff_exists'.mp hofr
    have hpos : 0 < s.workers.length := by rw [h.pool]; exact hworkers
    have hw : s.workers[0]? = some s.workers[0] := getElem?_eq_getElem hpos
    by_cases hidle : s.workers[0] = .idle
    · rw [hidle] at hw
      exact canStep_of_isSome (e := .dispatch 0) (by simp) (by simp [Import.step, dispatch, hw, hofr, hsel])
    refine canStep_worker hw (fun hexited => ?_) (fun he => absurd he hidle) fun _ _ => .inr hroom
    obtain ⟨r, hr, -⟩ := hcounts.failing hcanc (by
      rw [← hexited]
      exact getElem_mem hpos)
    rw [hres] at hr
    cases hr
  have hsum := hcounts.active hcanc
  rw [hres] at hsum
  have hbusy : ∃ worker ∈ s.workers, busy worker ≠ 0 := by
    by_contra hno
    push Not at hno
    rw [tally_eq_zero busy _ hno] at hsum
    exact hact hsum
  obtain ⟨worker, hmem, hne⟩ := hbusy
  obtain ⟨w, hw⟩ := mem_iff_getElem?.mp hmem
  refine canStep_worker hw ?_ ?_ fun _ _ => .inr hroom
  · rintro rfl
    exact hne rfl
  · rintro rfl
    exact absurd rfl hne

/-- Until the import returns, some goroutine can take a step. -/
lemma Inv.progress (h : Inv pack first ws s) (hworkers : 0 < ws)
    (hmain : ∀ r, s.main ≠ .returned r) : CanStep env pack s := by
  cases hrun : s.main with
  | returned r => exact absurd hrun (hmain r)
  | leaving r => exact canStep_leaving hrun (h.outcome.cancelled (by rw [hrun]; simp))
  | running =>
  by_cases hopen : s.isOpen pack = true
  case neg => exact canStep_of_isSome (e := .finish) (by simp) (by simp [Import.step, finish, hrun, hopen])
  by_cases hstuck : s.isStuck = true
  · exact canStep_of_isSome (e := .giveUp) (by simp) (by simp [Import.step, giveUp, hrun, hopen, hstuck])
  by_cases hcanc : s.cancelled = true
  · exact canStep_of_isSome (e := .leaveCancelled) (by simp)
      (by simp [Import.step, leaveCancelled, hrun, hopen, hcanc])
  have hsel : s.selecting pack = true := by simp [selecting, hrun, hopen, hstuck]
  have hcanc : s.cancelled = false := by simpa using hcanc
  by_cases hres : s.results = []
  case neg => exact canStep_receiveResult hsel hres
  cases hscan : s.sched.scanDone with
  | true => exact h.canStep_workers hworkers hrun hsel hcanc hscan hres
  | false =>
  by_cases hscans : s.scans = []
  · exact (h.feed hrun hscan).canStep hcanc hscans
  · exact canStep_receiveScan hsel hscan hscans

end Import

end Trex.GitStore
