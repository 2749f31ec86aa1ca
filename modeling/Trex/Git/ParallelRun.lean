import Trex.Git.ParallelInv

/-!
# The invariant of the parallel import

`Inv` puts the four groups of facts together, for the states in which each is needed.  `Inv.step` is the
case analysis over what a step can do.
-/

namespace Trex.GitStore

open List

open Tally
open Trex.Repo (GitOID Env)

namespace Import

/-- The invariant of a run. -/
structure Inv (pack : Pack) (first : Repository) (workers : Nat) (s : Import) : Prop where
  core : Core pack first s
  scanned : s.sched.scanDone = true → s.sched.scanned = pack.entries.length
  pool : s.workers.length = workers
  counts : s.main = .running → Counts pack s
  feed : s.main = .running → s.sched.scanDone = false → Feed pack s
  outcome : Outcome pack s

variable {env : Env} {pack : Pack} {first : Repository} {workers : Nat} {s s' : Import}

lemma inv_init (pack : Pack) (repo : Repository) (workers : Nat) : Inv pack repo workers (init repo workers) where
  core := by
    refine ⟨.refl repo, Sched.inv_init _ _, fun oid => .inl, by simp [init], ?_, ?_, by simp [init],
      fun i hi => Bool.noConfusion hi, fun _ oid j hj => ?_⟩
    · intro w hw i hi
      rw [eq_of_mem_replicate hw] at hi
      cases hi
    · intro r hr
      cases eq_of_mem_replicate hr
    · simp [init, Sched.waiters, Chain.cells, Chain.walk] at hj
  scanned := fun h => by cases h
  pool := by simp [init]
  counts := by
    intro _
    have hzero : ∀ f : Worker → Nat, f .starting = 0 → tally f (replicate workers .starting) = 0 := fun f hf =>
      tally_eq_zero f _ fun a ha => by rw [eq_of_mem_replicate ha, hf]
    refine ⟨fun i => ?_, ?_, rfl, fun _ => ?_, fun _ hex => ?_⟩
    · show tally (holds i) (replicate workers .starting) + 0 + 0 ≤ 0
      rw [hzero (holds i) (by simp [holds, Worker.job])]
    · show (Finset.filter _ _).card = 0
      simp [init]
    · show 0 = tally busy (replicate workers .starting) + 0
      rw [hzero busy rfl]
    · cases eq_of_mem_replicate hex
  feed := by
    intro _ _
    exact ⟨⟨Nat.zero_le _, rfl⟩, by simp [init], by simp [init, queued], by simp [init], fun h => by cases h⟩
  outcome := outcome_running rfl

/-- A step of a goroutine that leaves the loop alone. -/
lemma Inv.background (h : Inv pack first workers s) (hcore : Core pack first s')
    (hmain : s'.main = s.main) (hsched : s'.sched = s.sched)
    (hdisp : s'.dispatched = s.dispatched) (hpool : s'.workers.length = s.workers.length)
    (hcanc : s.cancelled = true → s'.cancelled = true)
    (hcounts : Counts pack s → Counts pack s') (hfeed : Feed pack s → Feed pack s') : Inv pack first workers s' where
  core := hcore
  scanned := by rw [hsched]; exact h.scanned
  pool := by rw [hpool]; exact h.pool
  counts := by rw [hmain]; exact fun hrun => hcounts (h.counts hrun)
  feed := by rw [hmain, hsched]; exact fun hrun hscan => hfeed (h.feed hrun hscan)
  outcome := h.outcome.same hmain hsched hdisp hcanc

/-- The loop ends; what only the running loop needs is dropped. -/
lemma Inv.left (h : Inv pack first workers s) {r : Except Stop (Bytes × Nat)}
    (hcore : Core pack first (s'.leave r)) (hpool : s'.workers.length = s.workers.length)
    (hsched : s'.sched = s.sched) (hout : Outcome pack (s'.leave r)) : Inv pack first workers (s'.leave r) where
  core := hcore
  scanned := by
    show s'.sched.scanDone = true → _
    rw [hsched]
    exact fun hs => (congrArg Sched.scanned hsched).trans (h.scanned hs)
  pool := hpool.trans h.pool
  counts := fun hrun => by cases hrun
  feed := fun hrun => by cases hrun
  outcome := hout

lemma length_setWorker (s : Import) (w : Nat) (worker : Worker) :
    (s.setWorker w worker).workers.length = s.workers.length := length_set

lemma Core.leave (h : Core pack first s) (r : Except Stop (Bytes × Nat)) :
    Core pack first (s.leave r) := h.same rfl rfl rfl rfl rfl fun _ => id

/-- A closed loop has done every object. -/
lemma Inv.complete (h : Inv pack first workers s) (hrun : s.main = .running)
    (hopen : s.isOpen pack = false) (i : Nat) (hi : i < pack.entries.length) : (s.sched.nodes i).done = true := by
  have hcounts := h.counts hrun
  have hins : pack.entries.length ≤ s.session.storer.inserted := by
    unfold isOpen at hopen
    simp only [Bool.or_eq_false_iff, decide_eq_false_iff_not] at hopen
    omega
  have hcard : (s.doneSet pack).card = (Finset.range pack.entries.length).card := by
    refine le_antisymm (Finset.card_filter_le _ _) ?_
    rw [Finset.card_range, hcounts.doneCount]
    exact hins
  have hall := Finset.eq_of_subset_of_card_le (Finset.filter_subset _ _) hcard.ge
  have hmem : i ∈ s.doneSet pack := by
    unfold doneSet
    rw [hall]
    exact Finset.mem_range.mpr hi
  exact (Finset.mem_filter.mp hmem).2

/-- A stuck loop leaves objects whose bases will not come. -/
lemma Inv.stuck (h : Inv pack first workers s) (hworkers : 0 < workers)
    (hrun : s.main = .running) (hopen : s.isOpen pack = true) (hstuck : s.isStuck = true) : s.Stuck pack := by
  have hcounts := h.counts hrun
  unfold isStuck at hstuck
  simp only [Bool.and_eq_true, beq_iff_eq] at hstuck
  obtain ⟨⟨hscan, hact⟩, hofr⟩ := hstuck
  have havail : s.sched.available = none := by
    unfold offer at hofr
    rw [if_pos (by rw [h.pool, hact]; exact hworkers)] at hofr
    simpa using hofr
  have hlen : s.session.storer.inserted = s.dispatched.length := by
    have := hcounts.total
    omega
  have heq : s.doneSet pack = s.dispatched.toFinset := by
    refine Finset.eq_of_subset_of_card_le (fun i hi => ?_) ?_
    · exact mem_toFinset.mpr (doneSet_subset h.core i hi)
    · rw [toFinset_card_of_nodup (nodup_dispatched h.core), hcounts.doneCount, hlen]
  refine ⟨h.scanned hscan, fun i hi => ?_, ?_, ?_⟩
  · have : i ∈ s.doneSet pack := by rw [heq]; exact mem_toFinset.mpr hi
    exact (Finset.mem_filter.mp this).2
  · unfold Sched.available at havail
    split at havail
    · cases havail
    next hrdy =>
    have hnone := Option.map_eq_none_iff.mp havail
    rw [hrdy, nil_append, drop_eq_nil_iff]
    exact getElem?_eq_none_iff.mp hnone
  by_contra hno
  have hfull : s.doneSet pack = Finset.range pack.entries.length := by
    refine Finset.filter_true_of_mem fun i hi => ?_
    by_contra hd
    exact hno ⟨i, Finset.mem_range.mp hi, by simpa using hd⟩
  have hcard := hcounts.doneCount
  rw [hfull, Finset.card_range] at hcard
  unfold isOpen at hopen
  rw [hscan, ← hcard] at hopen
  simp at hopen

variable {w : Nat} {repo : Repository} {r : DeltaResult} {batch : ScanBatch}
  {scans : List ScanBatch} {sched : Sched} {results : List DeltaResult} {session : Session}

section

variable (h : Inv pack first workers s)

include h

lemma Inv.works {old new : Worker} (hw : s.workers[w]? = some old) (hjob : new.job = old.job)
    (hnew : new ≠ .exited) (herr : ∀ r, new = .sending r → r.err ≠ none)
    (hobj : repo.objects = s.session.repo.objects) (hp : s.session.repo.poisoned = true → repo.poisoned = true) :
    Inv pack first workers ((s.setWorker w new).setRepo repo) := by
  refine h.background ((h.core.setWorker (fun i hi => ?_) fun r hr hnone => ?_).setRepo hobj hp)
    rfl rfl rfl (length_setWorker _ _ _) id (fun hcounts => ?_)
    (fun hfeed => hfeed.same rfl rfl rfl id)
  · exact h.core.job_mem hw (hjob.symm.trans hi)
  · exact absurd hnone (herr r hr)
  · have hset := hcounts.setWorker hw hjob hnew
    exact hset.same rfl rfl (fun _ => rfl) rfl rfl rfl id

lemma Inv.sends (hw : s.workers[w]? = some (.sending r)) :
    Inv pack first workers { s.setWorker w (if r.err.isSome then .exited else .idle) with
      results := s.results ++ [r] } := by
  have hset : Core pack first (s.setWorker w (if r.err.isSome then .exited else .idle)) := by
    refine h.core.setWorker (fun i hi => ?_) fun r' hr' _ => ?_
    · split at hi <;> cases hi
    · split at hr' <;> cases hr'
  refine h.background { hset with results := fun r' hr' herr => ?_ } rfl rfl rfl (length_setWorker _ _ _) id
    (fun hcounts => hcounts.send hw) (fun hfeed => hfeed.same rfl rfl rfl id)
  rcases mem_append.mp hr' with hold | hnew
  · exact h.core.results r' hold herr
  · obtain rfl := mem_singleton.mp hnew
    exact h.core.sending r' (mem_of_getElem? hw) herr

lemma Inv.front (hrun : s.main = .running) (hscan : s.sched.scanDone = false)
    (hscans : s.scans = batch :: scans) : batch.headers <+: pack.entries.drop s.sched.scanned := by
  refine List.IsPrefix.trans ?_ (h.feed hrun hscan).front
  rw [queued, hscans]
  exact prefix_append _ _

section

variable (hscans : s.scans = batch :: scans) (hrun : s.main = .running)
  (hscan : s.sched.scanDone = false)

include hscans hrun hscan

lemma Inv.added {res : Except Stop Sched} (hadd : addHeaders batch.headers s.sched s.session.repo = (res, repo)) :
    HeadersAdded pack.entries s.dispatched first.Has batch.headers s.sched s.session.repo res repo :=
  addHeaders_spec pack.increasing h.core.sched (fun _ ho => h.core.grows.has ho)
    (h.front hrun hscan hscans) hadd

lemma Inv.headersFail {e : Stop} (hadd : addHeaders batch.headers s.sched s.session.repo = (.error e, repo)) :
    Inv pack first workers (({ s with scans }.setRepo repo).leave (.error e)) := by
  obtain ⟨hobj, hp, -, herror⟩ := h.added hscans hrun hscan hadd
  have hpop : Core pack first { s with scans } := h.core.same rfl rfl rfl rfl rfl fun _ => id
  have hcore : Core pack first ({ s with scans }.setRepo repo) := hpop.setRepo hobj hp
  refine h.left (hcore.leave _) rfl rfl ⟨fun _ => rfl, fun v he => ?_, fun he => ?_, fun he => ?_,
    fun he => ?_, fun he => ?_⟩
  · cases ended_leave he
  · cases ended_leave he
    simpa using herror _ rfl
  · cases ended_leave he
    exact (herror _ rfl).elim And.right fun hbad => nomatch hbad.1
  · cases ended_leave he
    exact (herror _ rfl).elim (fun hmiss => nomatch hmiss.1) And.right
  · cases ended_leave he
    simpa using herror _ rfl

lemma Inv.headers (hadd : addHeaders batch.headers s.sched s.session.repo = (.ok sched, repo)) :
    Core pack first { { s with scans }.setRepo repo with sched } ∧ Continues s.sched sched ∧
      sched.scanned = s.sched.scanned + batch.headers.length := by
  have hpre := h.front hrun hscan hscans
  have hpop : Core pack first { s with scans } := h.core.same rfl rfl rfl rfl rfl fun _ => id
  obtain ⟨-, hcont, hscanned, -⟩ := (h.added hscans hrun hscan hadd).ok sched rfl
  exact ⟨hpop.headers hpre hadd, hcont, hscanned⟩

/-- The last batch comes when all headers have been read. -/
lemma Inv.last_batch (herr : batch.err = none)
    (hadd : addHeaders batch.headers s.sched s.session.repo = (.ok sched, repo))
    (hdone : batch.done = true) : sched.scanned = pack.entries.length := by
  obtain ⟨-, -, hscanned⟩ := h.headers hscans hrun hscan hadd
  obtain ⟨rfl, hall⟩ := (h.feed hrun hscan).last [] batch scans hscans hdone
  have hlen := congrArg length (hall herr)
  have hle := h.core.sched.scanned_le
  rw [queued, hscans, length_drop] at hlen
  simp only [flatMap_cons, flatMap_nil, append_nil] at hlen
  omega

lemma Inv.scanEnds (hadd : addHeaders batch.headers s.sched s.session.repo = (.ok sched, repo))
    (hcount : sched.scanned = pack.entries.length) : Inv pack first workers { { s with scans }.setRepo repo with
      sched := { sched with scanDone := true }, checksum := batch.checksum } := by
  obtain ⟨hcore, hcont, -⟩ := h.headers hscans hrun hscan hadd
  have hsched : Sched.Inv pack.entries repo.Has s.dispatched { sched with scanDone := true } :=
    { hcore.sched with }
  exact ⟨{ hcore with sched := hsched }, fun _ => hcount, h.pool,
    fun _ => (h.counts hrun).same rfl rfl hcont.done hcont.active rfl rfl id,
    fun _ hs => Bool.noConfusion hs, outcome_running hrun⟩

end

lemma Inv.dispatches {w i : Nat} {fromRoot : Bool} (hw : s.workers[w]? = some .idle)
    (havail : s.sched.available = some (i, fromRoot)) (hrun : s.main = .running) : Inv pack first workers
      { s.setWorker w (.seeking ⟨i, (s.sched.nodes i).offset, (s.sched.nodes i).base⟩) with
        sched := s.sched.take fromRoot, dispatched := s.dispatched ++ [i] } := by
  obtain ⟨ready, rootPos, htake⟩ := s.sched.take_eq fromRoot
  refine ⟨h.core.dispatch havail rfl, ?_, (length_setWorker _ _ _).trans h.pool,
    fun _ => (h.counts hrun).dispatch hw rfl, ?_, outcome_running hrun⟩
  · rw [htake]
    exact h.scanned
  · rw [htake]
    exact fun _ hs => (h.feed hrun hs).same rfl rfl rfl id

lemma Inv.accountFails {e : Err} (hres : s.results = r :: results)
    (hacc : accountLinks r.oid r.kind (requireAll r.edges) s.session = (.error e, session)) :
    Inv pack first workers ({ s with results, session }.leave (.error (.reported e))) := by
  obtain ⟨hobj, hp, -⟩ := accountLinks_counts (quiet_requireAll r.edges) r.oid r.kind hacc
  have hset := h.core.setRepo hobj hp
  have hcore : Core pack first { s with results, session } :=
    { hset with results := fun x hx => h.core.results x (by rw [hres]; exact mem_cons_of_mem _ hx) }
  exact h.left (hcore.leave _) rfl rfl (outcome_reported e)

lemma Inv.accounted (hres : s.results = r :: results) (hrun : s.main = .running) (herr : r.err = none)
    (hacc : accountLinks r.oid r.kind (requireAll r.edges) s.session = (.ok (), session)) :
    Inv pack first workers { s with results, session, sched := s.sched.release (r.index.getD 0) r.oid } := by
  have hcounts := h.counts hrun
  obtain ⟨i, hi, -⟩ := h.core.results r (by rw [hres]; exact mem_cons_self) herr
  have hund := hcounts.undone (nodup_dispatched h.core) hres hi
  refine ⟨h.core.accounted hres herr hacc (by rw [hi]; exact hund), h.scanned, h.pool,
    fun _ => hcounts.accounted h.core hres herr hacc, fun _ hs => ?_, outcome_running hrun⟩
  exact (h.feed hrun hs).same rfl rfl rfl id

lemma Inv.returns {r : Except Stop (Bytes × Nat)} (hmain : s.main = .leaving r)
    : Inv pack first workers { s with main := .returned r } := by
  have hended : ∀ r', Ended { s with main := .returned r } r' → s.Ended r' := by
    rintro r' (hl | hr)
    · cases hl
    · obtain rfl := Main.returned.inj hr
      exact .inl hmain
  refine ⟨h.core.same rfl rfl rfl rfl rfl fun _ => id, h.scanned, h.pool,
    fun hrun => Main.noConfusion hrun, fun hrun => Main.noConfusion hrun,
    ⟨fun _ => h.outcome.cancelled (by rw [hmain]; simp), fun v he => h.outcome.complete v (hended _ he),
      fun he => ?_, fun he => h.outcome.missing (hended _ he),
      fun he => h.outcome.invalid (hended _ he), fun he => h.outcome.counted (hended _ he)⟩⟩
  obtain ⟨h1, h2, h3, h4⟩ := h.outcome.stuck (hended _ he)
  exact ⟨h1, h2, h3, h4⟩

/-- Every step keeps the invariant. -/
lemma Inv.step (hsome : 0 < workers) {e : Event} (hmove : Moves env pack s e s') : Inv pack first workers s' := by
  cases hmove with
  | cancel hc =>
    exact h.background (h.core.same rfl rfl rfl rfl rfl fun _ => id) rfl rfl rfl rfl (fun _ => rfl)
      (fun hcounts => hcounts.same rfl rfl (fun _ => rfl) rfl rfl rfl fun hf => Bool.noConfusion hf)
      (fun hfeed => hfeed.same rfl rfl rfl fun _ => rfl)
  | scan ok hscan =>
    exact h.background (h.core.same rfl rfl rfl rfl rfl fun _ => id) rfl rfl rfl rfl id
      (fun hcounts => hcounts.same rfl rfl (fun _ => rfl) rfl rfl rfl id)
      (fun hfeed => hfeed.scan ok hscan)
  | scanSend hscan hroom =>
    exact h.background (h.core.same rfl rfl rfl rfl rfl fun _ => id) rfl rfl rfl rfl id
      (fun hcounts => hcounts.same rfl rfl (fun _ => rfl) rfl rfl rfl id)
      (fun hfeed => hfeed.scanSend hscan)
  | scanStop hscan hc =>
    exact h.background (h.core.same rfl rfl rfl rfl rfl fun _ => id) rfl rfl rfl rfl id
      (fun hcounts => hcounts.same rfl rfl (fun _ => rfl) rfl rfl rfl id)
      (fun hfeed => hfeed.scanStop hc)
  | start ok hw =>
    cases ok with
    | true => exact h.works hw rfl (by simp) (by simp) rfl id
    | false => exact h.works hw rfl (by simp) (by rintro r ⟨⟩; simp) rfl id
  | seek ok hw hseek =>
    obtain ⟨hobj, hp, hjob, herr⟩ := seek_spec hseek
    exact h.works hw hjob (by rintro rfl; cases hjob) herr hobj hp
  | read ok hw hread =>
    obtain ⟨hobj, hp, hjob, herr⟩ := read_spec hread
    exact h.works hw hjob (by rintro rfl; cases hjob) herr hobj hp
  | storeFails ok hw hsto =>
    obtain ⟨hobj, hp⟩ := (ingestStore_spec _ _ _ s.session.repo).error hsto
    exact h.works hw rfl (by simp [fail]) (by rintro r ⟨⟩; simp) hobj hp
  | @stored w job kind oid body edges err repo ok hw hsto hlinks =>
    refine h.background (h.core.stored hw hsto hlinks) rfl rfl rfl (length_setWorker _ _ _) id
      (fun hcounts => ?_) (fun hfeed => hfeed.same rfl rfl rfl id)
    have hset : Counts pack (s.setWorker w
        (.sending { index := some job.index, edges, oid, kind, body, err })) :=
      hcounts.setWorker hw rfl (by simp)
    exact hset.same rfl rfl (fun _ => rfl) rfl rfl rfl id
  | send hw hroom => exact h.sends hw
  | stop hw hworkers hc =>
    refine h.background (h.core.setWorker (fun i hi => ?_) fun r hr => ?_) rfl rfl rfl
      (length_setWorker _ _ _) id (fun hcounts => hcounts.stop hw hc)
      (fun hfeed => hfeed.same rfl rfl rfl id)
    · cases hi
    · cases hr
  | finish hrun hopen =>
    refine h.left (h.core.leave _) rfl rfl ⟨fun _ => rfl, fun v he => h.complete hrun hopen,
      fun he => ?_, fun he => ?_, fun he => ?_, fun he => ?_⟩ <;> cases ended_leave he
  | leaveCancelled hrun hc => exact h.left (h.core.leave _) rfl rfl (outcome_reported _)
  | giveUp hrun hopen hstuck =>
    have hs := h.stuck hsome hrun hopen hstuck
    refine h.left (h.core.leave _) rfl rfl ⟨fun _ => rfl, fun v he => ?_,
      fun _ => ⟨hs.scanned, hs.done, hs.empty, hs.left⟩, fun he => ?_, fun he => ?_,
      fun he => ?_⟩ <;>
      cases ended_leave he
  | @scanFails batch scans e hscans hrun hscan herr =>
    have hpop : Core pack first { s with scans } := h.core.same rfl rfl rfl rfl rfl fun _ => id
    exact h.left (hpop.leave _) rfl rfl (outcome_reported e)
  | headersFail hscans hrun hscan herr hadd => exact h.headersFail hscans hrun hscan hadd
  | headers hscans hrun hscan herr hadd hdone =>
    obtain ⟨hcore, hcont, hscanned⟩ := h.headers hscans hrun hscan hadd
    refine ⟨hcore, fun hs => ?_, h.pool,
      fun _ => (h.counts hrun).same rfl rfl hcont.done hcont.active rfl rfl id,
      fun _ _ => (h.feed hrun hscan).headers hscans hdone hscanned, outcome_running hrun⟩
    have := hcont.scanDone.symm.trans hs
    rw [hscan] at this
    cases this
  | countFails hscans hrun hscan herr hadd hdone hcount =>
    exact absurd (h.last_batch hscans hrun hscan herr hadd hdone) hcount
  | scanEnds hscans hrun hscan herr hadd hdone hcount => exact h.scanEnds hscans hrun hscan hadd hcount
  | dispatch hw hofr hrun =>
    unfold offer at hofr
    split at hofr
    · exact h.dispatches hw hofr hrun
    · cases hofr
  | @resultFails r results e hres hrun herr =>
    have hpop : Core pack first { s with results } := h.core.same rfl rfl rfl rfl rfl fun x hx => by
      rw [hres]
      exact mem_cons_of_mem _ hx
    exact h.left (hpop.leave _) rfl rfl (outcome_reported e)
  | accountFails hres hrun herr hacc => exact h.accountFails hres hacc
  | accounted hres hrun herr hacc => exact h.accounted hres hrun herr hacc
  | wait hmain hscan hall => exact h.returns hmain

end

/-- The rule for invariants of a run. -/
lemma run_keeps {P : Import → Prop} (repo : Repository) (hworkers : 0 < workers)
    {events : List Event} (hinit : P (init repo workers))
    (hkeep : ∀ {s e s'}, Inv pack repo workers s → P s → Moves env pack s e s' → P s')
    (hrun : (init repo workers).run env pack events = some s) : Inv pack repo workers s ∧ P s := by
  have hfrom : ∀ {events : List Event} {s0 : Import}, Inv pack repo workers s0 → P s0 →
      s0.run env pack events = some s → Inv pack repo workers s ∧ P s := by
    intro events
    induction events with
    | nil =>
      intro s0 h hp hrun
      obtain rfl := Option.some.inj hrun
      exact ⟨h, hp⟩
    | cons e events ih =>
    intro s0 h hp hrun
    obtain ⟨s1, hstep, hrest⟩ := Option.bind_eq_some_iff.mp hrun
    have hmove := moves_of_step hstep
    exact ih (h.step hworkers hmove) (hkeep h hp hmove) hrest
  exact hfrom (inv_init pack repo workers) hinit hrun

/-- The invariant holds after every run. -/
lemma inv_run (repo : Repository) (hworkers : 0 < workers) {events : List Event}
    (hrun : (init repo workers).run env pack events = some s) : Inv pack repo workers s :=
  (run_keeps (P := fun _ => True) repo hworkers trivial (fun _ _ _ => trivial) hrun).1

end Import

end Trex.GitStore
