import Mathlib.Data.Finset.Card
import Trex.Git.ParallelProof

/-!
# What holds in every state of the parallel import

`Core` relates the scheduler, the repository and what the workers have in hand, `Counts` the counters,
`Feed` the batches from the scanner, `Outcome` how the loop was left.
-/

namespace Trex.GitStore

open List

open Tally
open Trex.Repo (GitOID Env)

/-- The job that a worker holds. -/
def Worker.job : Worker → Option Nat
  | .seeking job | .reading job _ _ _ | .storing job _ _ _ => some job.index
  | .sending r => r.index
  | .starting | .idle | .exited => none

namespace Import

/-- A result without an error is that of an object that was stored. -/
def Delivered (s : Import) (r : DeltaResult) : Prop :=
  ∃ i, r.index = some i ∧ ⟨i, r.oid, r.kind, r.body⟩ ∈ s.ingested ∧ gitLinks r.kind r.body 20 = (r.edges, none)

/-- The schedule and the repository agree. -/
structure Core (pack : Pack) (first : Repository) (s : Import) : Prop where
  grows : first.Grows s.session.repo
  sched : s.sched.Inv pack.entries s.session.repo.Has s.dispatched
  origin : ∀ oid, s.session.repo.Has oid → first.Has oid ∨ ∃ x ∈ s.ingested, x.oid = oid
  ingested : ∀ x ∈ s.ingested, x.index ∈ s.dispatched ∧ s.session.repo.Has x.oid
  jobs : ∀ w ∈ s.workers, ∀ i, w.job = some i → i ∈ s.dispatched
  sending : ∀ r, .sending r ∈ s.workers → r.err = none → s.Delivered r
  results : ∀ r ∈ s.results, r.err = none → s.Delivered r
  done : ∀ i, (s.sched.nodes i).done = true → ∃ x ∈ s.ingested, x.index = i ∧ x.oid = (s.sched.nodes i).base
  awaits : s.session.repo.poisoned = false → s.sched.Awaits first.Has

variable {env : Env} {pack : Pack} {first : Repository} {s s' : Import}

lemma Core.same (h : Core pack first s) (hrepo : s'.session.repo = s.session.repo)
    (hsched : s'.sched = s.sched) (hdisp : s'.dispatched = s.dispatched)
    (hing : s'.ingested = s.ingested) (hworkers : s'.workers = s.workers)
    (hres : ∀ r ∈ s'.results, r ∈ s.results) : Core pack first s' where
  grows := by rw [hrepo]; exact h.grows
  sched := by rw [hrepo, hsched, hdisp]; exact h.sched
  origin := by rw [hrepo, hing]; exact h.origin
  ingested := by rw [hrepo, hing, hdisp]; exact h.ingested
  jobs := by rw [hworkers, hdisp]; exact h.jobs
  sending := by
    unfold Delivered
    rw [hworkers, hing]
    exact h.sending
  results := by
    unfold Delivered
    rw [hing]
    exact fun r hr => h.results r (hres r hr)
  done := by rw [hsched, hing]; exact h.done
  awaits := by rw [hrepo, hsched]; exact h.awaits

variable {repo repo' : Repository} {w i : Nat} {worker : Worker} {job : DeltaJob}
  {ok fromRoot : Bool} {kind : UInt8} {sched : Sched} {r : DeltaResult} {results : List DeltaResult}
  {session : Session} {batch : List PackEntry}

lemma Core.setRepo (h : Core pack first s) (hobj : repo.objects = s.session.repo.objects)
    (hpois : s.session.repo.poisoned = true → repo.poisoned = true) : Core pack first (s.setRepo repo) := by
  have hhas : repo.Has = s.session.repo.Has := Repository.has_congr hobj
  have hgrows : first.Grows repo :=
    ⟨fun oid o ho => by rw [hobj]; exact h.grows.1 oid o ho, fun hp => hpois (h.grows.2 hp)⟩
  refine ⟨hgrows, ?_, ?_, ?_, h.jobs, h.sending, h.results, h.done,
    fun hclean => h.awaits (clean_of_clean hpois hclean)⟩
  · show s.sched.Inv pack.entries repo.Has s.dispatched
    rw [hhas]
    exact h.sched
  · show ∀ oid, repo.Has oid → _
    rw [hhas]
    exact h.origin
  · show ∀ x ∈ s.ingested, x.index ∈ s.dispatched ∧ repo.Has x.oid
    rw [hhas]
    exact h.ingested

lemma Core.setWorker (h : Core pack first s) (hjob : ∀ i, worker.job = some i → i ∈ s.dispatched)
    (hsend : ∀ r, worker = .sending r → r.err = none → s.Delivered r) : Core pack first (s.setWorker w worker) where
  grows := h.grows
  sched := h.sched
  origin := h.origin
  ingested := h.ingested
  jobs := by
    intro w' hw' i hi
    rcases mem_or_eq_of_mem_set hw' with hold | rfl
    · exact h.jobs w' hold i hi
    · exact hjob i hi
  sending := by
    intro r hr herr
    rcases mem_or_eq_of_mem_set hr with hold | heq
    · exact h.sending r hold herr
    · exact hsend r heq.symm herr
  results := h.results
  done := h.done
  awaits := h.awaits

lemma Core.job_mem (h : Core pack first s) (hw : s.workers[w]? = some worker)
    (hi : worker.job = some i) : i ∈ s.dispatched :=
  h.jobs worker (mem_of_getElem? hw) i hi

/-- What a step of a worker does to the repository before it stores. -/
def Fetching (job : DeltaJob) (repo : Repository) (worker : Worker) (repo' : Repository) : Prop :=
  repo'.objects = repo.objects ∧ (repo.poisoned = true → repo'.poisoned = true) ∧
    worker.job = some job.index ∧ ∀ r, worker = .sending r → r.err ≠ none

lemma fetching_fail (e : Err) (hobj : repo'.objects = repo.objects)
    (hpois : repo.poisoned = true → repo'.poisoned = true) : Fetching job repo (fail job e) repo' := by
  refine ⟨hobj, hpois, rfl, fun r hr => ?_⟩
  cases hr
  simp

lemma seek_spec (h : seek pack job ok repo = (worker, repo')) : Fetching job repo worker repo' := by
  unfold seek at h
  split at h
  · obtain ⟨rfl, rfl⟩ := Prod.mk.inj h
    exact fetching_fail _ rfl id
  next entry hseek =>
  split at h
  · obtain ⟨rfl, rfl⟩ := Prod.mk.inj h
    exact fetching_fail _ rfl id
  split at h
  · have hkeep := keeps_gitObjectHeader job.base repo
    split at h
    next kind baseSize r1 hhead =>
      rw [hhead] at hkeep
      obtain ⟨rfl, rfl⟩ := Prod.mk.inj h
      exact ⟨hkeep.1, hkeep.2, rfl, fun r hr => by cases hr⟩
    next r1 hhead =>
      rw [hhead] at hkeep
      obtain ⟨rfl, rfl⟩ := Prod.mk.inj h
      exact fetching_fail _ hkeep.1 hkeep.2
    next e r1 hhead =>
    rw [hhead] at hkeep
    obtain ⟨rfl, rfl⟩ := Prod.mk.inj h
    exact fetching_fail _ hkeep.1 hkeep.2
  · obtain ⟨rfl, rfl⟩ := Prod.mk.inj h
    exact ⟨rfl, id, rfl, fun r hr => by cases hr⟩

lemma keeps_readObject (env : Env) (job : DeltaJob) (h : PackEntry) (kind : UInt8)
    (baseSize : Nat) : Keeps (readObject env job h kind baseSize) := by
  refine keeps_bind (keeps_ofExcept _) fun _ => ?_
  split
  · exact keeps_bind (keeps_ofExcept _) fun _ => keeps_ingestRead env kind _ _ _ _
  · exact keeps_ingestRead env kind _ _ _ _

lemma read_spec {h : PackEntry} {baseSize : Nat}
    (hread : read env job h kind baseSize ok repo = (worker, repo')) : Fetching job repo worker repo' := by
  have hkeep := keeps_readObject env job h kind baseSize repo
  unfold read at hread
  split at hread
  · split at hread
    next oid body r1 hobj =>
      rw [hobj] at hkeep
      obtain ⟨rfl, rfl⟩ := Prod.mk.inj hread
      exact ⟨hkeep.1, hkeep.2, rfl, fun r hr => by cases hr⟩
    next e r1 hobj =>
    rw [hobj] at hkeep
    obtain ⟨rfl, rfl⟩ := Prod.mk.inj hread
    exact fetching_fail _ hkeep.1 hkeep.2
  · obtain ⟨rfl, rfl⟩ := Prod.mk.inj hread
    exact fetching_fail _ rfl id

section

variable (h : Core pack first s)

include h

/-- A worker stores its object. -/
lemma Core.stored {oid : GitOID} {body : Bytes}
    {edges : List (GitOID × UInt8)} {err : Option Err} (hw : s.workers[w]? = some (.storing job kind oid body))
    (hsto : ingestStore oid kind body s.session.repo = (.ok (), repo))
    (hlinks : gitLinks kind body 20 = (edges, err)) : Core pack first
      { (s.setWorker w (.sending { index := some job.index, edges, oid, kind, body, err })).setRepo repo with
        ingested := s.ingested ++ [⟨job.index, oid, kind, body⟩] } := by
  obtain ⟨hclean, hobj⟩ := (ingestStore_spec oid kind body s.session.repo).ok hsto
  have hhas : ∀ x, repo.Has x ↔ s.session.repo.Has x ∨ x = oid := by
    intro x
    unfold Repository.Has
    rcases hobj with ⟨hsame, hthere⟩ | ⟨-, hins⟩
    · rw [hsame]
      constructor
      · exact .inl
      · rintro (hx | rfl)
        · exact hx
        · exact hthere
    · rw [hins, SortedMap.find_insert]
      split
      next heq => simp [heq]
      next hne => simp [hne]
  have hgrows : s.session.repo.Grows repo := by
    refine ⟨fun x o ho => ?_, fun hp => by rw [hclean] at hp; cases hp⟩
    rcases hobj with ⟨hsame, -⟩ | ⟨hnone, hins⟩
    · rw [hsame]
      exact ho
    · rw [hins, SortedMap.find_insert, if_neg ?_]
      · exact ho
      · rintro rfl
        rw [hnone] at ho
        cases ho
  have hmem : job.index ∈ s.dispatched := h.job_mem hw rfl
  have hdel : ∀ r, s.Delivered r → ∃ i, r.index = some i ∧
      ⟨i, r.oid, r.kind, r.body⟩ ∈ s.ingested ++ [⟨job.index, oid, kind, body⟩] ∧
      gitLinks r.kind r.body 20 = (r.edges, none) := by
    rintro r ⟨i, hi, hin, hl⟩
    exact ⟨i, hi, mem_append_left _ hin, hl⟩
  constructor
  case grows =>
    exact ⟨fun x o ho => hgrows.1 x o (h.grows.1 x o ho), fun hp => by rw [h.grows.2 hp] at hclean; cases hclean⟩
  case sched => exact h.sched.mono fun x hx => hgrows.has hx
  case origin =>
    intro x hx
    rcases (hhas x).mp hx with hold | rfl
    · rcases h.origin x hold with hf | ⟨y, hy, hyx⟩
      · exact .inl hf
      · exact .inr ⟨y, mem_append_left _ hy, hyx⟩
    · exact .inr ⟨_, mem_append_right _ mem_cons_self, rfl⟩
  case ingested =>
    intro x hx
    rcases mem_append.mp hx with hold | hnew
    · exact ⟨(h.ingested x hold).1, hgrows.has (h.ingested x hold).2⟩
    · obtain rfl := mem_singleton.mp hnew
      exact ⟨hmem, (hhas oid).mpr (.inr rfl)⟩
  case jobs =>
    intro w' hw' i hi
    rcases mem_or_eq_of_mem_set hw' with hold | rfl
    · exact h.jobs w' hold i hi
    · obtain rfl := Option.some.inj hi
      exact hmem
  case sending =>
    intro r hr herr
    rcases mem_or_eq_of_mem_set hr with hold | heq
    · exact hdel r (h.sending r hold herr)
    · cases heq
      subst herr
      exact ⟨job.index, rfl, mem_append_right _ mem_cons_self, hlinks⟩
  case results => exact fun r hr herr => hdel r (h.results r hr herr)
  case done =>
    intro i hi
    obtain ⟨x, hx, hxi⟩ := h.done i hi
    exact ⟨x, mem_append_left _ hx, hxi⟩
  case awaits => exact fun _ => h.awaits hclean

/-- The main loop adds a batch. -/
lemma Core.headers {headers : List PackEntry} (hpre : headers <+: pack.entries.drop s.sched.scanned)
    (hadd : addHeaders headers s.sched s.session.repo = (.ok sched, repo)) :
    Core pack first { s.setRepo repo with sched } := by
  obtain ⟨hobj, hpois, hok, -⟩ := addHeaders_spec pack.increasing h.sched
    (fun oid ho => h.grows.has ho) hpre hadd
  obtain ⟨hinv, hcont, -, haw⟩ := hok sched rfl
  have hset := h.setRepo hobj hpois
  have hhas : repo.Has = s.session.repo.Has := Repository.has_congr hobj
  refine ⟨hset.grows, ?_, hset.origin, hset.ingested, h.jobs, h.sending, h.results, ?_, ?_⟩
  · show sched.Inv pack.entries repo.Has s.dispatched
    rw [hhas]
    exact hinv
  · intro i hi
    change (sched.nodes i).done = true at hi
    rw [hcont.done] at hi
    obtain ⟨x, hx, hxi, hxo⟩ := h.done i hi
    exact ⟨x, hx, hxi, by rw [hxo]; exact (hcont.base i hi).symm⟩
  · exact fun hclean => haw hclean (h.awaits (clean_of_clean hpois hclean))

/-- The main loop hands out a job. -/
lemma Core.dispatch (havail : s.sched.available = some (i, fromRoot))
    (hjob : job.index = i) : Core pack first { s.setWorker w (.seeking job) with
      sched := s.sched.take fromRoot, dispatched := s.dispatched ++ [i] } := by
  obtain ⟨hinv, -, -⟩ := h.sched.take havail
  obtain ⟨ready, rootPos, htake⟩ := s.sched.take_eq fromRoot
  rw [htake] at hinv ⊢
  constructor
  case grows => exact h.grows
  case sched => exact hinv
  case origin => exact h.origin
  case ingested => exact fun x hx => ⟨mem_append_left _ (h.ingested x hx).1, (h.ingested x hx).2⟩
  case jobs =>
    intro w' hw' j hj
    rcases mem_or_eq_of_mem_set hw' with hold | rfl
    · exact mem_append_left _ (h.jobs w' hold j hj)
    · obtain rfl := Option.some.inj hj
      rw [hjob]
      exact mem_append_right _ mem_cons_self
  case sending =>
    intro r hr
    rcases mem_or_eq_of_mem_set hr with hold | heq
    · exact h.sending r hold
    · cases heq
  case results => exact h.results
  case done => exact h.done
  case awaits => exact h.awaits

/-- The main loop accounts for a result. -/
lemma Core.accounted (hres : s.results = r :: results) (herr : r.err = none)
    (hacc : accountLinks r.oid r.kind (requireAll r.edges) s.session = (.ok (), session))
    (hund : (s.sched.nodes (r.index.getD 0)).done = false) :
    Core pack first { s with results, session, sched := s.sched.release (r.index.getD 0) r.oid } := by
  obtain ⟨hobj, hpois, -⟩ := accountLinks_counts (quiet_requireAll r.edges) r.oid r.kind hacc
  obtain ⟨i, hi, hin, -⟩ := h.results r (by rw [hres]; exact mem_cons_self) herr
  rw [hi, Option.getD_some] at hund ⊢
  obtain ⟨hidisp, hihas⟩ := h.ingested _ hin
  have hset : Core pack first { s with results, session } := by
    have := h.setRepo hobj hpois
    exact ⟨this.grows, this.sched, this.origin, this.ingested, h.jobs, h.sending,
      fun x hx => h.results x (by rw [hres]; exact mem_cons_of_mem _ hx), h.done,
      this.awaits⟩
  have hhas : session.repo.Has = s.session.repo.Has := Repository.has_congr hobj
  refine ⟨hset.grows, ?_, hset.origin, hset.ingested, h.jobs, h.sending, hset.results, ?_, ?_⟩
  · exact hset.sched.release pack.increasing hidisp hund (by
      show session.repo.Has r.oid
      rw [hhas]
      exact hihas)
  · intro j hj
    change ((s.sched.release i r.oid).nodes j).done = true at hj
    show ∃ x ∈ s.ingested, x.index = j ∧ x.oid = ((s.sched.release i r.oid).nodes j).base
    rw [Sched.release_done] at hj
    rw [Sched.release_base]
    split at hj
    next heq =>
      rw [if_pos heq, heq]
      exact ⟨_, hin, rfl, rfl⟩
    next hne =>
    have hjd := (h.sched.done j hj).1
    rw [if_neg hne, if_neg fun hk => h.sched.kid_not_free hund hk (mem_append_left _ hjd)]
    exact h.done j hj
  · exact fun hclean => (hset.awaits hclean).release i r.oid

end

/-! ## The counters -/

def holds (i : Nat) (w : Worker) : Nat := if w.job = some i then 1 else 0

def carries (i : Nat) (r : DeltaResult) : Nat := if r.index = some i then 1 else 0

def busy (w : Worker) : Nat := if w.job.isSome then 1 else 0

def counted (r : DeltaResult) : Nat := if r.index.isSome then 1 else 0

/-- The objects that are done. -/
def doneSet (pack : Pack) (s : Import) : Finset Nat :=
  (Finset.range pack.entries.length).filter fun i => (s.sched.nodes i).done = true

/-- A dispatched job is in one place at most: held by a worker, carried by a result, or done. -/
structure Counts (pack : Pack) (s : Import) : Prop where
  held : ∀ i, tally (holds i) s.workers + tally (carries i) s.results +
    (if (s.sched.nodes i).done then 1 else 0) ≤ s.dispatched.count i
  doneCount : (s.doneSet pack).card = s.session.storer.inserted
  total : s.session.storer.inserted + s.sched.active = s.dispatched.length
  active : s.cancelled = false → s.sched.active = tally busy s.workers + tally counted s.results
  failing : s.cancelled = false → .exited ∈ s.workers → ∃ r ∈ s.results, r.err.isSome = true

section

variable (h : Counts pack s)

include h

lemma Counts.same (hworkers : s'.workers = s.workers) (hres : s'.results = s.results)
    (hdone : ∀ i, (s'.sched.nodes i).done = (s.sched.nodes i).done)
    (hact : s'.sched.active = s.sched.active) (hdisp : s'.dispatched = s.dispatched)
    (hins : s'.session.storer.inserted = s.session.storer.inserted)
    (hcanc : s'.cancelled = false → s.cancelled = false) : Counts pack s' where
  held := by
    intro i
    rw [hworkers, hres, hdone, hdisp]
    exact h.held i
  doneCount := by
    rw [hins, ← h.doneCount]
    unfold doneSet
    simp only [hdone]
  total := by rw [hins, hact, hdisp]; exact h.total
  active := by rw [hact, hworkers, hres]; exact fun hc => h.active (hcanc hc)
  failing := by rw [hworkers, hres]; exact fun hc => h.failing (hcanc hc)

/-- A worker goes on with the same object in hand, or with none. -/
lemma Counts.setWorker {old new : Worker} (hw : s.workers[w]? = some old)
    (hjob : new.job = old.job) (hnew : new ≠ .exited) : Counts pack (s.setWorker w new) where
  held := by
    intro i
    show tally (holds i) (s.workers.set w new) + _ + _ ≤ _
    rw [tally_set_same hw (by rw [holds, holds, hjob])]
    exact h.held i
  doneCount := h.doneCount
  total := h.total
  active := by
    intro hc
    show _ = tally busy (s.workers.set w new) + _
    rw [tally_set_same hw (by rw [busy, busy, hjob])]
    exact h.active hc
  failing := by
    intro hc hex
    rcases mem_or_eq_of_mem_set hex with hold | heq
    · exact h.failing hc hold
    · exact absurd heq.symm hnew

lemma Counts.send (hw : s.workers[w]? = some (.sending r)) :
    Counts pack { s.setWorker w (if r.err.isSome then .exited else .idle) with results := s.results ++ [r] } := by
  have hjob : (if r.err.isSome then Worker.exited else .idle).job = none := by split <;> rfl
  constructor
  case held =>
    intro i
    show tally (holds i) (s.workers.set w _) + tally (carries i) (s.results ++ [r]) + _ ≤ _
    have hle := le_tally (holds i) s.workers _ (mem_of_getElem? hw)
    rw [tally_set_eq hw, tally_concat]
    have hfrom : holds i (.sending r) = carries i r := rfl
    have hto : holds i (if r.err.isSome then Worker.exited else .idle) = 0 := by
      rw [holds, hjob]
      simp
    have := h.held i
    show _ + _ + (if (s.sched.nodes i).done then 1 else 0) ≤ s.dispatched.count i
    omega
  case doneCount => exact h.doneCount
  case total => exact h.total
  case active =>
    intro hc
    show s.sched.active = tally busy (s.workers.set w _) + tally counted (s.results ++ [r])
    have hle := le_tally busy s.workers _ (mem_of_getElem? hw)
    rw [tally_set_eq hw, tally_concat]
    have hfrom : busy (.sending r) = counted r := rfl
    have hto : busy (if r.err.isSome then Worker.exited else .idle) = 0 := by
      rw [busy, hjob]
      simp
    have := h.active hc
    omega
  case failing =>
    intro hc hex
    by_cases herr : r.err.isSome = true
    · exact ⟨r, mem_append_right _ mem_cons_self, herr⟩
    · rcases mem_or_eq_of_mem_set hex with hold | heq
      · obtain ⟨r', hr', hsome⟩ := h.failing hc hold
        exact ⟨r', mem_append_left _ hr', hsome⟩
      · rw [if_neg herr] at heq
        cases heq

/-- After a cancellation a worker may drop what it has in hand. -/
lemma Counts.stop (hw : s.workers[w]? = some worker) (hcanc : s.cancelled = true) :
    Counts pack (s.setWorker w .exited) where
  held := by
    intro i
    have hto : holds i Worker.exited = 0 := by simp [holds, Worker.job]
    have := h.held i
    show tally (holds i) (s.workers.set w .exited) + tally (carries i) s.results +
      (if (s.sched.nodes i).done then 1 else 0) ≤ s.dispatched.count i
    rw [tally_set_eq hw]
    omega
  doneCount := h.doneCount
  total := h.total
  active := fun hc => Bool.noConfusion (hcanc.symm.trans hc)
  failing := fun hc => Bool.noConfusion (hcanc.symm.trans hc)

/-- A job that is handed out is held once. -/
lemma Counts.dispatch (hw : s.workers[w]? = some .idle) (hjob : job.index = i) :
    Counts pack { s.setWorker w (.seeking job) with
      sched := s.sched.take fromRoot, dispatched := s.dispatched ++ [i] } := by
  obtain ⟨ready, rootPos, htake⟩ := s.sched.take_eq fromRoot
  rw [htake]
  constructor
  case held =>
    intro j
    show tally (holds j) (s.workers.set w (.seeking job)) + tally (carries j) s.results +
      (if (s.sched.nodes j).done then 1 else 0) ≤ (s.dispatched ++ [i]).count j
    rw [tally_set_eq hw, count_append]
    have hidle : holds j .idle = 0 := by simp [holds, Worker.job]
    have hseek : holds j (.seeking job) = count j [i] := by
      rw [holds, Worker.job, hjob, count_singleton]
      by_cases hij : i = j <;> simp [hij]
    have := h.held j
    omega
  case doneCount => exact h.doneCount
  case total =>
    show s.session.storer.inserted + (s.sched.active + 1) = (s.dispatched ++ [i]).length
    have := h.total
    rw [length_append, length_singleton]
    omega
  case active =>
    intro hc
    show s.sched.active + 1 = tally busy (s.workers.set w (.seeking job)) + tally counted s.results
    rw [tally_set_eq hw]
    have hidle : busy .idle = 0 := rfl
    have hseek : busy (.seeking job) = 1 := rfl
    have := h.active hc
    omega
  case failing =>
    intro hc hex
    rcases mem_or_eq_of_mem_set hex with hold | heq
    · exact h.failing hc hold
    · cases heq

/-- The object of a result that waits is not done. -/
lemma Counts.undone (hnodup : s.dispatched.Nodup) (hres : s.results = r :: results)
    (hi : r.index = some i) : (s.sched.nodes i).done = false := by
  have hheld := h.held i
  have hcount : s.dispatched.count i ≤ 1 := nodup_iff_count_le_one.mp hnodup i
  rw [hres, tally] at hheld
  have hone : carries i r = 1 := by rw [carries, if_pos hi]
  cases hd : (s.sched.nodes i).done with
  | false => rfl
  | true =>
    rw [hd, if_pos rfl] at hheld
    omega

end

section

variable (hcore : Core pack first s)

include hcore

lemma doneSet_subset : ∀ i ∈ s.doneSet pack, i ∈ s.dispatched := by
  intro i hi
  exact (hcore.sched.done i (Finset.mem_filter.mp hi).2).1

lemma nodup_dispatched : s.dispatched.Nodup :=
  (nodup_append.mp hcore.sched.nodup).1

lemma Core.dispatched_lt (hi : i ∈ s.dispatched) : i < pack.entries.length :=
  Nat.lt_of_lt_of_le (hcore.sched.free_lt i (mem_append_left _ hi)) hcore.sched.scanned_le

end

/-- A result that is accounted for is done. -/
lemma Counts.accounted (h : Counts pack s) (hcore : Core pack first s)
    (hres : s.results = r :: results) (herr : r.err = none)
    (hacc : accountLinks r.oid r.kind (requireAll r.edges) s.session = (.ok (), session)) : Counts pack
      { s with results, session, sched := s.sched.release (r.index.getD 0) r.oid } := by
  obtain ⟨i, hi, hin, -⟩ := hcore.results r (by rw [hres]; exact mem_cons_self) herr
  have hund := h.undone (nodup_dispatched hcore) hres hi
  have hidisp := (hcore.ingested _ hin).1
  have hins := (accountLinks_counts (quiet_requireAll r.edges) r.oid r.kind hacc).2.2 rfl
  have hset : Finset.filter (fun j => ((s.sched.release i r.oid).nodes j).done = true)
      (Finset.range pack.entries.length) = insert i (s.doneSet pack) := by
    ext j
    simp only [Finset.mem_filter, Finset.mem_range, Finset.mem_insert, doneSet, Sched.release_done]
    by_cases hji : j = i
    · simp only [hji, if_pos, true_or, iff_true, and_true]
      exact hcore.dispatched_lt hidisp
    · simp [hji]
  have hnot : i ∉ s.doneSet pack := by
    intro hmem
    have := (Finset.mem_filter.mp hmem).2
    rw [hund] at this
    cases this
  -- the object itself is dispatched and not done, so some job is active
  have hpos : 1 ≤ s.sched.active := by
    have hsub : insert i (s.doneSet pack) ⊆ s.dispatched.toFinset := by
      intro j hj
      rw [mem_toFinset]
      rcases Finset.mem_insert.mp hj with rfl | hj
      · exact hidisp
      · exact doneSet_subset hcore j hj
    have hcard := Finset.card_le_card hsub
    rw [Finset.card_insert_of_notMem hnot, toFinset_card_of_nodup (nodup_dispatched hcore),
      h.doneCount, ← h.total] at hcard
    omega
  rw [hi, Option.getD_some]
  have hact : (s.sched.release i r.oid).active = s.sched.active - 1 := rfl
  constructor
  case held =>
    intro j
    have hheld := h.held j
    rw [hres, tally] at hheld
    show tally (holds j) s.workers + tally (carries j) results +
      (if ((s.sched.release i r.oid).nodes j).done then 1 else 0) ≤ s.dispatched.count j
    rw [Sched.release_done]
    by_cases hji : j = i
    · have hone : carries j r = 1 := by rw [carries, if_pos (by rw [hi, hji])]
      rw [if_pos hji, if_pos rfl]
      omega
    · rw [if_neg hji]
      omega
  case doneCount =>
    show (Finset.filter (fun j => ((s.sched.release i r.oid).nodes j).done = true) _).card = session.storer.inserted
    rw [hset, Finset.card_insert_of_notMem hnot, h.doneCount, hins]
  case total =>
    show session.storer.inserted + (s.sched.release i r.oid).active = s.dispatched.length
    rw [hact, hins, ← h.total]
    omega
  case active =>
    intro hc
    have hold := h.active hc
    rw [hres, tally] at hold
    have hone : counted r = 1 := by rw [counted, hi]; rfl
    show (s.sched.release i r.oid).active = tally busy s.workers + tally counted results
    rw [hact]
    omega
  case failing =>
    intro hc hex
    obtain ⟨r', hr', hsome⟩ := h.failing hc hex
    rw [hres] at hr'
    rcases mem_cons.mp hr' with rfl | hr'
    · rw [herr] at hsome
      cases hsome
    · exact ⟨r', hr', hsome⟩

/-! ## The batches on their way -/

/-- The entries on their way from the scanner. -/
def queued (s : Import) : List PackEntry := s.scans.flatMap ScanBatch.headers

/-- What the scanner has in hand continues the pack. -/
def Follows (pack : Pack) (s : Import) : Scanner → Prop
  | .scanning i batch =>
      i ≤ pack.entries.length ∧ pack.entries.drop s.sched.scanned = s.queued ++ batch ++ pack.entries.drop i
  | .sending i batch =>
      (batch.err = none → i ≤ pack.entries.length ∧
        pack.entries.drop s.sched.scanned = s.queued ++ batch.headers ++ pack.entries.drop i ∧
        (batch.done = true → batch.headers = [] ∧ i = pack.entries.length)) ∧
      (batch.err ≠ none → batch.headers = [] ∧ batch.done = true)
  | .exited => True

/-- The scanner sends the entries in order, each once. -/
structure Feed (pack : Pack) (s : Import) : Prop where
  follows : s.Follows pack s.scanner
  pending : s.scanner ≠ .exited → ∀ batch ∈ s.scans, batch.done = false
  front : s.queued <+: pack.entries.drop s.sched.scanned
  last : ∀ q batch rest, s.scans = q ++ batch :: rest → batch.done = true →
    rest = [] ∧ (batch.err = none → pack.entries.drop s.sched.scanned = s.queued)
  exited : s.scanner = .exited → s.cancelled = true ∨ ∃ batch ∈ s.scans, batch.done = true

lemma Feed.same (h : Feed pack s) (hscan : s'.scanner = s.scanner) (hscans : s'.scans = s.scans)
    (hscanned : s'.sched.scanned = s.sched.scanned)
    (hcanc : s.cancelled = true → s'.cancelled = true) : Feed pack s' := by
  have hque : s'.queued = s.queued := by rw [queued, queued, hscans]
  constructor
  case follows =>
    rw [hscan]
    have := h.follows
    unfold Follows at this ⊢
    rw [hque, hscanned]
    exact this
  case pending => rw [hscan, hscans]; exact h.pending
  case front => rw [hque, hscanned]; exact h.front
  case last => rw [hscans, hque, hscanned]; exact h.last
  case exited =>
    rw [hscan, hscans]
    exact fun he => (h.exited he).imp hcanc id

lemma follows_scanNext (ok : Bool)
    (h : s.Follows pack (.scanning i batch)) : s.Follows pack (scanNext pack i batch ok) ∧
      scanNext pack i batch ok ≠ .exited := by
  obtain ⟨hle, hdrop⟩ := h
  unfold scanNext
  cases hget : pack.entries[i]? with
  | some e =>
    obtain ⟨hlt, rfl⟩ := List.getElem?_eq_some_iff.mp hget
    have hnext : pack.entries.drop s.sched.scanned =
        s.queued ++ (batch ++ [pack.entries[i]]) ++ pack.entries.drop (i + 1) := by
      rw [hdrop, drop_eq_getElem_cons hlt]
      simp
    dsimp only
    split
    · exact ⟨⟨by simp, by simp⟩, by simp⟩
    · split
      · exact ⟨⟨fun _ => ⟨hlt, hnext, by simp⟩, by simp⟩, by simp⟩
      · exact ⟨⟨hlt, hnext⟩, by simp⟩
  | none =>
  have hn : i = pack.entries.length := by
    have := getElem?_eq_none_iff.mp hget
    omega
  dsimp only
  split
  · exact ⟨⟨fun _ => ⟨hle, hdrop, by simp⟩, by simp⟩, by simp⟩
  next hemp =>
  have hnil : batch = [] := by simpa using hemp
  subst hnil
  exact ⟨⟨fun _ => ⟨hle, hdrop, fun _ => ⟨rfl, hn⟩⟩, fun _ => ⟨rfl, rfl⟩⟩, by simp⟩

section

variable (h : Feed pack s)

include h

lemma Feed.scan (ok : Bool) (hscan : s.scanner = .scanning i batch) :
    Feed pack { s with scanner := scanNext pack i batch ok } := by
  have hfoll := h.follows
  rw [hscan] at hfoll
  obtain ⟨hnext, hne⟩ := follows_scanNext ok hfoll
  refine ⟨?_, fun _ => h.pending (by rw [hscan]; simp), h.front, h.last, fun he => absurd he hne⟩
  show Follows pack _ (scanNext pack i batch ok)
  unfold Follows at hnext ⊢
  exact hnext

/-- The scanner hands over a batch. -/
lemma Feed.scanSend {batch : ScanBatch} (hscan : s.scanner = .sending i batch) : Feed pack { s with
      scans := s.scans ++ [batch], scanner := if batch.done then .exited else .scanning i [] } := by
  have hfoll := h.follows
  rw [hscan] at hfoll
  obtain ⟨hgood, hbad⟩ := hfoll
  have hpend := h.pending (by rw [hscan]; simp)
  have hque : ∀ scanner, queued { s with scans := s.scans ++ [batch], scanner } = s.queued ++ batch.headers := by
    simp [queued]
  constructor
  case follows =>
    split
    · trivial
    next hdone =>
    have herr : batch.err = none := by
      by_contra hne
      exact hdone (hbad hne).2
    obtain ⟨hle, hdrop, -⟩ := hgood herr
    refine ⟨hle, ?_⟩
    rw [hque, append_nil]
    exact hdrop
  case pending =>
    intro hne b hb
    rcases mem_append.mp hb with hold | hnew
    · exact hpend b hold
    obtain rfl := mem_singleton.mp hnew
    cases hd : b.done with
    | false => rfl
    | true =>
      rw [hd, if_pos rfl] at hne
      exact absurd rfl hne
  case front =>
    rw [hque]
    show s.queued ++ batch.headers <+: pack.entries.drop s.sched.scanned
    by_cases herr : batch.err = none
    · rw [(hgood herr).2.1]
      exact prefix_append _ _
    · rw [(hbad herr).1, append_nil]
      exact h.front
  case last =>
    intro q b rest hsplit hdone
    change s.scans ++ [batch] = q ++ b :: rest at hsplit
    rcases eq_nil_or_concat rest with rfl | ⟨init, x, rfl⟩
    · obtain rfl : batch = b := by simpa using (append_inj' hsplit rfl).2
      refine ⟨rfl, fun herr => ?_⟩
      obtain ⟨-, hdrop, hend⟩ := hgood herr
      obtain ⟨hnil, hi⟩ := hend hdone
      rw [hque]
      show pack.entries.drop s.sched.scanned = _
      rw [hdrop, hi, drop_length, append_nil]
    exfalso
    have hmem : b ∈ s.scans := by
      have hlist : s.scans ++ [batch] = (q ++ b :: init) ++ [x] := by
        rw [hsplit]
        simp
      rw [(append_inj' hlist rfl).1]
      simp
    rw [hpend b hmem] at hdone
    cases hdone
  case exited =>
    intro he
    cases hd : batch.done with
    | true => exact .inr ⟨batch, mem_append_right _ mem_cons_self, hd⟩
    | false => rw [hd] at he; cases he

lemma Feed.scanStop (hcanc : s.cancelled = true) : Feed pack { s with scanner := .exited } :=
  ⟨trivial, fun hne => absurd rfl hne, h.front, h.last, fun _ => .inl hcanc⟩

/-- The main loop takes a batch. -/
lemma Feed.headers {batch : ScanBatch} {scans : List ScanBatch}
    (hscans : s.scans = batch :: scans) (hdone : batch.done = false)
    (hscanned : sched.scanned = s.sched.scanned + batch.headers.length) :
    Feed pack { { s with scans }.setRepo repo with sched } := by
  have hque : s.queued = batch.headers ++ scans.flatMap ScanBatch.headers := by simp [queued, hscans]
  have hdrop : ∀ l, pack.entries.drop s.sched.scanned = batch.headers ++ l → pack.entries.drop sched.scanned = l := by
    intro l hl
    rw [hscanned, ← drop_drop, hl, drop_left]
  constructor
  case follows =>
    have hfoll := h.follows
    show Follows pack _ s.scanner
    unfold Follows at hfoll ⊢
    cases hs : s.scanner with
    | scanning i b =>
      rw [hs] at hfoll
      exact ⟨hfoll.1, hdrop _ (by rw [hfoll.2, hque]; simp [queued, setRepo])⟩
    | sending i b =>
      rw [hs] at hfoll
      refine ⟨fun herr => ?_, hfoll.2⟩
      obtain ⟨hle, heq, hend⟩ := hfoll.1 herr
      exact ⟨hle, hdrop _ (by rw [heq, hque]; simp [queued, setRepo]), hend⟩
    | exited => trivial
  case pending =>
    intro hne b hb
    exact h.pending hne b (by rw [hscans]; exact mem_cons_of_mem _ hb)
  case front =>
    obtain ⟨l, hl⟩ := h.front
    rw [hque, append_assoc] at hl
    exact ⟨l, (hdrop _ hl.symm).symm⟩
  case last =>
    intro q b rest hsplit hbdone
    obtain ⟨hrest, hall⟩ := h.last (batch :: q) b rest (by
      rw [hscans]
      exact congrArg (batch :: ·) hsplit) hbdone
    exact ⟨hrest, fun herr => hdrop _ (by rw [hall herr, hque]; rfl)⟩
  case exited =>
    intro he
    rcases h.exited he with hc | ⟨b, hb, hbd⟩
    · exact .inl hc
    · rw [hscans] at hb
      rcases mem_cons.mp hb with rfl | hb
      · rw [hdone] at hbd
        cases hbd
      · exact .inr ⟨b, hb, hbd⟩

end

/-! ## How the loop is left -/

/-- The main loop has ended with `r`. -/
def Ended (s : Import) (r : Except Stop (Bytes × Nat)) : Prop :=
  s.main = .leaving r ∨ s.main = .returned r

/-- Nothing can run, and not everything is done. -/
structure Stuck (pack : Pack) (s : Import) : Prop where
  scanned : s.sched.scanned = pack.entries.length
  done : ∀ i ∈ s.dispatched, (s.sched.nodes i).done = true
  empty : s.sched.ready ++ s.sched.roots.drop s.sched.rootPos = []
  left : ∃ i < pack.entries.length, (s.sched.nodes i).done = false

/-- What the end of the loop says about the schedule. -/
structure Outcome (pack : Pack) (s : Import) : Prop where
  cancelled : s.main ≠ .running → s.cancelled = true
  complete : ∀ v, s.Ended (.ok v) → ∀ i < pack.entries.length, (s.sched.nodes i).done = true
  stuck : s.Ended (.error .missingOrCyclic) → s.Stuck pack
  missing : s.Ended (.error .missingOffsetBase) → ∃ (i : Nat) (h : PackEntry), pack.entries[i]? = some h ∧
    h.type = .ofsDelta ∧ ∀ p, ¬ Parent pack.entries i p
  invalid : s.Ended (.error .packObjectType) → ∃ (i : Nat) (h : PackEntry), pack.entries[i]? = some h ∧
    h.type = .invalid
  counted : ¬ s.Ended (.error .scannedCount)

lemma outcome_running (h : s.main = .running) : Outcome pack s := by
  have hnot : ∀ r, ¬ s.Ended r := by rintro r (he | he) <;> rw [h] at he <;> cases he
  exact ⟨fun hne => absurd h hne, fun v he => absurd he (hnot _), fun he => absurd he (hnot _),
    fun he => absurd he (hnot _), fun he => absurd he (hnot _), hnot _⟩

lemma Outcome.same (h : Outcome pack s) (hmain : s'.main = s.main) (hsched : s'.sched = s.sched)
    (hdisp : s'.dispatched = s.dispatched) (hcanc : s.cancelled = true → s'.cancelled = true) : Outcome pack s' := by
  have hended : s'.Ended = s.Ended := by
    funext r
    rw [Ended, Ended, hmain]
  constructor
  case cancelled => rw [hmain]; exact fun hne => hcanc (h.cancelled hne)
  all_goals rw [hended]
  case complete => rw [hsched]; exact h.complete
  case stuck =>
    intro he
    obtain ⟨h1, h2, h3, h4⟩ := h.stuck he
    constructor <;> rw [hsched]
    · exact h1
    · rw [hdisp]; exact h2
    · exact h3
    · exact h4
  case missing => exact h.missing
  case invalid => exact h.invalid
  case counted => exact h.counted

lemma ended_leave {r r' : Except Stop (Bytes × Nat)} (h : (s.leave r).Ended r') : r' = r := by
  rcases h with h | h
  · exact (Main.leaving.inj h).symm
  · cases h

/-- An error that was reported says nothing about the scheduler. -/
lemma outcome_reported (e : Err) : Outcome pack (s.leave (.error (.reported e))) where
  cancelled := fun _ => rfl
  complete := fun v he => by cases ended_leave he
  stuck := fun he => by cases ended_leave he
  missing := fun he => by cases ended_leave he
  invalid := fun he => by cases ended_leave he
  counted := fun he => by cases ended_leave he

end Import

end Trex.GitStore
