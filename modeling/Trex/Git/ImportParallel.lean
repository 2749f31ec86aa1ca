import Trex.Git.ParallelEnds
import Trex.Lib.Acyclic
import Trex.Repo.Run

/-!
# What the parallel import returns

`Resolvable`: every base of the pack exists and no object needs itself.  A run without an error shows it
(`Grounded`), one that gives up refutes it, and where it holds a run in which nothing else fails
(`Flawless`) has no error.
-/

namespace Trex.GitStore

open List Option

open Relation Tally
open Trex.Repo (GitOID Env zeroOID gitBlob gitPreimage sampleEnv)

/-! ## Bases -/

section

variable (es : List PackEntry) (first : GitOID → Prop) (ids : Nat → GitOID)

/-- Object `q` of the pack is the base of object `i`.  A reference to an object that the
repository has needs nothing of the pack. -/
def Base (i q : Nat) : Prop :=
  Parent es i q ∨ ∃ oid, Names es i oid ∧ ¬ first oid ∧ q < es.length ∧ ids q = oid

/-- The base of object `i` is in the pack or in the repository, if it has one. -/
def BaseExists (i : Nat) : Prop :=
  IsRoot es i ∨ (∃ q, Base es first ids i q) ∨ ∃ oid, Names es i oid ∧ first oid

/-- Every base exists and no object needs itself. -/
structure Resolvable : Prop where
  exist : ∀ i < es.length, BaseExists es first ids i
  acyclic : ∀ i, ¬ TransGen (Base es first ids) i i

/-- The bases of an object lead to a root or to the repository. -/
inductive Grounded : Nat → Prop
  | root {i : Nat} : IsRoot es i → Grounded i
  | known {i : Nat} {oid : GitOID} : Names es i oid → first oid → Grounded i
  | based {i q : Nat} : Base es first ids i q → Grounded q → Grounded i

end

section

variable {es : List PackEntry} {first : GitOID → Prop} {ids : Nat → GitOID}

lemma IsRoot.not_parent {i p : Nat} (h : IsRoot es i) : ¬ Parent es i p := by
  rintro ⟨-, e, -, he, -, htype, -⟩
  obtain ⟨e', he', hmem⟩ := h
  obtain rfl := some.inj (he.symm.trans he')
  rw [htype] at hmem
  simp at hmem

lemma IsRoot.not_names {i : Nat} {oid : GitOID} (h : IsRoot es i) : ¬ Names es i oid := by
  rintro ⟨e, he, htype, -⟩
  obtain ⟨e', he', hmem⟩ := h
  obtain rfl := some.inj (he.symm.trans he')
  rw [htype] at hmem
  simp at hmem

lemma Grounded.baseExists {i : Nat} (h : Grounded es first ids i) : BaseExists es first ids i := by
  cases h with
  | root h => exact .inl h
  | known hn hf => exact .inr (.inr ⟨_, hn, hf⟩)
  | based hb _ => exact .inr (.inl ⟨_, hb⟩)

lemma Base.lt_length {i q : Nat} (h : Base es first ids i q) : i < es.length := by
  rcases h with ⟨-, e, -, he, -⟩ | ⟨-, ⟨e, he, -⟩, -⟩
  · exact (List.getElem?_eq_some_iff.mp he).1
  · exact (List.getElem?_eq_some_iff.mp he).1

/-- A grounded object needs only finitely many others, so it does not need itself. -/
lemma Grounded.not_cycle (hone : ∀ i p q, Base es first ids i p → Base es first ids i q → p = q) {i : Nat}
    (h : Grounded es first ids i) : ¬ TransGen (Base es first ids) i i := by
  refine Acyclic.not_cycle_of_acc ?_
  induction h with
  | root hroot =>
    refine ⟨_, fun q hq => ?_⟩
    rcases hq with hq | ⟨oid, hn, -⟩
    · exact absurd hq hroot.not_parent
    · exact absurd hn hroot.not_names
  | known hn hf =>
    refine ⟨_, fun q hq => ?_⟩
    rcases hq with hq | ⟨oid, hn', hno, -⟩
    · exact absurd hn hq.not_names
    · rw [← hn.unique hn'] at hno
      exact absurd hf hno
  | based hb _ ih =>
  refine ⟨_, fun q hq => ?_⟩
  rw [hone _ _ _ hq hb]
  exact ih

end

namespace Import

variable {env : Env} {pack : Pack} {first : Repository} {ws : Nat} {s s' : Import}

/-! ## The two ends of the loop -/

/-- `ids` gives the identities of what was ingested. -/
def Agrees (s : Import) (ids : Nat → GitOID) : Prop := ∀ x ∈ s.ingested, ids x.index = x.oid

variable {ids : Nat → GitOID} {i w : Nat} {e : Event} {events : List Event} {fromRoot : Bool}
  {repo : Repository}

/-- A runnable job rests on objects that are grounded. -/
lemma Core.grounded_of_runnable (h : Core pack first s) (hids : s.Agrees ids)
    (hbef : ∀ i ∈ s.dispatched, Grounded pack.entries first.Has ids i)
    (hrun : s.sched.Runnable pack.entries s.session.repo.Has i) : Grounded pack.entries first.Has ids i := by
  rcases hrun with ⟨hroot, -⟩ | ⟨p, hp, hdone, -⟩ | ⟨hn, hhas⟩
  · exact .root hroot
  · exact .based (.inl hp) (hbef p (h.sched.done p hdone).1)
  by_cases hfirst : first.Has (s.sched.nodes i).base
  · exact .known hn hfirst
  · rcases h.origin _ hhas with hf | ⟨x, hx, hxo⟩
    · exact absurd hf hfirst
    · have hdisp := (h.ingested x hx).1
      refine .based (.inr ⟨_, hn, hfirst, h.dispatched_lt hdisp, ?_⟩) (hbef _ hdisp)
      rw [hids x hx, hxo]

/-- What was dispatched rests on objects of the first repository or on whole ones. -/
def Rooted (pack : Pack) (first : Repository) (s : Import) : Prop :=
  ∀ ids, s.Agrees ids → ∀ i ∈ s.dispatched, Grounded pack.entries first.Has ids i

lemma available_of_offer {x : Nat × Bool} (h : s.offer = some x) : s.sched.available = some x := by
  unfold offer at h
  split at h
  · exact h
  · cases h

/-- Dispatching takes only what is rooted. -/
lemma Rooted.step (h : Rooted pack first s) (hcore : Core pack first s)
    (hmove : Moves env pack s e s') : Rooted pack first s' := by
  cases hmove with
  | dispatch hw hofr hrun =>
    intro ids hids i hi
    rcases mem_append.mp hi with hold | hnew
    · exact h ids hids i hold
    · obtain rfl := mem_singleton.mp hnew
      obtain ⟨-, -, hrunnable⟩ := hcore.sched.take (available_of_offer hofr)
      exact hcore.grounded_of_runnable hids (h ids hids) hrunnable
  | stored ok hw hsto hlinks => exact fun ids hids => h ids fun x hx => hids x (mem_append_left _ hx)
  | _ => exact h

/-- Where the loop gives up, some base is missing or some objects need each other. -/
lemma Stuck.not_resolvable (h : s.Stuck pack) (hcore : Core pack first s)
    (hclean : s.session.repo.poisoned = false) (hids : s.Agrees ids) : ¬ Resolvable pack.entries first.Has ids := by
  intro hres
  obtain ⟨i, hcycle⟩ := Acyclic.exists_cycle (r := Base pack.entries first.Has ids)
    (fun i => (s.sched.nodes i).done = false) h.left fun i hi hleft => by
      rcases hcore.sched.covered i (by rw [h.scanned]; exact hi) with hfree | hpar | ⟨oid, hwait⟩
      · rw [Sched.free, h.empty, append_nil] at hfree
        rw [h.done i hfree] at hleft
        cases hleft
      · obtain ⟨p, hp, hpd⟩ := hpar
        exact ⟨p, hp.1.trans hi, hpd, .inl hp⟩
      obtain ⟨-, hn, -⟩ := hcore.sched.waiter oid i hwait
      obtain ⟨hnot, hnone⟩ := hcore.awaits hclean oid i hwait
      rcases hres.exist i hi with hroot | ⟨q, hq | ⟨oid', hn', hno, hlt, hid⟩⟩ | ⟨oid', hn', hf⟩
      · exact absurd hn hroot.not_names
      · exact absurd hn hq.not_names
      · refine ⟨q, hlt, ?_, .inr ⟨oid', hn', hno, hlt, hid⟩⟩
        by_contra hdone
        obtain ⟨x, hx, hxi, hxo⟩ := hcore.done q (by simpa using hdone)
        refine hnone q (by simpa using hdone) ?_
        rw [← hxo, ← hids x hx, hxi, hid, hn'.unique hn]
      · rw [hn'.unique hn] at hf
        exact absurd hf hnot
  exact hres.acyclic i hcycle

/-! ## Runs in which nothing fails -/

/-- A step in which an operation outside the scheduler fails. -/
inductive Fails (env : Env) (pack : Pack) (s : Import) : Event → Import → Prop where
  | cancel {s' : Import} : Fails env pack s .cancel s'
  | scan {s' : Import} : Fails env pack s (.scan false) s'
  | header {s' : Import} {i : Nat} {batch : List PackEntry} {h : PackEntry} :
      s.scanner = .scanning i batch → pack.entries[i]? = some h → h.check ≠ .ok () →
      Fails env pack s (.scan true) s'
  | start {s' : Import} {w : Nat} : Fails env pack s (.start w false) s'
  | work {s' : Import} {w : Nat} : Fails env pack s (.work w false) s'
  | length {s' : Import} {w : Nat} {job : DeltaJob} {h : PackEntry} :
      s.workers[w]? = some (.seeking job) → pack.entries[job.index]? = some h →
      (h.length < 0 ∨ h.length > 2 ^ 30) → Fails env pack s (.work w true) s'
  | object {s' : Import} {w : Nat} {job : DeltaJob} {h : PackEntry} {kind : UInt8}
      {baseSize : Nat} {e : Err} {repo : Repository} :
      s.workers[w]? = some (.reading job h kind baseSize) →
      readObject env job h kind baseSize s.session.repo = (.error e, repo) →
      Fails env pack s (.work w true) s'
  | store {s' : Import} {w : Nat} {job : DeltaJob} {kind : UInt8} {oid : GitOID} {body : Bytes}
      {e : Err} {repo : Repository} : s.workers[w]? = some (.storing job kind oid body) →
      ingestStore oid kind body s.session.repo = (.error e, repo) →
      Fails env pack s (.work w true) s'
  | links {s' : Import} {w : Nat} {job : DeltaJob} {kind : UInt8} {oid : GitOID} {body : Bytes}
      {edges : List (GitOID × UInt8)} {e : Err} :
      s.workers[w]? = some (.storing job kind oid body) →
      gitLinks kind body 20 = (edges, some e) → Fails env pack s (.work w true) s'
  | account {s' : Import} {r : DeltaResult} {results : List DeltaResult} {e : Err}
      {session : Session} : s.results = r :: results → r.err = none →
      accountLinks r.oid r.kind (requireAll r.edges) s.session = (.error e, session) →
      Fails env pack s .receiveResult s'
  | poison {s' : Import} {e : Event} : s'.session.repo.poisoned = true → Fails env pack s e s'

/-- A run in which nothing outside the scheduler fails. -/
def Flawless (env : Env) (pack : Pack) (s : Import) : List Event → Prop
  | [] => True
  | e :: events => ∀ s', s.step env pack e = some s' → ¬ s.Fails env pack e s' ∧ Flawless env pack s' events

/-- No error has come up, and the jobs of the workers find their entries and bases. -/
structure Clean (pack : Pack) (s : Import) : Prop where
  seeking : ∀ job, .seeking job ∈ s.workers → ∃ h, pack.entries[job.index]? = some h ∧
    job.offset = h.offset ∧ (h.type.isDelta = true → s.session.repo.Has job.base)
  scanner : ∀ i batch, s.scanner = .sending i batch → batch.err = none
  scans : ∀ batch ∈ s.scans, batch.err = none
  sending : ∀ r, .sending r ∈ s.workers → r.err = none
  results : ∀ r ∈ s.results, r.err = none
  cancelled : s.main = .running → s.cancelled = false
  ended : ∀ e, ¬ s.Ended (.error (.reported e))

lemma clean_init (pack : Pack) (repo : Repository) (ws : Nat) : Clean pack (init repo ws) where
  seeking := fun job hjob => by cases eq_of_mem_replicate hjob
  scanner := fun i batch h => by cases h
  scans := fun batch h => by cases h
  sending := fun r hr => by cases eq_of_mem_replicate hr
  results := fun r h => by cases h
  cancelled := fun _ => rfl
  ended := fun e h => by rcases h with h | h <;> cases h

lemma seek_offset {h : PackEntry} (hget : pack.entries[i]? = some h) : pack.seek h.offset = some h := by
  obtain ⟨hi, rfl⟩ := List.getElem?_eq_some_iff.mp hget
  unfold Pack.seek
  cases hfind : pack.entries.find? fun e => e.offset == pack.entries[i].offset with
  | none =>
    have := find?_eq_none.mp hfind pack.entries[i] (getElem_mem hi)
    simp at this
  | some e =>
  have heq : e.offset = pack.entries[i].offset := by simpa using find?_some hfind
  obtain ⟨j, hj, rfl⟩ := mem_iff_getElem.mp (mem_of_find?_eq_some hfind)
  have hinc := pairwise_iff_getElem.mp pack.increasing
  rcases Nat.lt_trichotomy i j with hlt | rfl | hlt
  · have := hinc i j hi hj hlt
    omega
  · rfl
  · have := hinc j i hj hi hlt
    omega

/-- A job that is dispatched finds its entry and its base. -/
lemma Core.seeks (h : Core pack first s) (havail : s.sched.available = some (i, fromRoot)) :
    ∃ e, pack.entries[i]? = some e ∧ (s.sched.nodes i).offset = e.offset ∧
      (e.type.isDelta = true → s.session.repo.Has (s.sched.nodes i).base) := by
  obtain ⟨hinv, -, hrun⟩ := h.sched.take havail
  obtain ⟨ready, rootPos, htake⟩ := s.sched.take_eq fromRoot
  rw [htake] at hinv
  have hlt : i < s.sched.scanned := hinv.free_lt i (mem_append_left _ (mem_append_right _ mem_cons_self))
  have hi : i < pack.entries.length := hlt.trans_le h.sched.scanned_le
  have hget : pack.entries[i]? = some pack.entries[i] := getElem?_eq_getElem hi
  refine ⟨_, hget, h.sched.offset i _ hlt hget, fun hdelta => ?_⟩
  rcases hrun with ⟨⟨e, he, hmem⟩, -⟩ | ⟨p, hp, hdone, hbase⟩ | ⟨-, hhas⟩
  · obtain rfl := some.inj (hget.symm.trans he)
    simp only [mem_cons, not_mem_nil, or_false] at hmem
    rcases hmem with htype | htype | htype | htype <;> rw [htype] at hdelta <;> cases hdelta
  · rw [hbase]
    exact (h.sched.done p hdone).2
  · exact hhas

/-- A worker takes a step without an error. -/
lemma Clean.works (h : Clean pack s) (new : Worker)
    (hseeking : ∀ job, new = .seeking job → ∃ h, pack.entries[job.index]? = some h ∧
      job.offset = h.offset ∧ (h.type.isDelta = true → s'.session.repo.Has job.base))
    (hsend : ∀ r, new = .sending r → r.err = none) (hrepo : ∀ oid, s.session.repo.Has oid → s'.session.repo.Has oid)
    (hworkers : s'.workers = s.workers.set w new) (hscan : s'.scanner = s.scanner)
    (hscans : s'.scans = s.scans) (hres : s'.results = s.results) (hmain : s'.main = s.main)
    (hcanc : s'.cancelled = s.cancelled) : Clean pack s' where
  seeking := by
    rw [hworkers]
    intro job hjob
    rcases mem_or_eq_of_mem_set hjob with hold | heq
    · obtain ⟨e, he, hoff, hbase⟩ := h.seeking job hold
      exact ⟨e, he, hoff, fun hd => hrepo _ (hbase hd)⟩
    · exact hseeking job heq.symm
  scanner := by rw [hscan]; exact h.scanner
  scans := by rw [hscans]; exact h.scans
  sending := by
    rw [hworkers]
    intro r hr
    rcases mem_or_eq_of_mem_set hr with hold | heq
    · exact h.sending r hold
    · exact hsend r heq.symm
  results := by rw [hres]; exact h.results
  cancelled := by rw [hmain, hcanc]; exact h.cancelled
  ended := by
    unfold Ended
    rw [hmain]
    exact h.ended

/-- The main loop takes something without an error. -/
lemma Clean.reads (h : Clean pack s) (hrepo : s'.session.repo.objects = s.session.repo.objects)
    (hworkers : s'.workers = s.workers) (hscan : s'.scanner = s.scanner)
    (hscans : ∀ batch ∈ s'.scans, batch ∈ s.scans) (hres : s'.results = s.results)
    (hmain : s'.main = s.main) (hcanc : s'.cancelled = s.cancelled) : Clean pack s' where
  seeking := by
    unfold Repository.Has
    rw [hworkers, hrepo]
    exact h.seeking
  scanner := by rw [hscan]; exact h.scanner
  scans := fun batch hb => h.scans batch (hscans batch hb)
  sending := by rw [hworkers]; exact h.sending
  results := by rw [hres]; exact h.results
  cancelled := by rw [hmain, hcanc]; exact h.cancelled
  ended := by
    unfold Ended
    rw [hmain]
    exact h.ended

lemma Clean.leave (h : Clean pack s) {r : Except Stop (Bytes × Nat)}
    (hr : ∀ e, r ≠ .error (.reported e)) : Clean pack (s.leave r) :=
  { h with cancelled := fun hrun => Main.noConfusion hrun, ended := fun e he => hr e (ended_leave he).symm }

lemma scanNext_clean {batch : List PackEntry}
    (hok : ∀ h, pack.entries[i]? = some h → h.check = .ok ()) (j : Nat) (b : ScanBatch)
    (hb : scanNext pack i batch true = .sending j b) : b.err = none := by
  unfold scanNext at hb
  cases hget : pack.entries[i]? with
  | some h =>
    simp only [hget, if_true, hok h hget] at hb
    split at hb
    · cases hb
      rfl
    · cases hb
  | none =>
    simp only [hget, if_true] at hb
    split at hb <;> cases hb <;> rfl

lemma Clean.seek (h : Clean pack s) {job : DeltaJob} {worker : Worker} (hw : s.workers[w]? = some (.seeking job))
    (hseek : Import.seek pack job true s.session.repo = (worker, repo))
    (hlength : ∀ e, pack.entries[job.index]? = some e → ¬ (e.length < 0 ∨ e.length > 2 ^ 30))
    (hclean : repo.poisoned = false) : ∃ e kind baseSize, worker = .reading job e kind baseSize := by
  obtain ⟨e, he, hoff, hbase⟩ := h.seeking job (mem_of_getElem? hw)
  unfold Import.seek at hseek
  rw [hoff] at hseek
  simp only [if_true, seek_offset he, if_neg (hlength e he)] at hseek
  obtain ⟨found, r', hrun, hfound⟩ := gitObjectHeader_spec job.base s.session.repo
  by_cases hdelta : e.type.isDelta = true
  · rw [if_pos hdelta, hrun] at hseek
    cases found with
    | some p => exact ⟨e, p.1, p.2, (Prod.mk.inj hseek).1.symm⟩
    | none =>
    -- the base is there, so the lookup has failed
    exfalso
    obtain ⟨-, rfl⟩ := Prod.mk.inj hseek
    rcases hfound with hnone | ⟨-, hp⟩
    · have hhas := hbase hdelta
      rw [eq_comm, map_eq_none_iff] at hnone
      rw [Repository.Has, hnone] at hhas
      cases hhas
    · rw [hclean] at hp
      cases hp
  · rw [if_neg hdelta] at hseek
    exact ⟨e, _, _, (Prod.mk.inj hseek).1.symm⟩

lemma Clean.scanSend (h : Clean pack s) {batch : ScanBatch} (hs : s.scanner = .sending i batch) :
    Clean pack { s with
      scans := s.scans ++ [batch]
      scanner := if batch.done then .exited else .scanning i [] } := by
  refine { h with scanner := fun j b hb => ?_, scans := fun b hb => ?_ }
  · dsimp only at hb
    split at hb <;> cases hb
  · rcases mem_append.mp hb with hold | hnew
    · exact h.scans b hold
    · obtain rfl := mem_singleton.mp hnew
      exact h.scanner i b hs

lemma Clean.read (h : Clean pack s) {job : DeltaJob} {entry : PackEntry} {kind : UInt8} {baseSize : Nat}
    {worker : Worker} (hread : Import.read env job entry kind baseSize true s.session.repo = (worker, repo))
    (hok : ∀ e r, readObject env job entry kind baseSize s.session.repo ≠ (.error e, r)) :
    Clean pack ((s.setWorker w worker).setRepo repo) := by
  obtain ⟨hobj, -⟩ := read_spec hread
  unfold Import.read at hread
  rw [if_pos rfl] at hread
  split at hread
  next oid body r1 hobject =>
    obtain ⟨rfl, rfl⟩ := Prod.mk.inj hread
    exact h.works (.storing job kind oid body) nofun nofun
      (fun oid => (congrFun (Repository.has_congr hobj) oid).mpr) rfl rfl rfl rfl rfl rfl
  next e r1 herr => exact absurd herr (hok e r1)

lemma Clean.stored (h : Clean pack s) {job : DeltaJob} {kind : UInt8} {oid : GitOID} {body : Bytes}
    (edges : List (GitOID × UInt8)) (hstore : ingestStore oid kind body s.session.repo = (.ok (), repo)) :
    Clean pack { (s.setWorker w (.sending { index := some job.index, edges, oid, kind, body, err := none })).setRepo
        repo with
      ingested := s.ingested ++ [⟨job.index, oid, kind, body⟩] } := by
  obtain ⟨-, hobj⟩ := (ingestStore_spec oid kind body s.session.repo).ok hstore
  refine h.works (.sending { index := some job.index, edges, oid, kind, body, err := none })
    nofun (fun r hr => by cases hr; rfl) (fun x hx => ?_) rfl rfl rfl rfl rfl rfl
  show (repo.objects.find x).isSome = true
  rcases hobj with ⟨hsame, -⟩ | ⟨-, hins⟩
  · rw [hsame]
    exact hx
  · rw [hins, SortedMap.find_insert]
    split
    · rfl
    · exact hx

lemma Clean.send (h : Clean pack s) {r : DeltaResult} (hw : s.workers[w]? = some (.sending r)) :
    Clean pack { s.setWorker w (if r.err.isSome then .exited else .idle) with results := s.results ++ [r] } := by
  have herr := h.sending r (mem_of_getElem? hw)
  have hset : Clean pack (s.setWorker w (if r.err.isSome then .exited else .idle)) := by
    rw [herr]
    exact h.works .idle nofun nofun (fun _ => id) rfl rfl rfl rfl rfl rfl
  refine { hset with results := fun r' hr' => ?_ }
  rcases mem_append.mp hr' with hold | hnew
  · exact h.results r' hold
  · obtain rfl := mem_singleton.mp hnew
    exact herr

/-- The main loop takes a batch; what else changes, `Clean` does not look at. -/
lemma Clean.takeScan (h : Clean pack s) {batch : ScanBatch} (hscans : s.scans = batch :: s'.scans)
    (hrepo : s'.session.repo.objects = s.session.repo.objects) (hworkers : s'.workers = s.workers)
    (hscan : s'.scanner = s.scanner) (hres : s'.results = s.results) (hmain : s'.main = s.main)
    (hcanc : s'.cancelled = s.cancelled) : Clean pack s' :=
  h.reads hrepo hworkers hscan (fun b hb => by rw [hscans]; exact mem_cons_of_mem _ hb) hres hmain hcanc

/-- A step without a fault keeps the run clean. -/
lemma Clean.step (h : Clean pack s) (hinv : Inv pack first ws s)
    (hmove : Moves env pack s e s') (hfails : ¬ s.Fails env pack e s') : Clean pack s' := by
  have hclean : s'.session.repo.poisoned = false := by
    by_contra hp
    exact hfails (.poison (by simpa using hp))
  cases hmove with
  | cancel hc => exact absurd .cancel hfails
  | @scan i batch ok hs =>
    cases ok with
    | false => exact absurd .scan hfails
    | true =>
    have hok : ∀ h, pack.entries[i]? = some h → h.check = .ok () := by
      intro e he
      by_contra hne
      exact hfails (.header hs he hne)
    exact { h with scanner := scanNext_clean hok }
  | scanSend hs hroom => exact h.scanSend hs
  | scanStop hs hc => exact { h with scanner := fun j b hb => Scanner.noConfusion hb }
  | @start w ok hw =>
    cases ok with
    | false => exact absurd .start hfails
    | true => exact h.works .idle nofun nofun (fun _ => id) rfl rfl rfl rfl rfl rfl
  | @seek w job worker repo ok hw hseek =>
    cases ok with
    | false => exact absurd .work hfails
    | true =>
    obtain ⟨e, kind, baseSize, rfl⟩ := h.seek hw hseek
      (fun e he hlen => hfails (.length hw he hlen)) hclean
    obtain ⟨hobj, -⟩ := seek_spec hseek
    exact h.works (.reading job e kind baseSize) nofun nofun
      (fun oid => (congrFun (Repository.has_congr hobj) oid).mpr) rfl rfl rfl rfl rfl rfl
  | read ok hw hread =>
    cases ok with
    | false => exact absurd .work hfails
    | true => exact h.read hread fun e r herr => hfails (.object hw herr)
  | storeFails ok hw hsto =>
    cases ok with
    | false => exact absurd .work hfails
    | true => exact absurd (.store hw hsto) hfails
  | @stored w job kind oid body edges err repo ok hw hsto hlinks =>
    cases ok with
    | false => exact absurd .work hfails
    | true =>
    cases err with
    | some e => exact absurd (.links hw hlinks) hfails
    | none => exact h.stored edges hsto
  | send hw hroom => exact h.send hw
  | stop hw hworkers hc => exact h.works .exited nofun nofun (fun _ => id) rfl rfl rfl rfl rfl rfl
  | leaveCancelled hrun hc =>
    rw [h.cancelled hrun] at hc
    cases hc
  | finish | giveUp => exact h.leave (by simp)
  | @scanFails batch scans e hscans hrun hs herr =>
    rw [h.scans batch (by rw [hscans]; exact mem_cons_self)] at herr
    cases herr
  | @headersFail batch scans e repo hscans hrun hs herr hadd =>
    have hadded := hinv.added hscans hrun hs hadd
    refine Clean.leave ?_ fun e' heq => ?_
    · exact h.takeScan hscans hadded.objects rfl rfl rfl rfl rfl
    · cases heq
      simpa using hadded.error _ rfl
  | countFails hscans hrun hs herr hadd hdone hcount =>
    refine Clean.leave ?_ (by simp)
    exact h.takeScan hscans (hinv.added hscans hrun hs hadd).objects rfl rfl rfl rfl rfl
  | headers hscans hrun hs herr hadd | scanEnds hscans hrun hs herr hadd =>
    exact h.takeScan hscans (hinv.added hscans hrun hs hadd).objects rfl rfl rfl rfl rfl
  | @dispatch w i fromRoot hw hofr hrun =>
    refine h.works (.seeking ⟨i, (s.sched.nodes i).offset, (s.sched.nodes i).base⟩)
      (fun job hj => ?_) nofun (fun _ => id) rfl rfl rfl rfl rfl rfl
    cases hj
    exact hinv.core.seeks (available_of_offer hofr)
  | @resultFails r results e hres hrun herr =>
    rw [h.results r (by rw [hres]; exact mem_cons_self)] at herr
    cases herr
  | accountFails hres hrun herr hacc => exact absurd (.account hres herr hacc) hfails
  | @accounted r results session hres hrun herr hacc =>
    obtain ⟨hobj, -⟩ := accountLinks_counts (quiet_requireAll r.edges) r.oid r.kind hacc
    have hpop : Clean pack { s with session } := h.reads hobj rfl rfl (fun _ => id) rfl rfl rfl
    exact { hpop with results := fun x hx => h.results x (by rw [hres]; exact mem_cons_of_mem _ hx) }
  | @wait r hmain hs hall =>
  refine { h with cancelled := fun hrun => Main.noConfusion hrun, ended := fun e he => ?_ }
  rcases he with he | he
  · cases he
  · exact h.ended e (.inl (by rw [hmain, Main.returned.inj he]))

/-- A run without faults stays clean. -/
lemma clean_run {s0 : Import} (hworkers : 0 < ws) (h : Inv pack first ws s0)
    (hc : Clean pack s0) (hf : s0.Flawless env pack events) (hrun : s0.run env pack events = some s) :
    Clean pack s ∧ (events ≠ [] → s.session.repo.poisoned = false) := by
  induction events generalizing s0 with
  | nil =>
    obtain rfl := some.inj hrun
    exact ⟨hc, fun hne => absurd rfl hne⟩
  | cons e events ih =>
  obtain ⟨s1, hstep, hrest⟩ := bind_eq_some_iff.mp hrun
  have hmove := moves_of_step hstep
  obtain ⟨hnot, hf1⟩ := hf s1 hstep
  obtain ⟨hclean, hpois⟩ := ih (h.step hworkers hmove) (hc.step h hmove hnot) hf1 hrest
  refine ⟨hclean, fun _ => ?_⟩
  cases events with
  | nil =>
    obtain rfl := some.inj hrest
    by_contra hp
    exact hnot (.poison (by simpa using hp))
  | cons e' events => exact hpois (by simp)

/-! ## The scheduler -/

/-- The base of an object is there: none, an object of the pack, or one of the repository. -/
def BaseIngested (pack : Pack) (repo : Repository) (s : Import) (i : Nat) (base : GitOID) : Prop :=
  (IsRoot pack.entries i ∧ base = zeroOID) ∨
  (s.session.repo.Has base ∧
    ((∃ p, Parent pack.entries i p ∧ ∃ x ∈ s.ingested, x.index = p ∧ x.oid = base) ∨
      (Names pack.entries i base ∧ (repo.Has base ∨ ∃ x ∈ s.ingested, x.oid = base))))

/-- The base of an available job is there. -/
lemma Core.baseIngested (h : Core pack first s) (havail : s.sched.available = some (i, fromRoot)) :
    BaseIngested pack first s i (s.sched.nodes i).base := by
  obtain ⟨-, -, hrun⟩ := h.sched.take havail
  rcases hrun with hroot | ⟨p, hp, hdone, hbase⟩ | ⟨hn, hhas⟩
  · exact .inl hroot
  · obtain ⟨x, hx, hxi, hxo⟩ := h.done p hdone
    rw [hbase]
    exact .inr ⟨(h.sched.done p hdone).2, .inl ⟨p, hp, x, hx, hxi, hxo⟩⟩
  · exact .inr ⟨hhas, .inr ⟨hn, h.origin _ hhas⟩⟩

/-- What is asked of a run of the import that has come to state `s`. -/
structure Scheduled (env : Env) (pack : Pack) (repo : Repository) (workers : Nat)
    (events : List Event) (s : Import) : Prop where
  /-- No object is dispatched twice. -/
  once : s.dispatched.Nodup
  /-- The next object to be dispatched has not been, and its base has been ingested. -/
  afterBase : ∀ w s', s.step env pack (.dispatch w) = some s' → ∃ job,
    s'.workers[w]? = some (.seeking job) ∧ s'.dispatched = s.dispatched ++ [job.index] ∧
      job.index ∉ s.dispatched ∧ BaseIngested pack repo s job.index job.base
  /-- Nothing else dispatches an object. -/
  onlyDispatch : ∀ e s', s.step env pack e = some s' → s'.dispatched = s.dispatched ∨ ∃ w, e = .dispatch w
  finite : events.length ≤ 11 * pack.entries.length + 3 * workers + 6
  /-- Until it has returned, the import can go on without its caller. -/
  progress : (∀ r, s.main ≠ .returned r) → CanStep env pack s
  /-- Without an error every object has been ingested. -/
  complete : ∀ v, s.main = .returned (.ok v) → ∀ i < pack.entries.length,
    ∃ x ∈ s.ingested, x.index = i ∧ s.session.repo.Has x.oid
  /-- Without an error every base exists, and no object needs itself. -/
  resolvable : ∀ v, s.main = .returned (.ok v) → ∀ ids, s.Agrees ids →
    (∀ i p q, Base pack.entries repo.Has ids i p → Base pack.entries repo.Has ids i q → p = q) →
    Resolvable pack.entries repo.Has ids
  /-- The scheduler's own errors say that a base is missing or that there is a cycle. -/
  refuted : ∀ e, s.main = .returned (.error e) → (∀ e', e ≠ .reported e') →
    s.session.repo.poisoned = false → ∀ ids, s.Agrees ids →
    ¬ Resolvable pack.entries repo.Has ids
  /-- Where they are resolvable and nothing else fails, there is no error. -/
  finishes : (init repo workers).Flawless env pack events → ∀ ids, s.Agrees ids →
    Resolvable pack.entries repo.Has ids → ∀ r, s.main = .returned r → ∃ v, r = .ok v

/-- An import that gives up has met a pack that cannot be resolved. -/
lemma Inv.refuted (h : Inv pack first ws s) {e : Stop} (hret : s.main = .returned (.error e))
    (he : ∀ e', e ≠ .reported e') (hclean : s.session.repo.poisoned = false) (hids : s.Agrees ids) :
    ¬ Resolvable pack.entries first.Has ids := by
  cases e with
  | reported e' => exact absurd rfl (he e')
  | scannedCount => exact absurd (.inr hret) h.outcome.counted
  | missingOrCyclic => exact (h.outcome.stuck (.inr hret)).not_resolvable h.core hclean hids
  | missingOffsetBase =>
    intro hres
    obtain ⟨i, e, hget, htype, hno⟩ := h.outcome.missing (.inr hret)
    rcases hres.exist i (List.getElem?_eq_some_iff.mp hget).1 with
      ⟨e', he', hmem⟩ | ⟨q, hq | ⟨oid, ⟨e', he', htype', -⟩, -⟩⟩ | ⟨oid, ⟨e', he', htype', -⟩, -⟩
    · rw [← some.inj (hget.symm.trans he'), htype] at hmem
      simp at hmem
    · exact hno q hq
    all_goals
      rw [← some.inj (hget.symm.trans he'), htype] at htype'
      cases htype'
  | packObjectType =>
  intro hres
  obtain ⟨i, e, hget, htype⟩ := h.outcome.invalid (.inr hret)
  rcases hres.exist i (List.getElem?_eq_some_iff.mp hget).1 with
    ⟨e', he', hmem⟩ | ⟨q, ⟨-, e', -, he', -, htype', -⟩ | ⟨oid, ⟨e', he', htype', -⟩, -⟩⟩ |
    ⟨oid, ⟨e', he', htype', -⟩, -⟩
  · rw [← some.inj (hget.symm.trans he'), htype] at hmem
    simp at hmem
  all_goals
    rw [← some.inj (hget.symm.trans he'), htype] at htype'
    cases htype'

lemma dispatched_of_moves (hmove : Moves env pack s e s') : s'.dispatched = s.dispatched ∨ ∃ w, e = .dispatch w := by
  cases hmove with
  | dispatch hw hofr hrun => exact .inr ⟨_, rfl⟩
  | _ => exact .inl rfl

/-- The parallel import, over every interleaving of its goroutines. -/
theorem importParallel_scheduled (env : Env) (pack : Pack) (repo : Repository) (workers : Nat)
    (hworkers : 0 < workers) (events : List Event) (s : Import)
    (hrun : (init repo workers).run env pack events = some s) :
    Scheduled env pack repo workers events s := by
  have hinv := inv_run repo hworkers hrun
  constructor
  case once => exact nodup_dispatched hinv.core
  case afterBase =>
    intro w s' hstep
    cases moves_of_step hstep with
    | @dispatch _ i fromRoot hw hofr hmain =>
    have havail := available_of_offer hofr
    refine ⟨⟨i, (s.sched.nodes i).offset, (s.sched.nodes i).base⟩, ?_, rfl,
      (hinv.core.sched.take havail).2.1, hinv.core.baseIngested havail⟩
    exact List.getElem?_set_self (List.getElem?_eq_some_iff.mp hw).1
  case onlyDispatch => exact fun e s' hstep => dispatched_of_moves (moves_of_step hstep)
  case finite => exact length_le_weight repo hworkers hrun
  case progress => exact hinv.progress hworkers
  case complete =>
    intro v hret i hi
    obtain ⟨x, hx, hxi, -⟩ := hinv.core.done i (hinv.outcome.complete v (.inr hret) i hi)
    exact ⟨x, hx, hxi, (hinv.core.ingested x hx).2⟩
  case resolvable =>
    intro v hret ids hids hone
    have hall : ∀ i < pack.entries.length, Grounded pack.entries repo.Has ids i := by
      intro i hi
      have hdone := hinv.outcome.complete v (.inr hret) i hi
      have hrooted : Rooted pack repo s :=
        (run_keeps repo hworkers (fun _ _ i hi => by cases hi) (fun h hr => hr.step h.core) hrun).2
      exact hrooted ids hids i (hinv.core.sched.done i hdone).1
    refine ⟨fun i hi => (hall i hi).baseExists, fun i hcycle => ?_⟩
    obtain ⟨q, hq, -⟩ := TransGen.head'_iff.mp hcycle
    exact (hall i hq.lt_length).not_cycle hone hcycle
  case refuted => exact fun e hret he hclean ids hids => hinv.refuted hret he hclean hids
  case finishes =>
    intro hflawless ids hids hres r hret
    obtain ⟨hclean, hpois⟩ := clean_run hworkers (inv_init pack repo workers)
      (clean_init pack repo workers) hflawless hrun
    have hne : events ≠ [] := by
      rintro rfl
      obtain rfl := Option.some.inj hrun
      cases hret
    cases r with
    | ok v => exact ⟨v, rfl⟩
    | error e =>
      refine absurd hres (hinv.refuted hret (fun e' heq => ?_) (hpois hne) hids)
      exact hclean.ended e' (.inr (by rw [hret, heq]))

/-- A reference delta in front of the blob that is its base. -/
def samplePack : Pack where
  entries := [
    { type := .refDelta
      offset := 12
      length := 6
      reference := sampleEnv.sha1 (gitPreimage gitBlob [65])
      -- one byte of the base, then one literal byte
      data := [1, 2, 0x90, 1, 1, 66]
      length_reference := sampleEnv.length_sha1 _ },
    blobEntry 40]
  increasing := by decide
  checksum := []

def sampleRepository : Repository := ⟨∅, true, false, []⟩

/-- One worker; the blob goes first, then the delta that waits for it. -/
def sampleEvents : List Event :=
  [.start 0 true, .scan true, .scan true, .scan true, .scanSend, .scan true, .scanSend,
    .receiveScan, .receiveScan,
    .dispatch 0, .work 0 true, .work 0 true, .work 0 true, .send 0, .receiveResult,
    .dispatch 0, .work 0 true, .work 0 true, .work 0 true, .send 0, .receiveResult,
    .finish, .stop 0, .wait]

/-- The run of `sampleEvents` inserts both objects, the base first. -/
theorem importParallel_scheduled_sample :
    ∃ s, (init sampleRepository 1).run sampleEnv samplePack sampleEvents = some s ∧
      s.main = .returned (.ok ([], 2)) ∧ s.dispatched = [1, 0] ∧
      Scheduled sampleEnv samplePack sampleRepository 1 sampleEvents s := by
  obtain ⟨s, hs⟩ := Option.isSome_iff_exists.mp
    (show ((init sampleRepository 1).run sampleEnv samplePack sampleEvents).isSome = true by decide +kernel)
  have hdisp : ((init sampleRepository 1).run sampleEnv samplePack sampleEvents).map
      dispatched = some [1, 0] := by decide +kernel
  have hmain : (((init sampleRepository 1).run sampleEnv samplePack sampleEvents).map main).any
      (fun m => match m with | .returned (.ok v) => v == ([], 2) | _ => false) = true := by
    decide +kernel
  rw [hs] at hdisp hmain
  refine ⟨s, hs, ?_, Option.some.inj hdisp,
    importParallel_scheduled sampleEnv samplePack sampleRepository 1 (by decide) sampleEvents s hs⟩
  simp only [Option.map_some, Option.any_some] at hmain
  split at hmain
  next v heq => rw [heq, eq_of_beq hmain]
  · cases hmain

end Import

end Trex.GitStore
