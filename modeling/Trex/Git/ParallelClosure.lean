import Trex.Git.Closure
import Trex.Git.ParallelRun

/-!
# The edges checked by the parallel import

The workers store objects in any order, the main loop checks their edges later.  `Stored`: each object
is stored once, under the hash of its bytes; `Linked`: the edges of what is done resolve.
-/

namespace Trex.GitStore

open List Option

open Tally Session
open Trex.Repo (GitOID Env gitBlob)

namespace Import

variable {env : Env} {pack : Pack} {first : Repository} {workers : Nat} {s s' : Import}

variable {e : Event} {w baseSize : Nat} {job : DeltaJob} {h : PackEntry} {kind : UInt8}
  {oid : GitOID} {body : Bytes} {repo repo' : Repository} {ok : Bool} {worker : Worker}
  {r : DeltaResult} {events : List Event}

/-- A repository call of a step never takes the poison away. -/
lemma poisoned_of_moves (hinv : Inv pack first workers s) (hmove : Moves env pack s e s')
    (hp : s.session.repo.poisoned = true) : s'.session.repo.poisoned = true := by
  cases hmove with
  | seek ok hw hseek => exact (seek_spec hseek).2.1 hp
  | read ok hw hread => exact (read_spec hread).2.1 hp
  | storeFails ok hw hsto => exact ((ingestStore_spec _ _ _ s.session.repo).error hsto).2 hp
  | stored ok hw hsto hlinks =>
    rw [((ingestStore_spec _ _ _ s.session.repo).ok hsto).1] at hp
    cases hp
  | headersFail hscans hrun hs herr hadd | headers hscans hrun hs herr hadd
  | countFails hscans hrun hs herr hadd | scanEnds hscans hrun hs herr hadd =>
    exact (hinv.added hscans hrun hs hadd).poisoned hp
  | accountFails hres hrun herr hacc | accounted hres hrun herr hacc =>
    exact (accountLinks_counts (quiet_requireAll _) _ _ hacc).2.1 hp
  | _ => exact hp

/-! ## What is stored -/

/-- The worker is at job `i` and has not stored it. -/
def fetches (i : Nat) : Worker → Nat
  | .seeking job | .reading job _ _ _ | .storing job _ _ _ => if job.index = i then 1 else 0
  | _ => 0

/-- What was ingested is in the repository, and each job is ingested once. -/
structure Stored (env : Env) (first : Repository) (s : Import) : Prop where
  once : ∀ i, tally (fetches i) s.workers + (s.ingested.map Ingested.index).count i ≤ s.dispatched.count i
  storing : ∀ job kind oid body, .storing job kind oid body ∈ s.workers → oid = oidOf env kind body
  oid : ∀ x ∈ s.ingested, x.oid = oidOf env x.kind x.body
  kinds : ∀ oid o, s.session.repo.objects.find oid = some o →
    first.objects.find oid = some o ∨ ∃ x ∈ s.ingested, x.oid = oid ∧ x.kind = o.kind

lemma stored_init (env : Env) (repo : Repository) (workers : Nat) : Stored env repo (init repo workers) where
  once := by
    intro i
    show tally (fetches i) (replicate workers .starting) + 0 ≤ 0
    rw [tally_replicate]
    simp [fetches]
  storing := fun job kind oid body h => by cases eq_of_mem_replicate h
  oid := fun x h => by cases h
  kinds := fun oid o h => .inl h

lemma Stored.same (h : Stored env first s) (hobj : s'.session.repo.objects = s.session.repo.objects)
    (hworkers : s'.workers = s.workers) (hing : s'.ingested = s.ingested)
    (hdisp : s'.dispatched = s.dispatched) : Stored env first s' := by
  constructor
  case once => rw [hworkers, hing, hdisp]; exact h.once
  case storing => rw [hworkers]; exact h.storing
  case oid => rw [hing]; exact h.oid
  case kinds => rw [hobj, hing]; exact h.kinds

/-- A worker that stores nothing. -/
lemma Stored.works (h : Stored env first s) {old new : Worker} (hw : s.workers[w]? = some old)
    (hfetches : ∀ i, fetches i new ≤ fetches i old)
    (hnew : ∀ job kind oid body, new = .storing job kind oid body → oid = oidOf env kind body)
    (hobj : s'.session.repo.objects = s.session.repo.objects)
    (hworkers : s'.workers = s.workers.set w new) (hing : s'.ingested = s.ingested)
    (hdisp : s'.dispatched = s.dispatched) : Stored env first s' := by
  constructor
  case once =>
    intro i
    have := tally_set (fetches i) s.workers w old new hw
    have := hfetches i
    have := h.once i
    rw [hworkers, hing, hdisp]
    omega
  case storing =>
    rw [hworkers]
    intro job kind oid body hmem
    rcases mem_or_eq_of_mem_set hmem with hold | heq
    · exact h.storing job kind oid body hold
    · exact hnew job kind oid body heq.symm
  case oid => rw [hing]; exact h.oid
  case kinds => rw [hobj, hing]; exact h.kinds

lemma readObject_oid (hread : readObject env job h kind baseSize repo = (.ok (oid, body), repo')) :
    oid = oidOf env kind body := by
  obtain ⟨_, r1, -, h1⟩ := Op.bind_ok hread
  split at h1
  · obtain ⟨_, r2, -, h2⟩ := Op.bind_ok h1
    exact ingestRead_oid h2
  · exact ingestRead_oid h1

lemma fetches_seek (h : Import.seek pack job ok repo = (worker, repo')) :
    (∀ i, fetches i worker ≤ fetches i (.seeking job)) ∧ ∀ job kind oid body, worker ≠ .storing job kind oid body := by
  have hfail : ∀ e, (∀ i, fetches i (fail job e) ≤ fetches i (.seeking job)) ∧
      ∀ job' kind oid body, fail job e ≠ .storing job' kind oid body :=
    fun _ => ⟨fun i => Nat.zero_le _, by simp [fail]⟩
  unfold Import.seek at h
  split at h
  · obtain ⟨rfl, -⟩ := Prod.mk.inj h
    exact hfail _
  split at h
  · obtain ⟨rfl, -⟩ := Prod.mk.inj h
    exact hfail _
  split at h
  · split at h <;> obtain ⟨rfl, -⟩ := Prod.mk.inj h
    · exact ⟨fun i => le_rfl, by simp⟩
    · exact hfail _
    · exact hfail _
  · obtain ⟨rfl, -⟩ := Prod.mk.inj h
    exact ⟨fun i => le_rfl, by simp⟩

lemma fetches_read (hread : Import.read env job h kind baseSize ok repo = (worker, repo')) :
    (∀ i, fetches i worker ≤ fetches i (.reading job h kind baseSize)) ∧
      ∀ job kind oid body, worker = .storing job kind oid body → oid = oidOf env kind body := by
  unfold Import.read at hread
  split at hread
  · split at hread
    next oid body r1 hobj =>
      obtain ⟨rfl, -⟩ := Prod.mk.inj hread
      refine ⟨fun i => le_rfl, fun job kind oid body heq => ?_⟩
      cases heq
      exact readObject_oid hobj
    next =>
      obtain ⟨rfl, -⟩ := Prod.mk.inj hread
      exact ⟨fun i => Nat.zero_le _, by simp [fail]⟩
  · obtain ⟨rfl, -⟩ := Prod.mk.inj hread
    exact ⟨fun i => Nat.zero_le _, by simp [fail]⟩

lemma Stored.stored (h : Stored env first s) (hw : s.workers[w]? = some (.storing job kind oid body))
    (hsto : ingestStore oid kind body s.session.repo = (.ok (), repo)) :
    Stored env first { (s.setWorker w (.sending r)).setRepo repo with
      ingested := s.ingested ++ [⟨job.index, oid, kind, body⟩] } := by
  have hoid := h.storing job kind oid body (mem_of_getElem? hw)
  obtain ⟨-, hobj⟩ := (ingestStore_spec oid kind body s.session.repo).ok hsto
  constructor
  case once =>
    intro i
    have hset := tally_set (fetches i) s.workers w _ (.sending r) hw
    have hone := h.once i
    show tally (fetches i) (s.workers.set w (.sending r)) +
      ((s.ingested ++ [(⟨job.index, oid, kind, body⟩ : Ingested)]).map Ingested.index).count i ≤ _
    have hcount : count i [job.index] = fetches i (.storing job kind oid body) := by
      rw [count_singleton]
      simp [fetches]
    have hzero : fetches i (.sending r) = 0 := rfl
    rw [map_append, count_append]
    show _ + (_ + count i [job.index]) ≤ s.dispatched.count i
    omega
  case storing =>
    intro job kind oid body hmem
    rcases mem_or_eq_of_mem_set hmem with hold | heq
    · exact h.storing job kind oid body hold
    · cases heq
  case oid =>
    intro x hx
    rcases mem_append.mp hx with hold | hnew
    · exact h.oid x hold
    · obtain rfl := mem_singleton.mp hnew
      exact hoid
  case kinds =>
    intro id o ho
    change repo.objects.find id = some o at ho
    have hkept : s.session.repo.objects.find id = some o → first.objects.find id = some o ∨
        ∃ x ∈ s.ingested ++ [⟨job.index, oid, kind, body⟩], x.oid = id ∧ x.kind = o.kind := by
      intro hold
      rcases h.kinds id o hold with hf | ⟨x, hx, hxo⟩
      · exact .inl hf
      · exact .inr ⟨x, mem_append_left _ hx, hxo⟩
    rcases hobj with ⟨hsame, -⟩ | ⟨-, hins⟩
    · rw [hsame] at ho
      exact hkept ho
    rw [hins, SortedMap.find_insert] at ho
    split at ho
    next heq =>
      obtain rfl := some.inj ho
      exact .inr ⟨_, mem_append_right _ mem_cons_self, heq.symm, rfl⟩
    · exact hkept ho

/-- Every step keeps what is stored in order. -/
lemma Stored.step (h : Stored env first s) (hinv : Inv pack first workers s)
    (hmove : Moves env pack s e s') : Stored env first s' := by
  cases hmove with
  | start ok hw =>
    refine h.works hw (fun i => ?_) (fun _ _ _ _ heq => ?_) rfl rfl rfl rfl
    · cases ok <;> exact le_rfl
    · cases ok <;> cases heq
  | seek ok hw hseek =>
    exact h.works hw (fetches_seek hseek).1
      (fun job kind oid body heq => absurd heq ((fetches_seek hseek).2 job kind oid body))
      (seek_spec hseek).1 rfl rfl rfl
  | read ok hw hread => exact h.works hw (fetches_read hread).1 (fetches_read hread).2 (read_spec hread).1 rfl rfl rfl
  | storeFails ok hw hsto =>
    exact h.works hw (fun i => Nat.zero_le _) (by simp [fail])
      ((ingestStore_spec _ _ _ s.session.repo).error hsto).1 rfl rfl rfl
  | stored ok hw hsto hlinks => exact h.stored hw hsto
  | @send w r hw hroom =>
    refine h.works hw (fun i => ?_) (fun _ _ _ _ heq => ?_) rfl rfl rfl rfl
    · split <;> exact le_rfl
    · split at heq <;> cases heq
  | stop hw hworkers hc => exact h.works hw (fun i => Nat.zero_le _) (fun _ _ _ _ heq => by cases heq) rfl rfl rfl rfl
  | headersFail hscans hrun hs herr hadd | headers hscans hrun hs herr hadd
  | countFails hscans hrun hs herr hadd | scanEnds hscans hrun hs herr hadd =>
    exact h.same (hinv.added hscans hrun hs hadd).objects rfl rfl rfl
  | @dispatch w i fromRoot hw hofr hrun =>
    refine ⟨fun j => ?_, fun job kind oid body hmem => ?_, h.oid, h.kinds⟩
    · have hset := tally_set (fetches j) s.workers w _
        (.seeking ⟨i, (s.sched.nodes i).offset, (s.sched.nodes i).base⟩) hw
      have hone := h.once j
      have hcount : count j [i] = fetches j (.seeking ⟨i, (s.sched.nodes i).offset, (s.sched.nodes i).base⟩) := by
        rw [count_singleton]
        simp [fetches]
      show tally (fetches j) (s.workers.set w _) + _ ≤ (s.dispatched ++ [i]).count j
      rw [count_append]
      show _ + (s.ingested.map Ingested.index).count j ≤ _
      omega
    · rcases mem_or_eq_of_mem_set hmem with hold | heq
      · exact h.storing job kind oid body hold
      · cases heq
  | accountFails hres hrun herr hacc | accounted hres hrun herr hacc =>
    exact h.same (accountLinks_counts (quiet_requireAll _) _ _ hacc).1 rfl rfl rfl
  | _ => exact h.same rfl rfl rfl rfl

/-- No object is ingested twice. -/
lemma Stored.unique (h : Stored env first s) (hcore : Core pack first s) {x y : Ingested}
    (hx : x ∈ s.ingested) (hy : y ∈ s.ingested) (hxy : x.index = y.index) : x = y := by
  have hcount : ∀ i, (s.ingested.map Ingested.index).count i ≤ 1 := by
    intro i
    have := h.once i
    have := nodup_iff_count_le_one.mp (nodup_dispatched hcore) i
    omega
  exact inj_on_of_nodup_map (nodup_iff_count_le_one.mpr hcount) hx hy hxy

/-- A job that is being fetched is not done. -/
lemma Stored.fetched_undone (h : Stored env first s) (hcore : Core pack first s) {i : Nat}
    (hw : s.workers[w]? = some worker) (hi : fetches i worker = 1) : (s.sched.nodes i).done = false := by
  cases hdone : (s.sched.nodes i).done with
  | false => rfl
  | true =>
  obtain ⟨x, hx, rfl, -⟩ := hcore.done i hdone
  have hle := le_tally (fetches x.index) s.workers _ (mem_of_getElem? hw)
  have hone := h.once x.index
  have hpos : 0 < (s.ingested.map Ingested.index).count x.index := count_pos_iff.mpr (mem_map.mpr ⟨x, hx, rfl⟩)
  have := nodup_iff_count_le_one.mp (nodup_dispatched hcore) x.index
  omega

/-! ## What is checked -/

/-- Two ingested objects with one identity have one kind. -/
def Distinct (s : Import) : Prop :=
  ∀ x ∈ s.ingested, ∀ y ∈ s.ingested, x.oid = y.oid → x.kind = y.kind

/-- The edges of the objects that are done resolve. -/
structure Linked (first : Repository) (s : Import) : Prop where
  hints : s.session.HintsResolve
  fresh : ∀ id kind, s.session.storer.required.find id = some kind → first.objects.find id = none
  edges : ∀ x ∈ s.ingested, (s.sched.nodes x.index).done = true →
    (gitLinks x.kind x.body 20).2 = none ∧ ∀ edge ∈ (gitLinks x.kind x.body 20).1, s.session.Resolves edge.1 edge.2

lemma linked_init (repo : Repository) (workers : Nat) : Linked repo (init repo workers) where
  hints := fun slot hint h => by simp [init] at h
  fresh := fun id kind h => by simp [init] at h
  edges := fun x h => by cases h

/-- Steps that change neither the storer nor what is done, and only add to the repository. -/
lemma Linked.same (h : Linked first s) (hrepo : ∀ oid o, s.session.repo.objects.find oid = some o →
      s'.session.repo.objects.find oid = some o) (hstorer : s'.session.storer = s.session.storer)
    (hing : ∀ x ∈ s'.ingested, x ∈ s.ingested ∨ (s'.sched.nodes x.index).done = false)
    (hdone : ∀ i, (s'.sched.nodes i).done = (s.sched.nodes i).done) : Linked first s' := by
  have hres : ∀ {id kind}, s.session.Resolves id kind → s'.session.Resolves id kind := by
    intro id kind hr
    rcases hr with ⟨o, ho, hk⟩ | hreq
    · exact .inl ⟨o, hrepo id o ho, hk⟩
    · exact .inr (by rw [hstorer]; exact hreq)
  constructor
  case hints =>
    unfold HintsResolve
    rw [hstorer]
    exact fun slot hint hslot hne => hres (h.hints slot hint hslot hne)
  case fresh => rw [hstorer]; exact h.fresh
  case edges =>
    intro x hx hd
    rcases hing x hx with hold | hno
    · rw [hdone] at hd
      obtain ⟨hnone, hall⟩ := h.edges x hold hd
      exact ⟨hnone, fun edge hedge => hres (hall edge hedge)⟩
    · rw [hno] at hd
      cases hd

lemma Linked.quiet (h : Linked first s) (hobj : s'.session.repo.objects = s.session.repo.objects)
    (hstorer : s'.session.storer = s.session.storer) (hing : s'.ingested = s.ingested)
    (hdone : ∀ i, (s'.sched.nodes i).done = (s.sched.nodes i).done) : Linked first s' :=
  h.same (fun oid o ho => by rw [hobj]; exact ho) hstorer
    (fun x hx => .inl (by rw [← hing]; exact hx)) hdone

/-- Accounting for a result resolves its links. -/
lemma Linked.accounted (h : Linked first s) (hinv : Inv pack first workers s)
    (hstored : Stored env first s) (hdist : s.Distinct) {results : List DeltaResult}
    {session : Session} (hres : s.results = r :: results) (herr : r.err = none)
    (hacc : accountLinks r.oid r.kind (requireAll r.edges) s.session = (.ok (), session))
    (hclean : session.repo.poisoned = false) :
    Linked first { s with results, session, sched := s.sched.release (r.index.getD 0) r.oid } := by
  obtain ⟨i, hi, hmem, hlinks⟩ := hinv.core.results r (by rw [hres]; exact mem_cons_self) herr
  have hblob : r.kind = gitBlob → r.edges = [] := by
    intro hk
    rw [hk, gitLinks_blob] at hlinks
    exact (Prod.mk.inj hlinks).1.symm
  -- the object that is waited for is this one, unless two objects share an identity
  obtain ⟨o, ho⟩ := isSome_iff_exists.mp (hinv.core.ingested _ hmem).2
  have hkind : s.session.storer.required.find r.oid = some r.kind → o.kind = r.kind := by
    intro hreq
    rcases hstored.kinds r.oid o ho with hfirst | ⟨y, hy, hyo, hyk⟩
    · rw [h.fresh _ _ hreq] at hfirst
      cases hfirst
    · rw [← hyk]
      exact hdist y hy _ hmem hyo
  obtain ⟨hobj, htakes⟩ := accountLinks_closes (fun t t' ht => requireAll_advances ht) hblob hacc
    hclean h.hints ⟨o, ho, hkind⟩
  rw [hi, getD_some]
  refine ⟨htakes.hints, fun id kind hreq => ?_, fun x hx hd => ?_⟩
  · rcases (htakes.required id kind hreq).2 with hold | hnone
    · exact h.fresh id kind hold
    · cases hf : first.objects.find id with
      | none => rfl
      | some o =>
        rw [hinv.core.grows.1 id o hf] at hnone
        cases hnone
  change ((s.sched.release i r.oid).nodes x.index).done = true at hd
  rw [Sched.release_done] at hd
  split at hd
  next heq =>
    obtain rfl := hstored.unique hinv.core hx hmem heq
    show (gitLinks r.kind r.body 20).2 = none ∧ ∀ edge ∈ (gitLinks r.kind r.body 20).1, _
    rw [hlinks]
    exact ⟨rfl, htakes.edges⟩
  · obtain ⟨hnone, hall⟩ := h.edges x hx hd
    exact ⟨hnone, fun edge hedge => htakes.kept _ _ (hall edge hedge)⟩

/-- Every step keeps the links resolved. -/
lemma Linked.step (h : Linked first s) (hinv : Inv pack first workers s)
    (hstored : Stored env first s) (hdist : s.Distinct) (hmove : Moves env pack s e s')
    (hclean : s'.session.repo.poisoned = false) (hend : ∀ e, ¬ s'.Ended (.error e)) : Linked first s' := by
  have hheaders : ∀ {batch : ScanBatch} {scans : List ScanBatch} {sched : Sched}
      {repo : Repository}, s.scans = batch :: scans → s.main = .running →
      s.sched.scanDone = false →
      addHeaders batch.headers s.sched s.session.repo = (.ok sched, repo) →
      repo.objects = s.session.repo.objects ∧ ∀ i, (sched.nodes i).done = (s.sched.nodes i).done := by
    intro batch scans sched repo hscans hrun hs hadd
    have hadded := hinv.added hscans hrun hs hadd
    exact ⟨hadded.objects, (hadded.ok sched rfl).2.1.done⟩
  cases hmove with
  | seek ok hw hseek => exact h.quiet (seek_spec hseek).1 rfl rfl fun _ => rfl
  | read ok hw hread => exact h.quiet (read_spec hread).1 rfl rfl fun _ => rfl
  | storeFails ok hw hsto =>
    exact h.quiet ((ingestStore_spec _ _ _ s.session.repo).error hsto).1 rfl rfl fun _ => rfl
  | @stored w job kind oid body edges err repo ok hw hsto hlinks =>
    obtain ⟨-, hobj⟩ := (ingestStore_spec oid kind body s.session.repo).ok hsto
    refine h.same (fun id o ho => ?_) rfl (fun x hx => ?_) fun _ => rfl
    · show repo.objects.find id = some o
      rcases hobj with ⟨hsame, -⟩ | ⟨hnone, hins⟩
      · rw [hsame]
        exact ho
      · rw [hins, SortedMap.find_insert, if_neg, ho]
        rintro rfl
        rw [hnone] at ho
        cases ho
    · rcases mem_append.mp hx with hold | hnew
      · exact .inl hold
      · obtain rfl := mem_singleton.mp hnew
        exact .inr (hstored.fetched_undone hinv.core hw (by simp [fetches]))
  | headersFail | countFails | accountFails => exact absurd (.inl rfl) (hend _)
  | headers hscans hrun hs herr hadd | scanEnds hscans hrun hs herr hadd =>
    obtain ⟨hobj, hsame⟩ := hheaders hscans hrun hs hadd
    exact h.quiet hobj rfl rfl hsame
  | @dispatch w i fromRoot hw hofr hrun =>
    refine h.quiet rfl rfl rfl fun j => ?_
    show ((s.sched.take fromRoot).nodes j).done = _
    unfold Sched.take
    split <;> rfl
  | accounted hres hrun herr hacc => exact h.accounted hinv hstored hdist hres herr hacc hclean
  | _ => exact h.quiet rfl rfl rfl fun _ => rfl

/-! ## Runs -/

lemma ingested_of_moves (hmove : Moves env pack s e s') : ∀ x ∈ s.ingested, x ∈ s'.ingested := by
  cases hmove with
  | stored ok hw hsto hlinks => exact fun x hx => mem_append_left _ hx
  | _ => exact fun _ => id

lemma ended_of_moves (hmove : Moves env pack s e s') {r : Except Stop (Bytes × Nat)}
    (h : s.Ended r) : s'.Ended r := by
  have hnot : s.main ≠ .running := by
    intro hrun
    rcases h with h | h <;> rw [hrun] at h <;> cases h
  cases hmove with
  | finish hrun | leaveCancelled hrun | giveUp hrun | scanFails _ hrun | headersFail _ hrun
  | headers _ hrun | countFails _ hrun | scanEnds _ hrun | dispatch _ _ hrun | resultFails _ hrun
  | accountFails _ hrun | accounted _ hrun => exact absurd hrun hnot
  | wait hmain hs hall =>
    rcases h with h | h
    · rw [hmain] at h
      cases h
      exact .inr rfl
    · rw [hmain] at h
      cases h
  | _ => exact h

/-- What a run has to avoid for its edges to be checked: a failing repository, objects of
one identity, and an error. -/
structure Sound (s : Import) : Prop where
  clean : s.session.repo.poisoned = false
  distinct : s.Distinct
  noError : ∀ e, ¬ s.Ended (.error e)

/-- A run that ends sound was sound before. -/
lemma Sound.of_moves (h : Sound s') (hinv : Inv pack first workers s) (hmove : Moves env pack s e s') : Sound s where
  clean := clean_of_clean (poisoned_of_moves hinv hmove) h.clean
  distinct := fun x hx y hy => h.distinct x (ingested_of_moves hmove x hx) y (ingested_of_moves hmove y hy)
  noError := fun e he => h.noError e (ended_of_moves hmove he)

/-- A sound run leaves the links resolved. -/
lemma linked_run (repo : Repository) (hworkers : 0 < workers)
    (hrun : (init repo workers).run env pack events = some s) (hsound : Sound s) : Linked repo s := by
  have hkept := run_keeps (P := fun s => Stored env repo s ∧ (Sound s → Linked repo s)) repo hworkers
    ⟨stored_init env repo workers, fun _ => linked_init repo workers⟩ (fun hinv h hmove => by
      refine ⟨h.1.step hinv hmove, fun h1 => ?_⟩
      have h0 := h1.of_moves hinv hmove
      exact (h.2 h0).step hinv h.1 h0.distinct hmove h1.clean h1.noError) hrun
  exact hkept.2.2 hsound

end Import

end Trex.GitStore
