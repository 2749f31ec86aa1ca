import Trex.Git.ParallelStep
import Trex.Git.Schedule
import Trex.Lib.Tally

/-!
# Invariants of the parallel import

What the calls of the repository and the steps of a job leave alone; the invariants of the
workers are stated over it in `ParallelInv`.
-/

namespace Trex.GitStore

open Tally Op
open Trex.Repo (GitOID Env Extent gitValid zeroOID)

/-! ## What the calls of the repository keep -/

/-- The repository has the object. -/
def Repository.Has (r : Repository) (oid : GitOID) : Prop := (r.objects.find oid).isSome = true

lemma Repository.has_congr {r r' : Repository} (h : r.objects = r'.objects) : r.Has = r'.Has := by
  funext oid
  unfold Repository.Has
  rw [h]

/-- A repository that is not poisoned was not poisoned before. -/
lemma clean_of_clean {repo repo' : Repository} (h : repo.poisoned = true → repo'.poisoned = true)
    (hclean : repo'.poisoned = false) : repo.poisoned = false := by
  cases hp : repo.poisoned with
  | false => rfl
  | true =>
    rw [h hp] at hclean
    cases hclean

/-- A call that stores nothing: the objects stay, and so does the poison. -/
def Keeps {α : Type} (m : RepoM α) : Prop :=
  ∀ r, (m r).2.objects = r.objects ∧ (r.poisoned = true → (m r).2.poisoned = true)

section

variable {α β : Type}

lemma keeps_pure (a : α) : Keeps (pure a) := fun _ => ⟨rfl, id⟩

lemma keeps_throw (e : Err) : Keeps (throw e : RepoM α) := fun _ => ⟨rfl, id⟩

lemma keeps_gets (f : Repository → α) : Keeps (gets f) := fun _ => ⟨rfl, id⟩

lemma keeps_ofExcept (x : Except Err α) : Keeps (ofExcept x) := fun _ => ⟨rfl, id⟩

lemma keeps_failIf (c : Prop) [Decidable c] (e : Err) : Keeps (failIf c e) := by
  intro r
  rw [failIf_apply]
  split <;> exact ⟨rfl, id⟩

lemma keeps_fault : Keeps fault := fun _ => ⟨rfl, id⟩

/-- Computations that keep the objects can be put in a row. -/
lemma keeps_bind {m : RepoM α} {f : α → RepoM β} (hm : Keeps m) (hf : ∀ a, Keeps (f a)) : Keeps (m >>= f) := by
  intro r
  have hr := hm r
  rw [bind_apply]
  cases hres : m r with
  | mk res r' =>
  rw [hres] at hr
  cases res with
  | error e => exact hr
  | ok a => exact ⟨(hf a r').1.trans hr.1, fun hp => (hf a r').2 (hr.2 hp)⟩

lemma keeps_call (e : Err) : Keeps (call e) :=
  keeps_bind keeps_fault fun _ => keeps_failIf _ _

lemma keeps_ready : Keeps ready := keeps_bind (keeps_gets _) fun _ => keeps_failIf _ _

lemma keeps_lookupGit (oid : GitOID) : Keeps (lookupGit oid) := by
  refine keeps_bind keeps_fault fun b => ?_
  cases b with
  | true => exact fun _ => ⟨rfl, fun _ => rfl⟩
  | false => exact keeps_gets _

lemma keeps_gitObjectHeader (oid : GitOID) : Keeps (gitObjectHeader oid) :=
  keeps_bind (keeps_lookupGit oid) fun _ => keeps_pure _

lemma keeps_gitBytes (kind : UInt8) (full : Bytes) (base : GitOID) (exts : List Extent)
    (size : Nat) : Keeps (gitBytes kind full base exts size) := by
  unfold gitBytes
  split
  · refine keeps_bind (keeps_lookupGit base) fun found => ?_
    cases found with
    | none => exact keeps_throw _
    | some v =>
    refine keeps_bind (keeps_failIf _ _) fun _ => keeps_bind (keeps_call _) fun _ => ?_
    cases Repo.applyExtents v.body exts size with
    | ok body => exact keeps_pure _
    | error e => exact keeps_throw _
  · exact keeps_bind (keeps_failIf _ _) fun _ => keeps_pure _

lemma keeps_ingestRead (env : Env) (kind : UInt8) (full : Bytes) (base : GitOID)
    (exts : List Extent) (size : Nat) : Keeps (ingestRead env kind full base exts size) :=
  keeps_bind (keeps_call _) fun _ => keeps_bind (keeps_gets _) fun _ =>
    keeps_bind (keeps_failIf _ _) fun _ => keeps_bind keeps_ready fun _ =>
      keeps_bind (keeps_gitBytes kind full base exts size) fun _ => keeps_pure _

end

/-- A lookup finds what is there, or it fails and poisons the repository. -/
lemma lookupGit_spec (oid : GitOID) (r : Repository) : ∃ found r', lookupGit oid r = (.ok found, r') ∧
      (found = r.objects.find oid ∨ found = none ∧ r'.poisoned = true) := by
  unfold lookupGit
  rw [bind_apply]
  simp only [fault]
  cases r.faults.headD false with
  | true => exact ⟨none, _, rfl, .inr ⟨rfl, rfl⟩⟩
  | false => exact ⟨_, _, rfl, .inl rfl⟩

/-- A header is found exactly if the object is there, unless the lookup poisons. -/
lemma gitObjectHeader_spec (oid : GitOID) (r : Repository) : ∃ found r', gitObjectHeader oid r = (.ok found, r') ∧
      (found = (r.objects.find oid).map (fun o => (o.kind, o.body.length)) ∨ found = none ∧ r'.poisoned = true) := by
  obtain ⟨found, r', hrun, hfound⟩ := lookupGit_spec oid r
  refine ⟨found.map fun o => (o.kind, o.body.length), r', ?_, ?_⟩
  · unfold gitObjectHeader
    rw [run_bind hrun]
    rfl
  · rcases hfound with rfl | ⟨rfl, hp⟩
    · exact .inl rfl
    · exact .inr ⟨rfl, hp⟩

variable {r r' : Repository} {links : ImportM Unit}

lemma ready_ok {u : Unit} (h : ready r = (.ok u, r')) : r.poisoned = false ∧ r' = r := by
  unfold ready at h
  rw [run_bind (gets_apply _ _)] at h
  obtain ⟨hp, rfl⟩ := failIf_ok h
  exact ⟨by simpa using hp, rfl⟩

/-- Storing adds one object or finds it there. -/
lemma ingestStore_spec (oid : GitOID) (kind : UInt8) (body : Bytes) (r : Repository) :
    (ingestStore oid kind body).Ends r (fun _ r' => r.poisoned = false ∧ (r'.objects = r.objects ∧ r.Has oid ∨
        r.objects.find oid = none ∧ r'.objects = r.objects.insert oid ⟨kind, body, true⟩))
      fun _ r' => r'.objects = r.objects ∧ (r.poisoned = true → r'.poisoned = true) := by
  unfold ingestStore
  rw [ends_bind]
  have hcall := keeps_call .canceled r
  refine ends_iff.mpr ⟨fun _ r1 hr1 => ?_, fun e r1 hr1 => ?_⟩
  swap
  · rw [hr1] at hcall
    exact hcall
  rw [hr1] at hcall
  rw [ends_bind]
  have hrdy := keeps_ready r1
  refine ends_iff.mpr ⟨fun _ r2 hr2 => ?_, fun e r2 hr2 => ?_⟩
  swap
  · rw [hr2] at hrdy
    exact ⟨hrdy.1.trans hcall.1, fun hp => hrdy.2 (hcall.2 hp)⟩
  obtain ⟨hclean, rfl⟩ := ready_ok hr2
  have hr : r.poisoned = false := clean_of_clean hcall.2 hclean
  obtain ⟨found, r3, hlook, hfound⟩ := lookupGit_spec oid r2
  have hkeep := keeps_lookupGit oid r2
  rw [hlook] at hkeep
  have hobjs : r3.objects = r.objects := hkeep.1.trans hcall.1
  rw [ends_bind]
  unfold Op.Ends
  rw [hlook]
  cases found with
  | some v =>
    rcases hfound with hfound | ⟨hnone, -⟩
    · refine ⟨hr, .inl ⟨hobjs, ?_⟩⟩
      unfold Repository.Has
      rw [← hcall.1, ← hfound]
      rfl
    · cases hnone
  | none =>
  change (ready >>= _ : RepoM Unit).Ends r3 _ _
  rw [ends_bind]
  have hrdy3 := keeps_ready r3
  refine ends_iff.mpr ⟨fun _ r4 hr4 => ?_, fun e r4 hr4 => ?_⟩
  swap
  · rw [hr4] at hrdy3
    exact ⟨hrdy3.1.trans hobjs, fun hp => by rw [hr] at hp; cases hp⟩
  obtain ⟨hclean4, rfl⟩ := ready_ok hr4
  rw [ends_bind]
  have hcall4 := keeps_call .failed r4
  refine ends_iff.mpr ⟨fun _ r5 hr5 => ?_, fun e r5 hr5 => ?_⟩
  swap
  · rw [hr5] at hcall4
    exact ⟨hcall4.1.trans hobjs, fun hp => by rw [hr] at hp; cases hp⟩
  rw [hr5] at hcall4
  rw [ends_modify]
  refine ⟨hr, .inr ⟨?_, ?_⟩⟩
  · rcases hfound with hfound | ⟨-, hp⟩
    · rw [← hcall.1, ← hfound]
    · rw [hp] at hclean4; cases hclean4
  · show r5.objects.insert oid _ = _
    rw [hcall4.1, hobjs]

/-- Objects stay, and so does the poison. -/
def Repository.Grows (r r' : Repository) : Prop :=
  (∀ oid o, r.objects.find oid = some o → r'.objects.find oid = some o) ∧ (r.poisoned = true → r'.poisoned = true)

lemma Repository.Grows.refl (r : Repository) : r.Grows r := ⟨fun _ _ => id, id⟩

lemma Repository.Grows.has (h : r.Grows r') {oid : GitOID} (hhas : r.Has oid) : r'.Has oid := by
  obtain ⟨o, ho⟩ := Option.isSome_iff_exists.mp hhas
  unfold Repository.Has
  rw [h.1 oid o ho]
  rfl

/-! ## What the storer keeps -/

/-- A computation of the storer that stores and counts nothing. -/
def Quiet {α : Type} (m : ImportM α) : Prop :=
  ∀ s, (m s).2.repo.objects = s.repo.objects ∧
    (s.repo.poisoned = true → (m s).2.repo.poisoned = true) ∧
    (m s).2.storer.inserted = s.storer.inserted

section

variable {α β : Type}

lemma quiet_pure (a : α) : Quiet (pure a) := fun _ => ⟨rfl, id, rfl⟩

lemma quiet_gets (f : Session → α) : Quiet (gets f) := fun _ => ⟨rfl, id, rfl⟩

lemma quiet_failIf (c : Prop) [Decidable c] (e : Err) : Quiet (failIf c e) := by
  intro s
  rw [failIf_apply]
  split <;> exact ⟨rfl, id, rfl⟩

lemma quiet_onRepo {m : RepoM α} (h : Keeps m) : Quiet (onRepo m) :=
  fun s => ⟨(h s.repo).1, (h s.repo).2, rfl⟩

lemma quiet_modifyStorer {f : NativeStorer → NativeStorer}
    (h : ∀ n, (f n).inserted = n.inserted) : Quiet (modifyStorer f) :=
  fun s => ⟨rfl, id, h s.storer⟩

lemma quiet_bind {m : ImportM α} {f : α → ImportM β} (hm : Quiet m) (hf : ∀ a, Quiet (f a)) : Quiet (m >>= f) := by
  intro s
  have hs := hm s
  rw [bind_apply]
  cases hres : m s with
  | mk res s' =>
  rw [hres] at hs
  cases res with
  | error e => exact hs
  | ok a =>
    obtain ⟨hobj, hp, hins⟩ := hf a s'
    exact ⟨hobj.trans hs.1, fun h => hp (hs.2.1 h), hins.trans hs.2.2⟩

lemma quiet_requireSlow (id : GitOID) (kind : UInt8) : Quiet (requireSlow id kind) := by
  refine quiet_bind (quiet_onRepo (keeps_gitObjectHeader id)) fun found => ?_
  cases found with
  | some p => exact quiet_failIf _ _
  | none =>
    exact quiet_bind (quiet_gets _) fun _ => quiet_bind (quiet_failIf _ _) fun _ => quiet_modifyStorer fun _ => rfl

lemma quiet_require (id : GitOID) (kind : UInt8) : Quiet (require id kind) := by
  refine quiet_bind (quiet_gets _) fun hint => ?_
  split
  · exact quiet_failIf _ _
  · exact quiet_bind (quiet_requireSlow id kind) fun _ => quiet_modifyStorer fun _ => rfl

lemma quiet_requireAll (edges : List (GitOID × UInt8)) : Quiet (requireAll edges) := by
  induction edges with
  | nil => exact quiet_pure ()
  | cons edge edges ih => exact quiet_bind (quiet_require edge.1 edge.2) fun _ => ih

end

lemma quiet_checkLinks (hlinks : Quiet links) (oid : GitOID) (kind : UInt8) : Quiet (checkLinks oid kind links) := by
  refine quiet_bind (quiet_gets _) fun want => quiet_bind (quiet_failIf _ _) fun _ => ?_
  unfold when
  split
  · exact hlinks
  · exact quiet_pure ()

/-- Accounting counts one object and changes none. -/
lemma accountLinks_counts (hlinks : Quiet links) (oid : GitOID) (kind : UInt8) {s s' : Session}
    {r : Except Err Unit} (h : accountLinks oid kind links s = (r, s')) :
    s'.repo.objects = s.repo.objects ∧ (s.repo.poisoned = true → s'.repo.poisoned = true) ∧
      (r = .ok () → s'.storer.inserted = s.storer.inserted + 1) := by
  have hs := quiet_checkLinks hlinks oid kind s
  unfold accountLinks at h
  rw [bind_apply] at h
  cases hres : checkLinks oid kind links s with
  | mk res t =>
  rw [hres] at hs h
  cases res with
  | error e =>
    obtain ⟨rfl, rfl⟩ := Prod.mk.inj h
    exact ⟨hs.1, hs.2.1, fun h => by cases h⟩
  | ok u =>
  have hcheck := quiet_onRepo (keeps_call .storageLimit)
    { t with storer := { t.storer with
      required := t.storer.required.erase oid
      inserted := t.storer.inserted + 1 } }
  have hrun : onRepo (call .storageLimit) { t with storer := { t.storer with
      required := t.storer.required.erase oid
      inserted := t.storer.inserted + 1 } } = (r, s') := h
  rw [hrun] at hcheck
  exact ⟨hcheck.1.trans hs.1, fun hp => hcheck.2.1 (hs.2.1 hp), fun _ => hcheck.2.2.trans (congrArg (· + 1) hs.2.2)⟩

/-! ## A batch of headers -/

lemma present_spec (h : PackEntry) {res : Except Err Bool} (hrun : Import.present h r = (res, r')) :
    r'.objects = r.objects ∧ (r.poisoned = true → r'.poisoned = true) ∧
      ∃ found, res = .ok found ∧ (h.type = .refDelta → (found = true → r.Has (gitOID h.reference)) ∧
        (found = false → r'.poisoned = false → ¬ r.Has (gitOID h.reference))) := by
  unfold Import.present at hrun
  split at hrun
  next htype =>
    obtain ⟨found, r1, hhead, hfound⟩ := gitObjectHeader_spec (gitOID h.reference) r
    have hkeep := keeps_gitObjectHeader (gitOID h.reference) r
    rw [hhead] at hkeep
    rw [run_bind hhead] at hrun
    obtain ⟨rfl, rfl⟩ := Prod.mk.inj hrun
    refine ⟨hkeep.1, hkeep.2, _, rfl, fun _ => ⟨fun hf => ?_, fun hf hp hhas => ?_⟩⟩
    · rcases hfound with rfl | ⟨rfl, -⟩
      · simpa [Repository.Has] using hf
      · cases hf
    rcases hfound with rfl | ⟨-, hpois⟩
    · simp only [Option.isSome_map] at hf
      rw [Repository.Has, hf] at hhas
      cases hhas
    · change r1.poisoned = false at hp
      rw [hpois] at hp
      cases hp
  next htype =>
    obtain ⟨rfl, rfl⟩ := Prod.mk.inj hrun
    exact ⟨rfl, id, false, rfl, fun h => absurd h htype⟩

/-- What reading headers does to the nodes that are there. -/
structure Continues (s s' : Sched) : Prop where
  active : s'.active = s.active
  scanDone : s'.scanDone = s.scanDone
  done : ∀ i, (s'.nodes i).done = (s.nodes i).done
  base : ∀ i, (s.nodes i).done = true → (s'.nodes i).base = (s.nodes i).base

/-- What adding a batch of entries does. -/
structure HeadersAdded (es : List PackEntry) (dispatched : List Nat) (first : GitOID → Prop)
    (headers : List PackEntry) (s : Sched) (repo : Repository) (res : Except Stop Sched)
    (repo' : Repository) : Prop where
  objects : repo'.objects = repo.objects
  poisoned : repo.poisoned = true → repo'.poisoned = true
  ok : ∀ s', res = .ok s' → s'.Inv es repo.Has dispatched ∧ Continues s s' ∧
    s'.scanned = s.scanned + headers.length ∧
    (repo'.poisoned = false → s.Awaits first → s'.Awaits first)
  error : ∀ e, res = .error e →
    (e = .missingOffsetBase ∧ ∃ i h, es[i]? = some h ∧ h.type = .ofsDelta ∧ ∀ p, ¬ Parent es i p) ∨
    e = .packObjectType ∧ ∃ (i : Nat) (h : PackEntry), es[i]? = some h ∧ h.type = .invalid

/-- Adding a batch keeps the schedule right, or the pack is bad. -/
lemma addHeaders_spec {es : List PackEntry} {dispatched : List Nat} {first : GitOID → Prop}
    (hinc : es.Pairwise fun a b => a.offset < b.offset) {headers : List PackEntry}
    {s : Sched} {repo repo' : Repository} {res : Except Stop Sched}
    (hinv : s.Inv es repo.Has dispatched) (hfirst : ∀ oid, first oid → repo.Has oid)
    (hpre : headers <+: es.drop s.scanned) (hrun : Import.addHeaders headers s repo = (res, repo')) :
    HeadersAdded es dispatched first headers s repo res repo' := by
  induction headers generalizing s repo with
  | nil =>
    obtain ⟨rfl, rfl⟩ := Prod.mk.inj hrun
    refine ⟨rfl, id, ?_, nofun⟩
    rintro s' ⟨⟩
    exact ⟨hinv, ⟨rfl, rfl, fun _ => rfl, fun _ _ => rfl⟩, rfl, fun _ => id⟩
  | cons h headers ih =>
  have hget : es[s.scanned]? = some h := by
    obtain ⟨rest, hrest⟩ := hpre
    have := congrArg (·[0]?) hrest
    simpa using this.symm
  rw [Import.addHeaders] at hrun
  cases hpres : Import.present h repo with
  | mk found r1 =>
  obtain ⟨hobj, hpois, found, rfl, hspec⟩ := present_spec h hpres
  rw [hpres] at hrun
  dsimp only at hrun
  have hhas : r1.Has = repo.Has := Repository.has_congr hobj
  cases hadd : s.addHeader h found with
  | error e =>
    rw [hadd] at hrun
    obtain ⟨rfl, rfl⟩ := Prod.mk.inj hrun
    refine ⟨hobj, hpois, nofun, ?_⟩
    rintro e ⟨⟩
    rcases Sched.addHeader_error hadd with rfl | ⟨rfl, htype⟩
    · obtain ⟨htype, hno⟩ := hinv.addHeader_missing hget hadd
      exact .inl ⟨rfl, s.scanned, h, hget, htype, hno⟩
    · exact .inr ⟨rfl, s.scanned, h, hget, htype⟩
  | ok s1 =>
  rw [hadd] at hrun
  have hadded := hinv.addHeader hinc hget (fun htype hf => (hspec htype).1 hf) hadd
  have hpre' : headers <+: es.drop s1.scanned := by
    rw [hadded.grown.scanned, ← List.drop_drop]
    obtain ⟨rest, hrest⟩ := hpre
    rw [← hrest]
    exact ⟨rest, by simp⟩
  obtain ⟨hobj', hpois', hok, herror⟩ := ih (hhas ▸ hadded.inv)
    (fun oid ho => hhas ▸ hfirst oid ho) hpre' hrun
  refine ⟨hobj'.trans hobj, fun hp => hpois' (hpois hp), fun s' hs' => ?_, herror⟩
  obtain ⟨hinv', hcont, hscanned, haw⟩ := hok s' hs'
  refine ⟨hhas ▸ hinv', ⟨hcont.active.trans hadded.active, hcont.scanDone.trans hadded.scanDone,
    fun i => (hcont.done i).trans (hadded.grown.done hinv i), fun i hi => ?_⟩, ?_, ?_⟩
  · rw [hcont.base i (by rw [hadded.grown.done hinv]; exact hi)]
    refine hadded.grown.base ?_
    rintro rfl
    exact hinv.last_not_dispatched (hinv.done _ hi).1
  · rw [hscanned, hadded.grown.scanned, List.length_cons]
    omega
  intro hclean hold
  have hclean1 : r1.poisoned = false := clean_of_clean hpois' hclean
  refine haw hclean (hold.grown hinv hadded.grown hfirst fun oid j hj => ?_)
  rcases hadded.waiters oid j hj with hw | ⟨htype, hlost, rfl⟩
  · exact .inl hw
  · exact .inr ((hspec htype).2 hlost hclean1)

end Trex.GitStore
