import Trex.Git.ParallelClosure
import Trex.Repo.Run

/-!
# `ImportPack`

The three ways of decoding a pack, and the checks behind them.  An import that succeeds has no edge
waiting, so every reference leads to an object of the right kind.
-/

namespace Trex.GitStore

open Session
open Bytes (ascii)

open Trex.Repo (GitOID Env gitBlob gitTree gitPreimage sampleEnv)

/-- What the transport announces of a pack. -/
structure Download where
  objects : Nat
  packHash : Bytes

def start : RepoM Unit := do
  call .conflict
  call .checksum

def publishGit : RepoM Unit := do
  ready
  call .conflict

def checkpoint : RepoM Unit := do
  ready
  call .failed

def storageStats : RepoM Unit := do
  ready
  call .failed

/-- The catalog is written: the refs and the context are looked at first. -/
def publish : ImportM Unit := do
  onRepo (call .canceled)
  onRepo publishGit
  let optimized ← Op.gets fun s => s.repo.optimized
  Op.when (optimized = true) (onRepo checkpoint)
  onRepo storageStats

/-- The checks behind the decoding. -/
def finish (d : Download) (got : Bytes) (decoded : Nat) : ImportM Unit := do
  Op.failIf (got ≠ d.packHash ∨ decoded ≠ d.objects) .packIdentity
  let required ← Op.gets fun s => s.storer.required.entries
  Op.failIf (required ≠ []) .incompleteGraph
  let objects ← Op.gets fun s => s.repo.objects.entries.length
  Op.failIf (objects ≠ d.objects) .objectCount
  publish

/-- The decoding without an error: the storer behind it, the checksum, the count, and the
objects that were ingested. -/
inductive Decodes (env : Env) (pack : Pack) (d : Download) (repo : Repository) :
    Session → Bytes → Nat → List EncodedObject → Prop where
  /-- `importParallel`, with any number of workers and any interleaving -/
  | parallel {workers : Nat} {events : List Event} {s : Import} {got : Bytes} {decoded : Nat} :
      repo.optimized = true → pack.entries.length = d.objects → 0 < workers →
      (Import.init repo workers).run env pack events = some s →
      s.main = .returned (.ok (got, decoded)) →
      Decodes env pack d repo s.session got decoded (s.ingested.map fun x => ⟨x.kind, x.body⟩)
  | extents {t : Extents} {got : Bytes} :
      repo.optimized = true → importExtents env pack d.objects ⟨⟨repo, {}⟩, ∅, []⟩ = (.ok got, t) →
      Decodes env pack d repo t.session got t.session.storer.inserted t.ingested
  /-- the parser of the Git library, which delivers objects in some order -/
  | parser {delivered : List EncodedObject} {s : Session} {got : Bytes} {decoded : Nat} :
      repo.optimized = false →
      (delivered.forM (setEncodedObject env) : ImportM Unit) ⟨repo, {}⟩ = (.ok (), s) →
      Decodes env pack d repo s got decoded delivered

/-- `ImportPack` succeeds: it leaves the session `t` and has ingested these objects. -/
inductive ImportPack (env : Env) (pack : Pack) (d : Download) (repo : Repository) :
    Session → List EncodedObject → Prop where
  | mk {repo₁ : Repository} {s t : Session} {got : Bytes} {decoded : Nat}
      {ingested : List EncodedObject} : start repo = (.ok (), repo₁) →
      Decodes env pack d repo₁ s got decoded ingested → finish d got decoded s = (.ok (), t) →
      ImportPack env pack d repo t ingested

/-- Two ingested objects of different kinds have one hash, or the hash of an object occurs
in the object itself. -/
def HashAccident (env : Env) (ingested : List EncodedObject) : Prop :=
  (∃ x ∈ ingested, ∃ y ∈ ingested, x.kind ≠ y.kind ∧ oidOf env x.kind x.body = oidOf env y.kind y.body) ∨
  ∃ x ∈ ingested, x.NamesItself env

variable {env : Env} {pack : Pack} {d : Download} {repo : Repository} {s t : Session}

/-- The links of an object parse and are resolved. -/
def Session.Checked (s : Session) (obj : EncodedObject) : Prop :=
  (gitLinks obj.kind obj.body 20).2 = none ∧ ∀ edge ∈ (gitLinks obj.kind obj.body 20).1, s.Resolves edge.1 edge.2

/-- All objects of a decoder are settled. -/
lemma setEncodedObjects_settled {delivered : List EncodedObject} (taken : List EncodedObject)
    (h : (delivered.forM (setEncodedObject env) : ImportM Unit) s = (.ok (), t))
    (hself : ∀ obj ∈ delivered, ¬ obj.NamesItself env) : (s.repo.poisoned = true → t.repo.poisoned = true) ∧
      (t.repo.poisoned = false → Settled taken s → Settled (taken ++ delivered) t) := by
  induction delivered generalizing s taken with
  | nil =>
    obtain ⟨-, rfl⟩ := Prod.mk.inj h
    rw [List.append_nil]
    exact ⟨id, fun _ => id⟩
  | cons obj delivered ih =>
  obtain ⟨_, s1, hfirst, hrest⟩ := Op.bind_ok h
  obtain ⟨hp, hs⟩ := setEncodedObject_settled taken hfirst
  obtain ⟨hp', hs'⟩ := ih (taken ++ [obj]) hrest
    fun x hx => hself x (List.mem_cons_of_mem _ hx)
  refine ⟨fun h => hp' (hp h), fun hclean h0 => ?_⟩
  have := hs' hclean (hs (clean_of_clean hp' hclean) (hself obj List.mem_cons_self) h0)
  rwa [List.append_assoc] at this

/-- What the parallel import ingests has its links resolved. -/
lemma Import.checked {ws : Nat} {evs : List Event} {s : Import}
    {v : Bytes × Nat} (hworkers : 0 < ws) (hrun : (Import.init repo ws).run env pack evs = some s)
    (hret : s.main = .returned (.ok v)) (hclean : s.session.repo.poisoned = false)
    (hdist : s.Distinct) {x : Ingested} (hx : x ∈ s.ingested) : s.session.Checked ⟨x.kind, x.body⟩ := by
  have hinv := inv_run repo hworkers hrun
  have hlinked := linked_run repo hworkers hrun ⟨hclean, hdist, fun e he => by
    rcases he with he | he <;> rw [hret] at he <;> cases he⟩
  have hlt := hinv.core.dispatched_lt (hinv.core.ingested x hx).1
  exact hlinked.edges x hx (hinv.outcome.complete v (.inr hret) _ hlt)

/-- What either decoder ingests has its links resolved. -/
lemma Decodes.checked {got : Bytes} {decoded : Nat} {ingested : List EncodedObject}
    (h : Decodes env pack d repo s got decoded ingested) (hclean : s.repo.poisoned = false)
    (hhash : ¬ HashAccident env ingested) : ∀ obj ∈ ingested, s.Checked obj := by
  cases h with
  | @parallel workers events s got decoded hopt hcount hworkers hrun hret =>
    intro obj hobj
    obtain ⟨x, hx, rfl⟩ := List.mem_map.mp hobj
    have hstored := (Import.run_keeps repo hworkers (Import.stored_init env repo workers)
      (fun hinv h => h.step hinv) hrun).2
    refine Import.checked hworkers hrun hret hclean (fun y hy z hz heq => ?_) hx
    by_contra hne
    refine hhash (.inl ⟨_, List.mem_map.mpr ⟨y, hy, rfl⟩, _, List.mem_map.mpr ⟨z, hz, rfl⟩, hne, ?_⟩)
    rw [hstored.oid y hy, hstored.oid z hz] at heq
    exact heq
  | extents hopt hrun =>
    exact ((settles_importExtents env pack d.objects _ _ _ hrun).2 hclean
      (settled_empty repo)).edges
  | parser hopt hrun =>
  have hself : ∀ obj ∈ ingested, ¬ obj.NamesItself env := fun obj hobj hname => hhash (.inr ⟨obj, hobj, hname⟩)
  have := (setEncodedObjects_settled [] hrun hself).2 hclean (settled_empty repo)
  rw [List.nil_append] at this
  exact this.edges

lemma quiet_publish : Quiet publish := by
  have hchecked : ∀ e, Keeps (do ready; call e) := fun e => keeps_bind keeps_ready fun _ => keeps_call e
  refine quiet_bind (quiet_onRepo (keeps_call _)) fun _ =>
    quiet_bind (quiet_onRepo (hchecked _)) fun _ => quiet_bind (quiet_gets _) fun _ =>
      quiet_bind ?_ fun _ => quiet_onRepo (hchecked _)
  unfold Op.when
  split
  · exact quiet_onRepo (hchecked _)
  · exact quiet_pure ()

lemma publish_clean (h : publish s = (.ok (), t)) : s.repo.poisoned = false := by
  obtain ⟨_, s1, hrefs, h1⟩ := Op.bind_ok h
  obtain ⟨repo₁, hcall, rfl⟩ := onRepo_ok hrefs
  obtain ⟨-, hp⟩ := poisoned_of_keeps (keeps_call _) hcall
  obtain ⟨_, s2, hpublish, -⟩ := Op.bind_ok h1
  obtain ⟨repo2, hpub, rfl⟩ := onRepo_ok hpublish
  obtain ⟨_, repo3, hrdy, -⟩ := Op.bind_ok hpub
  exact clean_of_clean hp (ready_ok hrdy).1

/-- An import that ends well has nothing required left. -/
lemma finish_ok {got : Bytes} {decoded : Nat} (h : finish d got decoded s = (.ok (), t)) :
    s.repo.poisoned = false ∧ (∀ id, s.storer.required.find id = none) ∧ t.repo.objects = s.repo.objects := by
  obtain ⟨_, s1, hident, h1⟩ := Op.bind_ok h
  obtain ⟨-, rfl⟩ := Op.failIf_ok hident
  obtain ⟨required, s2, hgets, h2⟩ := Op.bind_ok h1
  obtain ⟨rfl, rfl⟩ := Op.gets_ok hgets
  obtain ⟨_, s3, hgraph, h3⟩ := Op.bind_ok h2
  obtain ⟨hemp, rfl⟩ := Op.failIf_ok hgraph
  obtain ⟨objs, s4, hgets', h4⟩ := Op.bind_ok h3
  obtain ⟨-, rfl⟩ := Op.gets_ok hgets'
  obtain ⟨_, s5, hcount, h5⟩ := Op.bind_ok h4
  obtain ⟨-, rfl⟩ := Op.failIf_ok hcount
  have hquiet := quiet_publish s5
  rw [h5] at hquiet
  refine ⟨publish_clean h5, fun id => ?_, hquiet.1⟩
  cases hfind : s5.storer.required.find id with
  | none => rfl
  | some kind =>
  have := (SortedMap.mem_entries _ _ _).mpr hfind
  rw [not_not.mp hemp] at this
  cases this

/-- After a successful import every reference of every ingested object leads to an object of
the kind that it asks for. -/
theorem importPack_closed {ingested : List EncodedObject}
    (h : ImportPack env pack d repo t ingested) :
    (∀ obj ∈ ingested, ∀ oid want, Refers obj.kind obj.body oid want →
      ∃ o, t.repo.objects.find oid = some o ∧ o.kind = want) ∨ HashAccident env ingested := by
  by_cases hhash : HashAccident env ingested
  · exact .inr hhash
  obtain ⟨hstart, hdecodes, hfin⟩ := h
  obtain ⟨hclean, hnone, hobj⟩ := finish_ok hfin
  refine .inl fun obj hmem oid want hrefers => ?_
  obtain ⟨hnoerr, hedges⟩ := hdecodes.checked hclean hhash obj hmem
  have hedge := refers_mem_gitLinks hrefers (Prod.ext rfl hnoerr)
  rcases hedges _ hedge with hthere | hreq
  · rw [hobj]
    exact hthere
  · rw [hnone] at hreq
    cases hreq

def fileHash : Bytes := sampleEnv.sha1 (gitPreimage gitBlob [65])

lemma length_fileHash : fileHash.length = 20 := sampleEnv.length_sha1 _

/-- The entry of a tree for a file `a` with the one byte 65. -/
def fileItem : TreeItem where
  mode := ascii "100644"
  name := ascii "a"
  hash := fileHash
  mode_ne := by decide
  mode_plain := by decide
  name_ne := by decide
  name_plain := by decide
  length_hash := length_fileHash

/-- A tree with one file, in front of the file. -/
def graphPack : Pack where
  entries := [
    { type := .tree
      offset := 12
      length := 29
      data := fileItem.text
      length_reference := length_noReference },
    blobEntry 60]
  increasing := by decide
  checksum := [1]

/-- The tree refers to the blob, which is there after the import. -/
theorem importPack_closed_graph :
    ∃ t ingested, ImportPack sampleEnv graphPack ⟨2, [1]⟩ ⟨∅, true, false, []⟩ t ingested ∧
      ingested = [⟨gitTree, fileItem.text⟩, ⟨gitBlob, [65]⟩] ∧
      Refers gitTree fileItem.text (gitOID fileItem.hash) gitBlob ∧
      (∃ o, t.repo.objects.find (gitOID fileItem.hash) = some o ∧ o.kind = gitBlob) ∧
      ∀ obj ∈ ingested, ∀ oid want, Refers obj.kind obj.body oid want →
        ∃ o, t.repo.objects.find oid = some o ∧ o.kind = want := by
  obtain ⟨run, hrun⟩ : ∃ run, importExtents sampleEnv graphPack 2
      ⟨⟨⟨∅, true, false, []⟩, {}⟩, ∅, []⟩ = run := ⟨_, rfl⟩
  have hok : run.1 = .ok [1] := by
    rw [← hrun]
    decide +kernel
  have hingested : run.2.ingested = [⟨gitTree, fileItem.text⟩, ⟨gitBlob, [65]⟩] := by
    rw [← hrun]
    decide +kernel
  have hfin : (finish ⟨2, [1]⟩ [1] run.2.session.storer.inserted run.2.session).1 = .ok () := by
    rw [← hrun]
    decide +kernel
  have himp : ImportPack sampleEnv graphPack ⟨2, [1]⟩ ⟨∅, true, false, []⟩
      (finish ⟨2, [1]⟩ [1] run.2.session.storer.inserted run.2.session).2 run.2.ingested :=
    .mk rfl (.extents rfl (hrun.trans (Prod.ext hok rfl))) (Prod.ext hfin rfl)
  have hhash : ¬ HashAccident sampleEnv run.2.ingested := by
    rw [hingested]
    unfold HashAccident EncodedObject.NamesItself
    decide +kernel
  have hclosed := (importPack_closed himp).resolve_right hhash
  have hrefers : Refers gitTree fileItem.text (gitOID fileItem.hash) gitBlob := by
    have hentry := Refers.entry [fileItem] fileItem gitBlob (List.mem_singleton.mpr rfl) (by decide +kernel)
    rwa [List.flatMap_singleton] at hentry
  refine ⟨_, _, himp, hingested, hrefers, hclosed ⟨gitTree, fileItem.text⟩ ?_ _ _ hrefers, hclosed⟩
  rw [hingested]
  exact List.mem_cons_self

end Trex.GitStore
