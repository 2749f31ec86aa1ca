import Trex.Git.ParallelProof

/-!
# The edges that the storer has checked

`Session.Resolves` is what `require` establishes for an edge: its target is stored with the right kind,
or still required with it.  Looking at more edges keeps this (`Session.Advances`), and so does storing a
required object (`accountLinks_closes`).
-/

namespace Trex.GitStore

open List Option SortedMap Op

open Trex.Repo (GitOID Env gitBlob)

variable {repo repo' : Repository} {α : Type} {m : RepoM α} {a : α} {oid : GitOID} {kind : UInt8}
  {edges : List (GitOID × UInt8)} {body : Bytes} {links : ImportM Unit} {taken : List EncodedObject}
  {env : Env} {obj : EncodedObject}

namespace Session

/-- The edge leads to an object of the kind, or is waited for. -/
def Resolves (s : Session) (id : GitOID) (kind : UInt8) : Prop :=
  (∃ o, s.repo.objects.find id = some o ∧ o.kind = kind) ∨ s.storer.required.find id = some kind

/-- A hint names an object of its kind that is there, or one that is required. -/
def HintsResolve (s : Session) : Prop :=
  ∀ slot hint, s.storer.edgeHints.find slot = some hint → hint.kind ≠ 0 → s.Resolves hint.id hint.kind

/-- What looking at the given edges does. -/
structure Advances (edges : List (GitOID × UInt8)) (s s' : Session) : Prop where
  objects : s'.repo.objects = s.repo.objects
  poisoned : s.repo.poisoned = true → s'.repo.poisoned = true
  kept : ∀ id kind, s.storer.required.find id = some kind → s'.storer.required.find id = some kind
  added : s'.repo.poisoned = false → ∀ id kind, s'.storer.required.find id = some kind →
    s.storer.required.find id = some kind ∨ (s.repo.objects.find id = none ∧ (id, kind) ∈ edges)
  hints : s'.repo.poisoned = false → s.HintsResolve → s'.HintsResolve ∧ ∀ edge ∈ edges, s'.Resolves edge.1 edge.2

variable {edges edges' : List (GitOID × UInt8)} {s s' s'' : Session}

lemma Advances.refl (s : Session) : Advances [] s s :=
  ⟨rfl, id, fun _ _ => id, fun _ _ _ => .inl, fun _ h => ⟨h, fun e he => by cases he⟩⟩

lemma Advances.clean (h : Advances edges s s') (hclean : s'.repo.poisoned = false) :
    s.repo.poisoned = false := clean_of_clean h.poisoned hclean

lemma Advances.resolves (h : Advances edges s s') {id : GitOID} {kind : UInt8}
    (hr : s.Resolves id kind) : s'.Resolves id kind := by
  rcases hr with ⟨o, ho, hk⟩ | hreq
  · exact .inl ⟨o, by rw [h.objects]; exact ho, hk⟩
  · exact .inr (h.kept id kind hreq)

lemma Advances.trans (h : Advances edges s s') (h' : Advances edges' s' s'') : Advances (edges ++ edges') s s'' where
  objects := h'.objects.trans h.objects
  poisoned := fun hp => h'.poisoned (h.poisoned hp)
  kept := fun id kind hreq => h'.kept id kind (h.kept id kind hreq)
  added := by
    intro hclean id kind hreq
    rcases h'.added hclean id kind hreq with hold | ⟨hnone, hmem⟩
    · rcases h.added (h'.clean hclean) id kind hold with hold | ⟨hnone, hmem⟩
      · exact .inl hold
      · exact .inr ⟨hnone, mem_append_left _ hmem⟩
    · exact .inr ⟨by rw [← h.objects]; exact hnone, mem_append_right _ hmem⟩
  hints := by
    intro hclean hhints
    obtain ⟨hhints1, hedges⟩ := h.hints (h'.clean hclean) hhints
    obtain ⟨hhints2, hedges'⟩ := h'.hints hclean hhints1
    refine ⟨hhints2, fun edge hedge => ?_⟩
    rcases mem_append.mp hedge with hmem | hmem
    · exact h'.resolves (hedges edge hmem)
    · exact hedges' edge hmem

end Session

open Session

variable {s s' : Session}

lemma onRepo_ok (h : onRepo m s = (.ok a, s')) : ∃ repo, m s.repo = (.ok a, repo) ∧ s' = { s with repo } :=
  zoom_ok h

lemma modifyStorer_ok {f : NativeStorer → NativeStorer} {u : Unit}
    (h : modifyStorer f s = (.ok u, s')) : s' = { s with storer := f s.storer } :=
  (Prod.mk.inj h).2.symm

/-- Repository calls that store nothing leave the edges as they are. -/
lemma advances_of_repo (hobj : repo.objects = s.repo.objects)
    (hp : s.repo.poisoned = true → repo.poisoned = true) : Advances [] s { s with repo } where
  objects := hobj
  poisoned := hp
  kept := fun _ _ => id
  added := fun _ _ _ => .inl
  hints := by
    intro _ hhints
    refine ⟨fun slot hint hslot hne => ?_, fun e he => by cases he⟩
    rcases hhints slot hint hslot hne with ⟨o, ho, hk⟩ | hreq
    · exact .inl ⟨o, by rw [← ho]; exact congrArg (·.find hint.id) hobj, hk⟩
    · exact .inr hreq

lemma eq_of_not_conflict {old : Option UInt8} {k : UInt8}
    (hconf : ¬ (old.isSome ∧ old ≠ some kind)) (hold : old = some k) : k = kind := by
  subst hold
  simpa using hconf

/-- A reference that is accepted is resolved. -/
lemma requireSlow_advances (h : requireSlow oid kind s = (.ok (), s')) : Advances [(oid, kind)] s s' := by
  obtain ⟨found, t, hhead, h⟩ := bind_ok h
  obtain ⟨repo, hrun, rfl⟩ := onRepo_ok hhead
  obtain ⟨found', repo', hspec, hfound⟩ := gitObjectHeader_spec oid s.repo
  obtain ⟨heq, rfl⟩ := Prod.mk.inj (hspec.symm.trans hrun)
  obtain rfl := Except.ok.inj heq
  have hkeep := keeps_gitObjectHeader oid s.repo
  rw [hrun] at hkeep
  have hadv := advances_of_repo hkeep.1 hkeep.2
  cases found' with
  | some p =>
    obtain ⟨hkind, rfl⟩ := failIf_ok h
    refine ⟨hadv.objects, hadv.poisoned, hadv.kept, fun _ _ _ => .inl, fun hclean hhints =>
      ⟨(hadv.hints hclean hhints).1, fun edge hedge => ?_⟩⟩
    obtain rfl := mem_singleton.mp hedge
    rcases hfound with hsome | ⟨hnone, -⟩
    · obtain ⟨o, ho, rfl⟩ := map_eq_some_iff.mp hsome.symm
      exact .inl ⟨o, (congrArg (·.find oid) hkeep.1).trans ho, by simpa using hkind⟩
    · cases hnone
  | none =>
  obtain ⟨old, t, hold, h⟩ := bind_ok h
  obtain ⟨rfl, rfl⟩ := gets_ok hold
  obtain ⟨u, t, hfail, h⟩ := bind_ok h
  obtain ⟨hconf, rfl⟩ := failIf_ok hfail
  obtain rfl := modifyStorer_ok h
  -- the entry that is written was absent or is the same
  have hsame : ∀ k, _ → k = kind := fun _ => eq_of_not_conflict hconf
  have hmono : ∀ id k, s.storer.required.find id = some k → (s.storer.required.insert oid kind).find id = some k := by
    intro id k hk
    rw [find_insert]
    split
    next heq =>
      subst heq
      rw [hsame k hk]
    · exact hk
  refine ⟨hadv.objects, hadv.poisoned, hmono, fun hclean id k hk => ?_, fun hclean hhints => ⟨?_, ?_⟩⟩
  · change (s.storer.required.insert oid kind).find id = some k at hk
    rw [find_insert] at hk
    split at hk
    next heq =>
      subst heq
      obtain rfl := some.inj hk
      refine .inr ⟨?_, mem_singleton_self _⟩
      rcases hfound with hnone | ⟨-, hpois⟩
      · exact map_eq_none_iff.mp hnone.symm
      · change repo'.poisoned = false at hclean
        rw [hpois] at hclean
        cases hclean
    · exact .inl hk
  · intro slot hint hslot hne
    rcases (hadv.hints hclean hhints).1 slot hint hslot hne with hrepo | hreq
    · exact .inl hrepo
    · exact .inr (hmono _ _ hreq)
  · intro edge hedge
    obtain rfl := mem_singleton.mp hedge
    refine .inr ?_
    show (s.storer.required.insert oid kind).find oid = some kind
    rw [find_insert, if_pos rfl]

/-- The same with a hint, which stands for a check made before. -/
lemma require_advances (h : require oid kind s = (.ok (), s')) : Advances [(oid, kind)] s s' := by
  obtain ⟨hint, t, hgets, h⟩ := bind_ok h
  obtain ⟨rfl, rfl⟩ := gets_ok hgets
  split at h
  next hhit =>
    -- a hint that matches was an edge of the same kind
    obtain ⟨hkind, rfl⟩ := failIf_ok h
    refine ⟨rfl, id, fun _ _ => id, fun _ _ _ => .inl, fun _ hhints => ⟨hhints, fun edge hedge => ?_⟩⟩
    obtain rfl := mem_singleton.mp hedge
    cases hslot : s'.storer.edgeHints.find (hintSlot oid) with
    | none =>
      rw [hslot] at hhit
      exact absurd rfl hhit.1
    | some hint =>
    rw [hslot, getD_some] at hhit hkind
    have := hhints _ hint hslot hhit.1
    rw [hhit.2, not_not.mp hkind] at this
    exact this
  next hmiss =>
  obtain ⟨u, t, hslow, h⟩ := bind_ok h
  obtain rfl := modifyStorer_ok h
  have hadv := requireSlow_advances hslow
  refine { hadv with hints := fun hclean hhints => ?_ }
  obtain ⟨hold, hedge⟩ := hadv.hints hclean hhints
  refine ⟨fun slot hint hslot hne => ?_, hedge⟩
  change (t.storer.edgeHints.insert (hintSlot oid) ⟨oid, kind⟩).find slot = some hint at hslot
  rw [find_insert] at hslot
  split at hslot
  · obtain rfl := some.inj hslot
    exact hedge (oid, kind) (mem_singleton_self _)
  · exact hold slot hint hslot hne

/-- All references of a list are resolved. -/
lemma requireAll_advances (h : requireAll edges s = (.ok (), s')) : Advances edges s s' := by
  induction edges generalizing s with
  | nil =>
    obtain ⟨-, rfl⟩ := Prod.mk.inj h
    exact .refl s
  | cons edge edges ih =>
    obtain ⟨u, t, hfirst, hrest⟩ := bind_ok h
    exact (require_advances hfirst).trans (ih hrest)

/-- All references of a body are resolved. -/
lemma requireLinks_advances (h : requireLinks kind body s = (.ok (), s')) :
    (gitLinks kind body 20).2 = none ∧ Advances (gitLinks kind body 20).1 s s' := by
  unfold requireLinks at h
  cases hlinks : gitLinks kind body 20 with
  | mk edges err =>
  rw [hlinks] at h
  obtain ⟨u, t, hall, h⟩ := bind_ok h
  cases err with
  | none =>
    obtain ⟨-, rfl⟩ := Prod.mk.inj h
    exact ⟨rfl, requireAll_advances hall⟩
  | some e => cases h

/-! ## Objects -/

/-- What accounting for the links of an object leaves. -/
structure Session.Takes (edges : List (GitOID × UInt8)) (oid : GitOID) (s s' : Session) : Prop where
  hints : s'.HintsResolve
  edges : ∀ edge ∈ edges, s'.Resolves edge.1 edge.2
  kept : ∀ id kind, s.Resolves id kind → s'.Resolves id kind
  required : ∀ id kind, s'.storer.required.find id = some kind → id ≠ oid ∧
    (s.storer.required.find id = some kind ∨ s.repo.objects.find id = none)

/-- An object comes off `required` when it is there with the kind that is waited for. -/
lemma Session.resolves_of_erase (hreq : s'.storer.required = s.storer.required.erase oid)
    (hoth : ∀ id, id ≠ oid → s'.repo.objects.find id = s.repo.objects.find id)
    (hself : ∀ kind, s.Resolves oid kind → ∃ o, s'.repo.objects.find oid = some o ∧ o.kind = kind)
    {id : GitOID} (h : s.Resolves id kind) : s'.Resolves id kind := by
  by_cases hid : id = oid
  · subst hid
    exact .inl (hself kind h)
  · rcases h with ⟨o, ho, hk⟩ | hreq'
    · exact .inl ⟨o, by rw [hoth id hid]; exact ho, hk⟩
    · refine .inr ?_
      rw [hreq, find_erase, if_neg hid]
      exact hreq'

/-- The object that is accounted for is stored, with the kind that is waited for. -/
lemma accountLinks_closes (hlinks : ∀ t t', links t = (.ok (), t') → Advances edges t t')
    (hblob : kind = gitBlob → edges = []) (h : accountLinks oid kind links s = (.ok (), s'))
    (hclean : s'.repo.poisoned = false) (hhints : s.HintsResolve) (hstored : ∃ o, s.repo.objects.find oid = some o ∧
      (s.storer.required.find oid = some kind → o.kind = kind)) :
    s'.repo.objects = s.repo.objects ∧ Takes edges oid s s' := by
  obtain ⟨u, t, hcheck, h⟩ := bind_ok h
  obtain ⟨u', t', hmod, h⟩ := bind_ok h
  obtain rfl := modifyStorer_ok hmod
  obtain ⟨repo, hcall, rfl⟩ := onRepo_ok h
  have hkeep := keeps_call .storageLimit t.repo
  rw [show call .storageLimit t.repo = (.ok (), repo) from hcall] at hkeep
  obtain ⟨hobj, hp⟩ := hkeep
  -- the links
  obtain ⟨want, t1, hgets, hcheck⟩ := bind_ok hcheck
  obtain ⟨rfl, ht1⟩ := gets_ok hgets
  rw [ht1] at hcheck
  obtain ⟨u'', t2, hfail, hcheck⟩ := bind_ok hcheck
  obtain ⟨hwant, ht2⟩ := failIf_ok hfail
  rw [ht2] at hcheck
  have hadv : Advances edges s t := by
    unfold when at hcheck
    split at hcheck
    · exact hlinks _ _ hcheck
    next hkind =>
    obtain ⟨-, rfl⟩ := Prod.mk.inj hcheck
    rw [hblob (not_not.mp hkind)]
    exact .refl _
  have htclean := clean_of_clean hp hclean
  obtain ⟨o, ho, hkind⟩ := hstored
  -- what is waited for under this identity is the object itself
  have hself : ∀ k, t.storer.required.find oid = some k → k = kind ∧ o.kind = kind := by
    intro k hk
    rcases hadv.added htclean oid k hk with hold | ⟨hnone, -⟩
    · obtain rfl := eq_of_not_conflict hwant hold
      exact ⟨rfl, hkind hold⟩
    · rw [ho] at hnone
      cases hnone
  have hobjs : repo.objects = t.repo.objects := hobj
  have hfinal : ∀ {id k}, t.Resolves id k → Resolves { repo := repo, storer := { t.storer with
        required := t.storer.required.erase oid
        inserted := t.storer.inserted + 1 } } id k := by
    refine fun hr => resolves_of_erase rfl (fun id _ => congrArg (·.find id) hobjs)
      (fun k hr => ?_) hr
    show ∃ o, repo.objects.find oid = some o ∧ o.kind = k
    rw [hobjs]
    rcases hr with hthere | hreq
    · exact hthere
    · obtain ⟨rfl, hok⟩ := hself k hreq
      exact ⟨o, by rw [hadv.objects]; exact ho, hok⟩
  obtain ⟨hhints', hedges⟩ := hadv.hints htclean hhints
  refine ⟨hobj.trans hadv.objects, ?_, ?_, ?_, ?_⟩
  · exact fun slot hint hslot hne => hfinal (hhints' slot hint hslot hne)
  · exact fun edge hedge => hfinal (hedges edge hedge)
  · exact fun id k hr => hfinal (hadv.resolves hr)
  intro id k hk
  change (t.storer.required.erase oid).find id = some k at hk
  rw [find_erase] at hk
  split at hk
  · cases hk
  next hne =>
  refine ⟨hne, ?_⟩
  rcases hadv.added htclean id k hk with hold | ⟨hnone, -⟩
  · exact .inl hold
  · exact .inr hnone

/-! ## One object after the other -/

/-- An object that refers to its own identity, as if that were of another kind. -/
def EncodedObject.NamesItself (env : Env) (obj : EncodedObject) : Prop :=
  ∃ edge ∈ (gitLinks obj.kind obj.body 20).1, edge.1 = oidOf env obj.kind obj.body ∧ edge.2 ≠ obj.kind

/-- What holds between two objects of a sequential import. -/
structure Session.Settled (taken : List EncodedObject) (s : Session) : Prop where
  hints : s.HintsResolve
  pending : ∀ id kind, s.storer.required.find id = some kind → s.repo.objects.find id = none
  edges : ∀ obj ∈ taken, (gitLinks obj.kind obj.body 20).2 = none ∧
    ∀ edge ∈ (gitLinks obj.kind obj.body 20).1, s.Resolves edge.1 edge.2

lemma settled_empty (repo : Repository) : Settled [] ⟨repo, {}⟩ :=
  ⟨fun slot hint h => by simp at h, fun id kind h => by simp at h, fun obj h => by cases h⟩

lemma Session.Settled.setRepo (hs : Settled taken s) (hobj : repo.objects = s.repo.objects) :
    Settled taken { s with repo } := by
  have hres : ∀ {id kind}, s.Resolves id kind → Resolves { s with repo } id kind := by
    intro id kind hr
    rcases hr with ⟨o, ho, hk⟩ | hreq
    · exact .inl ⟨o, (congrArg (·.find id) hobj).trans ho, hk⟩
    · exact .inr hreq
  refine ⟨fun slot hint hslot hne => hres (hs.hints slot hint hslot hne), fun id k hk => ?_,
    fun x hx => ⟨(hs.edges x hx).1, fun edge hedge => hres ((hs.edges x hx).2 edge hedge)⟩⟩
  exact (congrArg (·.find id) hobj).trans (hs.pending id k hk)

lemma gitLinks_blob (body : Bytes) : gitLinks gitBlob body 20 = ([], none) := rfl

lemma poisoned_of_keeps (hm : Keeps m) (h : m s.repo = (.ok a, repo)) :
    repo.objects = s.repo.objects ∧ (s.repo.poisoned = true → repo.poisoned = true) := by
  have := hm s.repo
  rw [h] at this
  exact this

lemma putGitObject_ok (h : putGitObject env oid kind body repo = (.ok (), repo')) :
    ∃ native, repo'.objects = repo.objects.insert oid ⟨kind, body, native⟩ ∧
      (repo.poisoned = true → repo'.poisoned = true) := by
  obtain ⟨_, r1, hcall, h1⟩ := bind_ok h
  obtain ⟨_, r2, hfail, h2⟩ := bind_ok h1
  obtain ⟨-, rfl⟩ := failIf_ok hfail
  obtain ⟨_, r3, hrdy, h3⟩ := bind_ok h2
  obtain ⟨-, rfl⟩ := ready_ok hrdy
  obtain ⟨_, r4, hcall', h4⟩ := bind_ok h3
  obtain ⟨_, r5, hsum, h5⟩ := bind_ok h4
  obtain ⟨-, rfl⟩ := failIf_ok hsum
  obtain ⟨optimized, r6, hgets, h6⟩ := bind_ok h5
  obtain ⟨-, rfl⟩ := gets_ok hgets
  obtain ⟨-, rfl⟩ := Prod.mk.inj h6
  have hk := keeps_call .canceled repo
  rw [hcall] at hk
  have hk' := keeps_call .failed r3
  rw [hcall'] at hk'
  refine ⟨optimized, ?_, fun hp => hk'.2 (hk.2 hp)⟩
  show r6.objects.insert oid _ = _
  rw [hk'.1, hk.1]

/-- Inserting an object takes it off the required ones. -/
lemma insertObject_ok (h : insertObject env oid obj s = (.ok (), s')) :
    (s.repo.poisoned = true → s'.repo.poisoned = true) ∧ (s'.repo.poisoned = false →
      s'.storer.edgeHints = s.storer.edgeHints ∧ s'.storer.required = s.storer.required.erase oid ∧
      ((∃ o, s.repo.objects.find oid = some o) ∧ s'.repo.objects = s.repo.objects ∨ s.repo.objects.find oid = none ∧
          ∃ native, s'.repo.objects = s.repo.objects.insert oid ⟨obj.kind, obj.body, native⟩)) := by
  obtain ⟨found, t, hhead, h1⟩ := bind_ok h
  obtain ⟨repo, hrun, rfl⟩ := onRepo_ok hhead
  obtain ⟨found', repo', hspec, hfound⟩ := gitObjectHeader_spec oid s.repo
  obtain ⟨heq, rfl⟩ := Prod.mk.inj (hspec.symm.trans hrun)
  obtain rfl := Except.ok.inj heq
  obtain ⟨hobj, hp⟩ := poisoned_of_keeps (keeps_gitObjectHeader oid) hrun
  cases found' with
  | some v =>
    obtain rfl := modifyStorer_ok h1
    refine ⟨hp, fun _ => ⟨rfl, rfl, .inl ⟨?_, hobj⟩⟩⟩
    rcases hfound with hsome | ⟨hnone, -⟩
    · obtain ⟨o, ho, -⟩ := map_eq_some_iff.mp hsome.symm
      exact ⟨o, ho⟩
    · cases hnone
  | none =>
  obtain ⟨_, t, hon, h2⟩ := bind_ok h1
  obtain ⟨repo2, hput, rfl⟩ := onRepo_ok hon
  obtain rfl := modifyStorer_ok h2
  obtain ⟨native, hins, hp2⟩ := putGitObject_ok hput
  refine ⟨fun h => hp2 (hp h), fun hclean => ⟨rfl, rfl, .inr ⟨?_, native, ?_⟩⟩⟩
  · rcases hfound with hnone | ⟨-, hpois⟩
    · exact map_eq_none_iff.mp hnone.symm
    · change repo2.poisoned = false at hclean
      rw [hp2 hpois] at hclean
      cases hclean
  · show repo2.objects = _
    rw [hins, ← hobj]

/-- One object more is settled. -/
lemma setEncodedObject_settled (taken : List EncodedObject) (h : setEncodedObject env obj s = (.ok (), s')) :
    (s.repo.poisoned = true → s'.repo.poisoned = true) ∧
      (s'.repo.poisoned = false → ¬ obj.NamesItself env → Settled taken s → Settled (taken ++ [obj]) s') := by
  obtain ⟨_, s1, hcontext, h1⟩ := bind_ok h
  obtain ⟨repo1, hcall, rfl⟩ := onRepo_ok hcontext
  obtain ⟨hobj1, hp1⟩ := poisoned_of_keeps (keeps_call _) hcall
  obtain ⟨_, s2, htype, h2⟩ := bind_ok h1
  obtain ⟨-, rfl⟩ := failIf_ok htype
  obtain ⟨want, s3, hgets, h3⟩ := bind_ok h2
  obtain ⟨rfl, rfl⟩ := gets_ok hgets
  obtain ⟨_, s4, hreq, h4⟩ := bind_ok h3
  obtain ⟨hwant, rfl⟩ := failIf_ok hreq
  obtain ⟨_, s5, hlim, h5⟩ := bind_ok h4
  obtain ⟨-, rfl⟩ := failIf_ok hlim
  obtain ⟨_, t, hlinks, h6⟩ := bind_ok h5
  obtain ⟨_, t1, hinsert, hstorage⟩ := bind_ok h6
  obtain ⟨repo2, hcall2, rfl⟩ := onRepo_ok hstorage
  obtain ⟨hobj2, hp2⟩ := poisoned_of_keeps (keeps_call _) hcall2
  obtain ⟨hp3, hinserted⟩ := insertObject_ok hinsert
  have hstep := advances_of_repo hobj1 hp1
  obtain ⟨hnoerr, hadv⟩ : (gitLinks obj.kind obj.body 20).2 = none ∧
      Advances (gitLinks obj.kind obj.body 20).1 s t := by
    unfold when at hlinks
    split at hlinks
    · obtain ⟨hnoerr, hadv⟩ := requireLinks_advances hlinks
      exact ⟨hnoerr, hstep.trans hadv⟩
    next hkind =>
    obtain ⟨-, rfl⟩ := Prod.mk.inj hlinks
    rw [not_not.mp hkind, gitLinks_blob]
    exact ⟨rfl, hstep⟩
  refine ⟨fun hp => hp2 (hp3 (hadv.poisoned hp)), fun hclean hself hs => ?_⟩
  have hclean1 := clean_of_clean hp2 hclean
  have hclean0 := clean_of_clean hp3 hclean1
  obtain ⟨hhints, hreqd, hobjs⟩ := hinserted hclean1
  obtain ⟨hhints', hedges⟩ := hadv.hints hclean0 hs.hints
  -- what is waited for under this identity is of this object's kind
  have hkind : ∀ k, t.storer.required.find (oidOf env obj.kind obj.body) = some k →
      k = obj.kind ∧ s.repo.objects.find (oidOf env obj.kind obj.body) = none := by
    intro k hk
    rcases hadv.added hclean0 _ k hk with hold | ⟨hnone, hmem⟩
    · exact ⟨eq_of_not_conflict hwant hold, hs.pending _ _ hold⟩
    · refine ⟨?_, hnone⟩
      by_contra hne
      exact hself ⟨_, hmem, rfl, hne⟩
  have hfind : ∀ id, id ≠ oidOf env obj.kind obj.body → repo2.objects.find id = s.repo.objects.find id := by
    intro id hid
    rw [hobj2]
    rcases hobjs with ⟨-, hsame⟩ | ⟨-, native, hins⟩
    · rw [hsame, hadv.objects]
    · rw [hins, find_insert, if_neg hid, hadv.objects]
  have hres : ∀ {id k}, t.Resolves id k → Resolves { t1 with repo := repo2 } id k := by
    intro id k hr
    have hreq : ({ t1 with repo := repo2 } : Session).storer.required =
        t.storer.required.erase (oidOf env obj.kind obj.body) := hreqd
    refine resolves_of_erase hreq (fun id hid => by rw [hadv.objects]; exact hfind id hid)
      (fun k hr => ?_) hr
    show ∃ o, repo2.objects.find _ = some o ∧ o.kind = k
    rw [hobj2]
    rcases hobjs with ⟨⟨o, ho⟩, hsame⟩ | ⟨hnone, native, hins⟩
    · rcases hr with hthere | hreq
      · rw [hsame]
        exact hthere
      · rw [hadv.objects, (hkind k hreq).2] at ho
        cases ho
    · rcases hr with ⟨o, ho, -⟩ | hreq
      · rw [hnone] at ho
        cases ho
      · refine ⟨⟨obj.kind, obj.body, native⟩, ?_, (hkind k hreq).1.symm⟩
        rw [hins, find_insert, if_pos rfl]
  constructor
  case hints =>
    intro slot hint hslot hne
    change t1.storer.edgeHints.find slot = some hint at hslot
    rw [hhints] at hslot
    exact hres (hhints' slot hint hslot hne)
  case pending =>
    intro id k hk
    change t1.storer.required.find id = some k at hk
    show repo2.objects.find id = none
    rw [hreqd, find_erase] at hk
    split at hk
    · cases hk
    next hid =>
    rw [hfind id hid]
    rcases hadv.added hclean0 id k hk with hold | ⟨hnone, -⟩
    · exact hs.pending id k hold
    · exact hnone
  case edges =>
    intro x hx
    rcases mem_append.mp hx with hold | hnew
    · obtain ⟨hnone, hall⟩ := hs.edges x hold
      exact ⟨hnone, fun edge hedge => hres (hadv.resolves (hall edge hedge))⟩
    · obtain rfl := mem_singleton.mp hnew
      exact ⟨hnoerr, fun edge hedge => hres (hedges edge hedge)⟩

lemma accountLinks_links (h : accountLinks oid kind links s = (.ok (), s')) :
    kind = gitBlob ∨ ∃ t t', links t = (.ok (), t') := by
  obtain ⟨_, t, hcheck, -⟩ := bind_ok h
  obtain ⟨_, t1, -, hcheck1⟩ := bind_ok hcheck
  obtain ⟨_, t2, -, hcheck2⟩ := bind_ok hcheck1
  unfold when at hcheck2
  split at hcheck2
  · exact .inr ⟨t2, t, hcheck2⟩
  next hkind => exact .inl (not_not.mp hkind)

/-- The identity of what `Ingest` reads is the hash of its bytes. -/
lemma ingestRead_oid {full : Bytes} {base oid : GitOID} {exts : List Repo.Extent} {size : Nat}
    (h : ingestRead env kind full base exts size repo = (.ok (oid, body), repo')) : oid = oidOf env kind body := by
  obtain ⟨_, r1, -, h1⟩ := bind_ok h
  obtain ⟨_, r2, -, h2⟩ := bind_ok h1
  obtain ⟨_, r3, -, h3⟩ := bind_ok h2
  obtain ⟨_, r4, -, h4⟩ := bind_ok h3
  obtain ⟨_, r5, -, h5⟩ := bind_ok h4
  obtain ⟨rfl, rfl⟩ := Prod.mk.inj (Except.ok.inj (Prod.mk.inj h5).1)
  rfl

/-- An object that is stored and accounted for is settled. -/
lemma accountBody_settled (hsto : ingestStore oid kind body s.repo = (.ok (), repo))
    (h : accountBody oid kind body { s with repo } = (.ok (), s'))
    (hclean : s'.repo.poisoned = false) (hs : Settled taken s) : Settled (taken ++ [⟨kind, body⟩]) s' := by
  obtain ⟨-, hobj⟩ := (ingestStore_spec oid kind body s.repo).ok hsto
  have hfind : ∀ id, id ≠ oid → repo.objects.find id = s.repo.objects.find id := by
    intro id hid
    rcases hobj with ⟨hsame, -⟩ | ⟨-, hins⟩
    · rw [hsame]
    · rw [hins, find_insert, if_neg hid]
  have hkept : ∀ {id k}, s.Resolves id k → Resolves { s with repo } id k := by
    intro id k hr
    rcases hr with ⟨o, ho, hk⟩ | hreq
    · refine .inl ⟨o, ?_, hk⟩
      show repo.objects.find id = some o
      rcases hobj with ⟨hsame, -⟩ | ⟨hnone, hins⟩
      · rw [hsame]
        exact ho
      · rw [hins, find_insert, if_neg, ho]
        rintro rfl
        rw [hnone] at ho
        cases ho
    · exact .inr hreq
  have hlinks : ∀ t t', requireLinks kind body t = (.ok (), t') →
      Advances (gitLinks kind body 20).1 t t' := fun t t' ht => (requireLinks_advances ht).2
  have hblob : kind = gitBlob → (gitLinks kind body 20).1 = [] := by
    rintro rfl
    rw [gitLinks_blob]
  obtain ⟨hobj', htakes⟩ := accountLinks_closes hlinks hblob h hclean
    (fun slot hint hslot hne => hkept (hs.hints slot hint hslot hne)) (by
      rcases hobj with ⟨hsame, hhas⟩ | ⟨-, hins⟩
      · obtain ⟨o, ho⟩ := isSome_iff_exists.mp hhas
        refine ⟨o, by show repo.objects.find oid = _; rw [hsame]; exact ho, fun hreq => ?_⟩
        rw [hs.pending oid kind hreq] at ho
        cases ho
      · refine ⟨⟨kind, body, true⟩, ?_, fun _ => rfl⟩
        show repo.objects.find oid = _
        rw [hins, find_insert, if_pos rfl])
  have hnoerr : (gitLinks kind body 20).2 = none := by
    rcases accountLinks_links h with rfl | ⟨t, t', ht⟩
    · rw [gitLinks_blob]
    · exact (requireLinks_advances ht).1
  refine ⟨htakes.hints, fun id k hk => ?_, fun x hx => ?_⟩
  · obtain ⟨hne, hreq⟩ := htakes.required id k hk
    rw [hobj']
    rcases hreq with hold | hnone
    · rw [show ({ s with repo } : Session).repo.objects.find id = _ from hfind id hne]
      exact hs.pending id k hold
    · exact hnone
  · rcases mem_append.mp hx with hold | hnew
    · obtain ⟨hnone, hall⟩ := hs.edges x hold
      exact ⟨hnone, fun edge hedge => htakes.kept _ _ (hkept (hall edge hedge))⟩
    · obtain rfl := mem_singleton.mp hnew
      exact ⟨hnoerr, htakes.edges⟩

/-- A computation that keeps what is settled, unless the repository is poisoned. -/
def Settles {α : Type} (m : ExtentsM α) : Prop :=
  ∀ t a t', m t = (.ok a, t') →
    (t.session.repo.poisoned = true → t'.session.repo.poisoned = true) ∧
    (t'.session.repo.poisoned = false → Settled t.ingested t.session → Settled t'.ingested t'.session)

section

variable {α β : Type}

lemma settles_same {m : ExtentsM α} (h : ∀ t a t', m t = (.ok a, t') → t' = t) : Settles m := by
  intro t a t' hrun
  obtain rfl := h t a t' hrun
  exact ⟨id, fun _ => id⟩

lemma settles_pure (a : α) : Settles (pure a) :=
  settles_same fun _ _ _ h => (Prod.mk.inj h).2.symm

lemma settles_failIf (c : Prop) [Decidable c] (e : Err) : Settles (failIf c e) :=
  settles_same fun _ _ _ h => (failIf_ok h).2

lemma settles_ofExcept (x : Except Err α) : Settles (ofExcept x) :=
  settles_same fun _ _ _ h => (ofExcept_ok h).2

/-- Computations that settle can be put in a row. -/
lemma settles_bind {m : ExtentsM α} {f : α → ExtentsM β} (hm : Settles m)
    (hf : ∀ a, Settles (f a)) : Settles (m >>= f) := by
  intro t b t' hrun
  obtain ⟨a, t1, h1, h2⟩ := bind_ok hrun
  obtain ⟨hp, hs⟩ := hm t a t1 h1
  obtain ⟨hp', hs'⟩ := hf a t1 b t' h2
  exact ⟨fun h => hp' (hp h), fun hclean h => hs' hclean (hs (clean_of_clean hp' hclean) h)⟩

lemma settles_keeps {m : RepoM α} (hm : Keeps m) : Settles (onSession (onRepo m)) := by
  intro t a t' hrun
  obtain ⟨sess, hon, rfl⟩ := zoom_ok hrun
  obtain ⟨repo, hcall, rfl⟩ := onRepo_ok hon
  obtain ⟨hobj, hp⟩ := poisoned_of_keeps hm hcall
  exact ⟨hp, fun _ hs => hs.setRepo hobj⟩

lemma ingestGitBody_ok {env : Env} {kind : UInt8} {full : Bytes} {base oid : GitOID}
    {exts : List Repo.Extent} {size : Nat} {body : Bytes} {repo repo' : Repository}
    (h : ingestGitBody env kind full base exts size repo = (.ok (oid, body), repo')) :
    ∃ repo1, repo1.objects = repo.objects ∧ (repo.poisoned = true → repo1.poisoned = true) ∧
      ingestStore oid kind body repo1 = (.ok (), repo') := by
  obtain ⟨⟨oid1, body1⟩, repo1, hread, h1⟩ := bind_ok h
  obtain ⟨_, repo2, hsto, h2⟩ := bind_ok h1
  obtain ⟨heq, rfl⟩ := Prod.mk.inj h2
  obtain ⟨rfl, rfl⟩ := Prod.mk.inj (Except.ok.inj heq)
  have hkeep := keeps_ingestRead env kind full base exts size repo
  rw [hread] at hkeep
  exact ⟨repo1, hkeep.1, hkeep.2, hsto⟩

/-- Ingesting an entry settles it. -/
lemma settles_ingestEntry (env : Env) (off : Nat) (kind : UInt8) (full : Bytes)
    (base : GitOID) (exts : List Repo.Extent) (size : Nat) :
    Settles (ingestEntry env off kind full base exts size) := by
  intro t u t' hrun
  obtain ⟨⟨oid, body⟩, t1, hingest, h1⟩ := bind_ok hrun
  obtain ⟨sess1, hon, rfl⟩ := zoom_ok hingest
  obtain ⟨repo, hbody, rfl⟩ := onRepo_ok hon
  obtain ⟨repo1, hobj, hp, hsto⟩ := ingestGitBody_ok hbody
  obtain ⟨_, t2, hghost, h2⟩ := bind_ok h1
  obtain ⟨-, rfl⟩ := Prod.mk.inj hghost
  obtain ⟨_, t3, haccount, h3⟩ := bind_ok h2
  obtain ⟨sess, hacc, rfl⟩ := zoom_ok haccount
  obtain ⟨-, rfl⟩ := Prod.mk.inj h3
  have hclean1 := ((ingestStore_spec oid kind body repo1).ok hsto).1
  refine ⟨fun hpois => Bool.noConfusion ((hp hpois).symm.trans hclean1), fun hclean hs => ?_⟩
  have hmid := hs.setRepo hobj
  have hsto' : ingestStore oid kind body ({ t.session with repo := repo1 } : Session).repo =
      (.ok (), repo) := hsto
  exact accountBody_settled hsto' hacc hclean hmid

lemma settles_processBody (env : Env) (h : PackEntry) (kind : UInt8) (base : GitOID)
    (baseSize : Nat) : Settles (processBody env h kind base baseSize) := by
  refine settles_bind (settles_keeps (keeps_call _)) fun _ => settles_bind (settles_ofExcept _) fun _ => ?_
  split
  · exact settles_bind (settles_ofExcept _) fun _ => settles_ingestEntry _ _ _ _ _ _ _
  · exact settles_ingestEntry _ _ _ _ _ _ _

/-- One entry. -/
lemma settles_process (env : Env) (h : PackEntry) : Settles (process env h) := by
  refine settles_bind (settles_keeps (keeps_call _)) fun _ =>
    settles_bind (settles_failIf _ _) fun _ => settles_bind ?_ fun base => ?_
  · unfold entryBase
    split
    · exact settles_same fun _ _ _ h => (gets_ok h).2
    · exact settles_pure _
    · exact settles_pure _
  split
  · refine settles_bind (settles_keeps (keeps_gitObjectHeader base)) fun found => ?_
    cases found with
    | none => exact settles_bind (settles_keeps (keeps_call _)) fun _ => settles_pure _
    | some p => exact settles_bind (settles_processBody _ _ _ _ _) fun _ => settles_pure _
  · exact settles_bind (settles_processBody _ _ _ _ _) fun _ => settles_pure _

/-- One pass over the entries. -/
lemma settles_processAll (env : Env) (entries : List PackEntry) : Settles (processAll env entries) := by
  induction entries with
  | nil => exact settles_pure _
  | cons h rest ih =>
    exact settles_bind (settles_keeps (keeps_call _)) fun _ =>
      settles_bind (settles_process env h) fun _ => settles_bind ih fun _ => settles_pure _

/-- All passes. -/
lemma settles_passes (env : Env) (left : Nat) (pending : List PackEntry) : Settles (passes env left pending) := by
  induction left generalizing pending with
  | zero => exact settles_failIf _ _
  | succ left ih =>
  unfold passes
  split
  · exact settles_pure _
  · exact settles_bind (settles_processAll env pending) fun next => settles_bind (settles_failIf _ _) fun _ => ih next

/-- The sequential import. -/
lemma settles_importExtents (env : Env) (pack : Pack) (expected : Nat) : Settles (importExtents env pack expected) :=
  settles_bind (settles_keeps (keeps_call _)) fun _ => settles_bind (settles_failIf _ _) fun _ =>
    settles_bind (settles_processAll env _) fun _ => settles_bind (settles_keeps (keeps_call _)) fun _ =>
      settles_bind (settles_passes env _ _) fun _ => settles_pure _

end

end Trex.GitStore
