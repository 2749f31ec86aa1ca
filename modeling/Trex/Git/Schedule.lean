import Mathlib.Data.List.Nodup
import Trex.Git.Parallel

/-!
# What the scheduler's lists hold

`Sched.Inv`: every object scanned so far is dispatched, ready, or linked into the list of the one base it
waits for.  The loop reads a header (`Inv.addHeader`), takes a job (`Inv.take`) and releases what waited
(`Inv.release`).
-/

namespace Trex.GitStore

open List Function Option

open Trex.Repo (GitOID zeroOID)

section

variable (es : List PackEntry)

/-- Object `p` is the base that the offset delta `i` names. -/
def Parent (i p : Nat) : Prop :=
  p < i ∧ ∃ h hp, es[i]? = some h ∧ es[p]? = some hp ∧ h.type = .ofsDelta ∧ (hp.offset : Int) = h.offsetReference

/-- The reference delta `i` names its base by the identity `oid`. -/
def Names (i : Nat) (oid : GitOID) : Prop :=
  ∃ h, es[i]? = some h ∧ h.type = .refDelta ∧ gitOID h.reference = oid

/-- Object `i` is stored whole, not as a delta. -/
def IsRoot (i : Nat) : Prop :=
  ∃ h, es[i]? = some h ∧ h.type ∈ [ObjectType.commit, .tree, .blob, .tag]

end

variable {es : List PackEntry}

/-- An offset delta has one parent. -/
lemma Parent.unique (hinc : es.Pairwise fun a b => a.offset < b.offset) {i p q : Nat}
    (hp : Parent es i p) (hq : Parent es i q) : p = q := by
  obtain ⟨-, h, hp, hi, hpe, -, hpo⟩ := hp
  obtain ⟨-, h', hq, hi', hqe, -, hqo⟩ := hq
  obtain rfl : h = h' := some.inj (hi.symm.trans hi')
  obtain ⟨hplt, rfl⟩ := List.getElem?_eq_some_iff.mp hpe
  obtain ⟨hqlt, rfl⟩ := List.getElem?_eq_some_iff.mp hqe
  rw [pairwise_iff_getElem] at hinc
  rcases lt_trichotomy p q with hlt | heq | hlt
  · have := hinc p q hplt hqlt hlt
    omega
  · exact heq
  · have := hinc q p hqlt hplt hlt
    omega

lemma Names.unique {i : Nat} {oid oid' : GitOID} (h : Names es i oid) (h' : Names es i oid') : oid = oid' := by
  obtain ⟨e, he, -, rfl⟩ := h
  obtain ⟨e', he', -, rfl⟩ := h'
  rw [some.inj (he.symm.trans he')]

lemma Parent.not_names {i p : Nat} {oid : GitOID} (h : Parent es i p) : ¬ Names es i oid := by
  rintro ⟨e, he, htype, -⟩
  obtain ⟨-, e', -, he', -, htype', -⟩ := h
  obtain rfl := some.inj (he.symm.trans he')
  rw [htype] at htype'
  cases htype'

namespace Sched

/-- What has been dispatched or can be. -/
def free (s : Sched) (dispatched : List Nat) : List Nat :=
  dispatched ++ (s.ready ++ s.roots.drop s.rootPos)

/-- The base of an object is there, and its node knows it. -/
def Runnable (s : Sched) (es : List PackEntry) (has : GitOID → Prop) (i : Nat) : Prop :=
  (IsRoot es i ∧ (s.nodes i).base = zeroOID) ∨
  (∃ p, Parent es i p ∧ (s.nodes p).done = true ∧ (s.nodes i).base = (s.nodes p).base) ∨
  (Names es i (s.nodes i).base ∧ has (s.nodes i).base)

/-- Every scanned object is free or waits in one list for its base. -/
structure Inv (es : List PackEntry) (has : GitOID → Prop) (dispatched : List Nat) (s : Sched) :
    Prop where
  scanned_le : s.scanned ≤ es.length
  descending : Chain.Descending s.next
  child_le : ∀ p, (s.nodes p).child ≤ s.scanned
  waiting_le : ∀ oid, (s.waiting.find oid).getD 0 ≤ s.scanned
  rootPos_le : s.rootPos ≤ s.roots.length
  fresh : ∀ i, s.scanned ≤ i → s.nodes i = {}
  offset : ∀ i h, i < s.scanned → es[i]? = some h → (s.nodes i).offset = h.offset
  offsets : ∀ o link, s.offsets.find o = some link →
    ∃ p hp, link = p + 1 ∧ p < s.scanned ∧ es[p]? = some hp ∧ (hp.offset : Int) = o
  known : ∀ p hp, p < s.scanned → es[p]? = some hp → s.offsets.find hp.offset = some (p + 1)
  nodup : (s.free dispatched).Nodup
  free_lt : ∀ i ∈ s.free dispatched, i < s.scanned
  free_parent : ∀ i ∈ s.free dispatched, ∀ p, Parent es i p → (s.nodes p).done = true
  runnable : ∀ i ∈ s.ready ++ s.roots.drop s.rootPos, s.Runnable es has i
  kid : ∀ p, (s.nodes p).done = false → ∀ j, j ∈ s.children p ↔ j < s.scanned ∧ Parent es j p
  waiter : ∀ oid j, j ∈ s.waiters oid →
    j < s.scanned ∧ Names es j oid ∧ (s.nodes j).base = oid ∧ j ∉ s.free dispatched
  covered : ∀ j, j < s.scanned → j ∈ s.free dispatched ∨
    (∃ p, Parent es j p ∧ (s.nodes p).done = false) ∨ ∃ oid, j ∈ s.waiters oid
  done : ∀ p, (s.nodes p).done = true → p ∈ dispatched ∧ has (s.nodes p).base

variable {has : GitOID → Prop} {dispatched : List Nat} {s : Sched}

lemma take_eq (s : Sched) (fromRoot : Bool) : ∃ ready rootPos,
    s.take fromRoot = { s with ready, rootPos, active := s.active + 1 } := by
  unfold take
  split
  · exact ⟨_, _, rfl⟩
  · exact ⟨_, _, rfl⟩

lemma inv_init (es : List PackEntry) (has : GitOID → Prop) : Inv es has [] {} where
  scanned_le := Nat.zero_le _
  descending := fun _ => Nat.zero_le _
  child_le := fun _ => le_rfl
  waiting_le := fun _ => le_rfl
  rootPos_le := le_rfl
  fresh := fun _ _ => rfl
  offset := fun _ _ h => absurd h (Nat.not_lt_zero _)
  offsets := fun o link h => by simp at h
  known := fun _ _ h => absurd h (Nat.not_lt_zero _)
  nodup := nodup_nil
  free_lt := fun i h => by simp [free] at h
  free_parent := fun i h => by simp [free] at h
  runnable := fun i h => by simp at h
  kid := fun p _ j => by simp [children, Chain.cells, Chain.walk]
  waiter := fun oid j h => by simp [waiters, Chain.cells, Chain.walk] at h
  covered := fun _ h => absurd h (Nat.not_lt_zero _)
  done := fun p h => by simp at h

variable {has' first : GitOID → Prop} {i p : Nat} {h : PackEntry} {s' : Sched} {present : Bool}

lemma Runnable.mono (h : ∀ oid, has oid → has' oid) (hrun : s.Runnable es has i) : s.Runnable es has' i := by
  rcases hrun with hroot | hpar | ⟨hnames, hhas⟩
  · exact .inl hroot
  · exact .inr (.inl hpar)
  · exact .inr (.inr ⟨hnames, h _ hhas⟩)

section

variable (hinv : Inv es has dispatched s)

include hinv

lemma Inv.mono (h : ∀ oid, has oid → has' oid) : Inv es has' dispatched s where
  __ := hinv
  runnable := fun i hi => (hinv.runnable i hi).mono h
  done := fun p hp => ⟨(hinv.done p hp).1, h _ (hinv.done p hp).2⟩

/-- An object that is not done keeps its children to itself. -/
lemma Inv.kid_not_free {p j : Nat} (hp : (s.nodes p).done = false) (hj : j ∈ s.children p)
    : j ∉ s.free dispatched := by
  intro hfree
  have := hinv.free_parent j hfree p ((hinv.kid p hp j).mp hj).2
  rw [hp] at this
  cases this

/-! ## Taking a job -/

/-- Taking a job keeps the schedule, and the job is new and runnable. -/
lemma Inv.take {fromRoot : Bool} (h : s.available = some (i, fromRoot)) :
    Inv es has (dispatched ++ [i]) (s.take fromRoot) ∧ i ∉ dispatched ∧ s.Runnable es has i := by
  have hsplit : ∃ ready roots, s.take fromRoot =
      { s with ready, rootPos := roots, active := s.active + 1 } ∧ roots ≤ s.roots.length ∧
      s.ready ++ s.roots.drop s.rootPos = i :: (ready ++ s.roots.drop roots) := by
    unfold available at h
    cases hrdy : s.ready with
    | cons j rest =>
      simp only [hrdy, some.injEq, Prod.mk.injEq] at h
      obtain ⟨rfl, rfl⟩ := h
      exact ⟨rest, s.rootPos, by simp [Sched.take, hrdy], hinv.rootPos_le, by simp⟩
    | nil =>
    simp only [hrdy, map_eq_some_iff, Prod.mk.injEq] at h
    obtain ⟨j, hget, rfl, rfl⟩ := h
    obtain ⟨hlt, rfl⟩ := List.getElem?_eq_some_iff.mp hget
    refine ⟨[], s.rootPos + 1, by simp [Sched.take, hrdy], hlt, ?_⟩
    simp
  obtain ⟨ready, rootPos, htake, hle, hlist⟩ := hsplit
  have hfree : (s.take fromRoot).free (dispatched ++ [i]) = s.free dispatched := by
    rw [htake, free, free, hlist]
    simp
  have hsub : ∀ j, j ∈ ready ++ s.roots.drop rootPos → j ∈ s.ready ++ s.roots.drop s.rootPos := by
    intro j hj
    rw [hlist]
    exact mem_cons_of_mem _ hj
  refine ⟨?_, ?_, hinv.runnable i (by rw [hlist]; exact mem_cons_self)⟩
  · constructor
    case nodup => rw [hfree]; exact hinv.nodup
    case free_lt => rw [hfree, htake]; exact hinv.free_lt
    case free_parent => rw [hfree, htake]; exact hinv.free_parent
    case waiter => rw [hfree, htake]; exact hinv.waiter
    case covered => rw [hfree, htake]; exact hinv.covered
    case done =>
      rw [htake]
      exact fun p hp => ⟨mem_append_left _ (hinv.done p hp).1, (hinv.done p hp).2⟩
    case runnable =>
      rw [htake]
      exact fun j hj => hinv.runnable j (hsub j hj)
    case rootPos_le => rw [htake]; exact hle
    all_goals rw [htake]
    · exact hinv.scanned_le
    · exact hinv.descending
    · exact hinv.child_le
    · exact hinv.waiting_le
    · exact hinv.fresh
    · exact hinv.offset
    · exact hinv.offsets
    · exact hinv.known
    · exact hinv.kid
  · intro hi
    have hnodup := hinv.nodup
    rw [free, hlist, nodup_append] at hnodup
    exact hnodup.2.2 i hi i mem_cons_self rfl

end

/-! ## Releasing what waits for an object -/

section

variable {i : Nat} {oid : GitOID}

lemma release_next : (s.release i oid).next = s.next := by
  funext j
  unfold next release
  dsimp only
  split
  · rfl
  split <;> rfl

lemma release_child (j : Nat) : ((s.release i oid).nodes j).child = (s.nodes j).child := by
  unfold release
  dsimp only
  split
  · rfl
  split <;> rfl

lemma release_done (j : Nat) : ((s.release i oid).nodes j).done = if j = i then true else (s.nodes j).done := by
  unfold release
  dsimp only
  split
  · rfl
  split <;> rfl

lemma release_base (j : Nat) : ((s.release i oid).nodes j).base =
    if j = i then oid else if j ∈ s.children i then oid else (s.nodes j).base := by
  unfold release
  dsimp only
  split
  · rfl
  split <;> rfl

lemma release_offset (j : Nat) : ((s.release i oid).nodes j).offset = (s.nodes j).offset := by
  unfold release
  dsimp only
  split
  · rfl
  split <;> rfl

lemma release_waiters (oid' : GitOID) :
    (s.release i oid).waiters oid' = if oid' = oid then [] else s.waiters oid' := by
  unfold waiters
  rw [release_next]
  have : (s.release i oid).waiting = s.waiting.erase oid := rfl
  rw [this, SortedMap.find_erase]
  split <;> rfl

lemma release_free : (s.release i oid).free dispatched =
    dispatched ++ ((s.waiters oid).reverse ++ ((s.children i).reverse ++ s.ready) ++ s.roots.drop s.rootPos) := rfl

/-- What is free after a release: the waiters, the children and what was free. -/
lemma mem_release_free (j : Nat) : j ∈ (s.release i oid).free dispatched ↔
    j ∈ s.waiters oid ∨ j ∈ s.children i ∨ j ∈ s.free dispatched := by
  rw [release_free, free]
  simp only [mem_append, mem_reverse]
  tauto

end

/-- The node of `i` and those of its children change, no other. -/
lemma release_nodes {i j : Nat} {oid : GitOID} (hne : j ≠ i) (hj : j ∉ s.children i) :
    (s.release i oid).nodes j = s.nodes j := by
  unfold Sched.release
  dsimp only
  rw [if_neg hne, if_neg hj]

lemma release_done_mono {i p : Nat} {oid : GitOID} (hp : (s.nodes p).done = true) :
    ((s.release i oid).nodes p).done = true := by
  rw [release_done]
  split
  · rfl
  · exact hp

section

variable (hinv : Inv es has dispatched s) {oid : GitOID} (hund : (s.nodes i).done = false)

include hinv

/-- A delta waits for an offset or for an identity, not for both. -/
lemma Inv.kid_not_waiter {p j : Nat} (hp : (s.nodes p).done = false) (hj : j ∈ s.children p) :
    j ∉ s.waiters oid := fun hw =>
  ((hinv.kid p hp j).mp hj).2.not_names (hinv.waiter oid j hw).2.1

include hund

lemma Inv.release_base_free {j : Nat} (hj : j ∈ s.free dispatched) (hne : j ≠ i) :
    ((s.release i oid).nodes j).base = (s.nodes j).base := by
  rw [release_nodes hne fun hk => hinv.kid_not_free hund hk hj]

/-- The three parts of what is free afterwards do not meet. -/
lemma Inv.release_nodup : ((s.release i oid).free dispatched).Nodup := by
  have hkidFree : ∀ j ∈ s.children i, j ∉ s.free dispatched := fun j => hinv.kid_not_free hund
  have hwaitFree : ∀ j ∈ s.waiters oid, j ∉ s.free dispatched := fun j hj => (hinv.waiter oid j hj).2.2.2
  have hfree := hinv.nodup
  rw [free, nodup_append] at hfree
  obtain ⟨hd, hrest, hdisj⟩ := hfree
  rw [release_free, append_assoc, append_assoc, nodup_append]
  refine ⟨hd, ?_, ?_⟩
  · rw [nodup_append]
    refine ⟨nodup_reverse.mpr (Chain.nodup_cells hinv.descending _), ?_, ?_⟩
    · rw [nodup_append]
      refine ⟨nodup_reverse.mpr (Chain.nodup_cells hinv.descending _), hrest, ?_⟩
      rintro a ha b hb rfl
      exact hkidFree a (mem_reverse.mp ha) (mem_append_right _ hb)
    · rintro a ha b hb rfl
      rcases mem_append.mp hb with hb | hb
      · exact hinv.kid_not_waiter hund (mem_reverse.mp hb) (mem_reverse.mp ha)
      · exact hwaitFree a (mem_reverse.mp ha) (mem_append_right _ hb)
  rintro a ha b hb rfl
  have hafree : a ∈ s.free dispatched := mem_append_left _ ha
  rcases mem_append.mp hb with hb | hb
  · exact hwaitFree a (mem_reverse.mp hb) hafree
  · rcases mem_append.mp hb with hb | hb
    · exact hkidFree a (mem_reverse.mp hb) hafree
    · exact hdisj a ha a hb rfl

variable (hi : i ∈ dispatched)

include hi

/-- What could run before still can: `i` itself has been taken, and it was not done as a base. -/
lemma Inv.release_runnable_old {j : Nat} (hj : j ∈ s.ready ++ s.roots.drop s.rootPos) :
    (s.release i oid).Runnable es has j := by
  have hji : j ≠ i := by
    rintro rfl
    have hnodup := hinv.nodup
    rw [free, nodup_append] at hnodup
    exact hnodup.2.2 j hi j hj rfl
  have hbase : ((s.release i oid).nodes j).base = (s.nodes j).base :=
    hinv.release_base_free hund (mem_append_right _ hj) hji
  rcases hinv.runnable j hj with ⟨hroot, hzero⟩ | ⟨p, hp, hpd, hpb⟩ | ⟨hnames, hh⟩
  · exact .inl ⟨hroot, by rw [hbase]; exact hzero⟩
  · refine .inr (.inl ⟨p, hp, release_done_mono hpd, ?_⟩)
    have hpi : p ≠ i := fun heq => by
      rw [heq, hund] at hpd
      cases hpd
    rw [hbase, hinv.release_base_free hund (mem_append_left _ (hinv.done p hpd).1) hpi]
    exact hpb
  · exact .inr (.inr ⟨by rw [hbase]; exact hnames, by rw [hbase]; exact hh⟩)

/-- What is ready afterwards waited for the identity, hung on `i`, or was ready before. -/
lemma Inv.release_runnable (hhas : has oid) {j : Nat}
    (hj : j ∈ (s.release i oid).ready ++ (s.release i oid).roots.drop (s.release i oid).rootPos) :
    (s.release i oid).Runnable es has j := by
  have hifree : i ∈ s.free dispatched := mem_append_left _ hi
  have hcases : j ∈ s.waiters oid ∨ j ∈ s.children i ∨ j ∈ s.ready ++ s.roots.drop s.rootPos := by
    have hlist : (s.release i oid).ready ++ (s.release i oid).roots.drop (s.release i oid).rootPos =
        (s.waiters oid).reverse ++ ((s.children i).reverse ++ s.ready) ++ s.roots.drop s.rootPos := rfl
    rw [hlist] at hj
    simp only [mem_append, mem_reverse] at hj ⊢
    tauto
  rcases hcases with hw | hk | hold
  · obtain ⟨-, hnames, hbase, hnot⟩ := hinv.waiter oid j hw
    have hji : j ≠ i := fun heq => hnot (heq ▸ hifree)
    have hbase' : ((s.release i oid).nodes j).base = oid := by
      rw [release_nodes hji fun hk => hinv.kid_not_waiter hund hk hw, hbase]
    exact .inr (.inr ⟨by rw [hbase']; exact hnames, by rw [hbase']; exact hhas⟩)
  · refine .inr (.inl ⟨i, ((hinv.kid i hund j).mp hk).2, ?_, ?_⟩)
    · rw [release_done, if_pos rfl]
    · have hji : j ≠ i := fun heq => hinv.kid_not_free hund hk (heq ▸ hifree)
      rw [release_base, release_base, if_neg hji, if_pos hk, if_pos rfl]
  · exact hinv.release_runnable_old hund hi hold

/-- Those who still wait, wait for another identity. -/
lemma Inv.release_waiter {oid' : GitOID} {j : Nat} (hj : j ∈ (s.release i oid).waiters oid') :
    j < s.scanned ∧ Names es j oid' ∧ ((s.release i oid).nodes j).base = oid' ∧
      j ∉ (s.release i oid).free dispatched := by
  rw [release_waiters] at hj
  split at hj
  · simp at hj
  next hne =>
  obtain ⟨hlt, hnames, hbase, hnot⟩ := hinv.waiter oid' j hj
  have hji : j ≠ i := fun heq => hnot (heq ▸ mem_append_left _ hi)
  have hjk : j ∉ s.children i := fun hk => ((hinv.kid i hund j).mp hk).2.not_names hnames
  refine ⟨hlt, hnames, ?_, ?_⟩
  · rw [release_nodes hji hjk]
    exact hbase
  · intro hf
    rcases (mem_release_free j).mp hf with hw | hk | hf
    · exact hne (hnames.unique (hinv.waiter oid j hw).2.1)
    · exact hjk hk
    · exact hnot hf

omit hi in
/-- Nobody is lost in a release. -/
lemma Inv.release_covered {j : Nat} (hj : j < s.scanned) : j ∈ (s.release i oid).free dispatched ∨
    (∃ p, Parent es j p ∧ ((s.release i oid).nodes p).done = false) ∨ ∃ oid', j ∈ (s.release i oid).waiters oid' := by
  rcases hinv.covered j hj with hf | ⟨p, hp, hpd⟩ | ⟨oid', hw⟩
  · exact .inl ((mem_release_free j).mpr (.inr (.inr hf)))
  · by_cases hpi : p = i
    · subst hpi
      exact .inl ((mem_release_free j).mpr (.inr (.inl ((hinv.kid p hund j).mpr ⟨hj, hp⟩))))
    · exact .inr (.inl ⟨p, hp, by rw [release_done, if_neg hpi]; exact hpd⟩)
  · by_cases heq : oid' = oid
    · subst heq
      exact .inl ((mem_release_free j).mpr (.inl hw))
    · exact .inr (.inr ⟨oid', by rw [release_waiters, if_neg heq]; exact hw⟩)

end

/-- Object `i` is done with the identity `oid`: its children and the waiters for `oid` can run. -/
lemma Inv.release (hinc : es.Pairwise fun a b => a.offset < b.offset)
    (hinv : Inv es has dispatched s) {oid : GitOID} (hi : i ∈ dispatched)
    (hund : (s.nodes i).done = false) (hhas : has oid) : Inv es has dispatched (s.release i oid) where
  scanned_le := hinv.scanned_le
  descending := by rw [release_next]; exact hinv.descending
  child_le := fun p => by rw [release_child]; exact hinv.child_le p
  waiting_le := fun oid' => by
    have hwait : (s.release i oid).waiting = s.waiting.erase oid := rfl
    rw [hwait, SortedMap.find_erase]
    split
    · exact Nat.zero_le _
    · exact hinv.waiting_le oid'
  rootPos_le := hinv.rootPos_le
  fresh := fun j hj => by
    have hle : s.scanned ≤ j := hj
    have hilt := hinv.free_lt i (mem_append_left _ hi)
    rw [release_nodes (by omega) fun hk => by have := ((hinv.kid i hund j).mp hk).1; omega]
    exact hinv.fresh j hle
  offset := fun j h => by rw [release_offset]; exact hinv.offset j h
  offsets := hinv.offsets
  known := hinv.known
  nodup := hinv.release_nodup hund
  free_lt := fun j hj => by
    rcases (mem_release_free j).mp hj with hw | hk | hf
    · exact (hinv.waiter oid j hw).1
    · exact ((hinv.kid i hund j).mp hk).1
    · exact hinv.free_lt j hf
  free_parent := fun j hj p hp => by
    rcases (mem_release_free j).mp hj with hw | hk | hf
    · exact absurd (hinv.waiter oid j hw).2.1 hp.not_names
    · rw [release_done, if_pos (hp.unique hinc ((hinv.kid i hund j).mp hk).2)]
    · exact release_done_mono (hinv.free_parent j hf p hp)
  runnable := fun j hj => hinv.release_runnable hund hi hhas hj
  kid := fun p hp j => by
    rw [release_done] at hp
    split at hp
    · cases hp
    · rw [children, release_next, release_child]
      exact hinv.kid p hp j
  waiter := fun oid' j hj => hinv.release_waiter hund hi hj
  covered := fun j hj => hinv.release_covered hund hj
  done := fun p hp => by
    rw [release_done] at hp
    split at hp
    next heq =>
      rw [release_base, if_pos heq]
      exact ⟨heq ▸ hi, hhas⟩
    next hne =>
      have hd := hinv.done p hp
      rw [hinv.release_base_free hund (mem_append_left _ hd.1) hne]
      exact hd

/-! ## Reading a header -/

lemma Inv.last_not_free (hinv : Inv es has dispatched s) : s.scanned ∉ s.free dispatched :=
  fun hmem => absurd (hinv.free_lt _ hmem) (lt_irrefl _)

lemma Inv.last_not_dispatched (hinv : Inv es has dispatched s) : s.scanned ∉ dispatched :=
  fun hmem => hinv.last_not_free (mem_append_left _ hmem)

/-- What reading the header of entry `i` does apart from linking it in. -/
structure Grown (s : Sched) (h : PackEntry) (s' : Sched) : Prop where
  scanned : s'.scanned = s.scanned + 1
  offsets : s'.offsets = s.offsets.insert h.offset (s.scanned + 1)
  rootPos : s'.rootPos = s.rootPos
  offset : (s'.nodes s.scanned).offset = h.offset
  undone : (s'.nodes s.scanned).done = false
  node : ∀ j, j ≠ s.scanned → ∃ child, s'.nodes j = { s.nodes j with child }
  later : ∀ j, s.scanned < j → s'.nodes j = s.nodes j

/-- Where the new entry is linked in, and that the others keep their places. -/
structure Linked (es : List PackEntry) (has : GitOID → Prop) (dispatched : List Nat) (s s' : Sched) : Prop where
  next : s'.next s.scanned ≤ s.scanned
  child : ∀ p, (s'.nodes p).child = (s.nodes p).child ∨ (s'.nodes p).child = s.scanned + 1
  waiting : ∀ oid, (s'.waiting.find oid).getD 0 = (s.waiting.find oid).getD 0 ∨
    (s'.waiting.find oid).getD 0 = s.scanned + 1
  roots : s'.rootPos ≤ s'.roots.length
  nodup : (s'.free dispatched).Nodup
  free : ∀ j ∈ s'.free dispatched, j = s.scanned ∧ s'.Runnable es has j ∧
    (∀ p, Parent es j p → (s'.nodes p).done = true) ∨ j ∈ s.free dispatched
  ready : ∀ j ∈ s'.ready ++ s'.roots.drop s'.rootPos, j = s.scanned ∨ j ∈ s.ready ++ s.roots.drop s.rootPos
  kid : ∀ p, (s'.nodes p).done = false → ∀ j, j ∈ s'.children p ↔ j ∈ s.children p ∨ j = s.scanned ∧ Parent es j p
  waiter : ∀ oid j, j ∈ s'.waiters oid → j ∈ s.waiters oid ∨
    j = s.scanned ∧ Names es j oid ∧ (s'.nodes j).base = oid ∧ j ∉ s'.free dispatched
  keep : ∀ j ∈ s.free dispatched, j ∈ s'.free dispatched
  wait : ∀ oid, ∀ j ∈ s.waiters oid, j ∈ s'.waiters oid
  place : s.scanned ∈ s'.free dispatched ∨ (∃ p, Parent es s.scanned p ∧ (s'.nodes p).done = false) ∨
    ∃ oid, s.scanned ∈ s'.waiters oid

section

variable {h : PackEntry} {s' : Sched}

section

variable (hg : Grown s h s')

include hg

lemma Grown.done (hinv : Inv es has dispatched s) (j : Nat) : (s'.nodes j).done = (s.nodes j).done := by
  by_cases hj : j = s.scanned
  · rw [hj, hg.undone, hinv.fresh _ le_rfl]
  · obtain ⟨child, hnode⟩ := hg.node j hj
    rw [hnode]

lemma Grown.base {j : Nat} (hj : j ≠ s.scanned) : (s'.nodes j).base = (s.nodes j).base := by
  obtain ⟨child, hnode⟩ := hg.node j hj
  rw [hnode]

lemma Grown.next {j : Nat} (hj : j ≠ s.scanned) : s'.next j = s.next j := by
  obtain ⟨child, hnode⟩ := hg.node j hj
  unfold Sched.next
  rw [hnode]

section

variable (hinv : Inv es has dispatched s)

include hinv

/-- The new link goes down. -/
lemma Grown.descending (hnext : s'.next s.scanned ≤ s.scanned) : Chain.Descending s'.next := by
  intro j
  by_cases hj : j = s.scanned
  · rw [hj]; exact hnext
  · rw [hg.next hj]; exact hinv.descending j

/-- The old lists are as they were. -/
lemma Grown.cells (hnext : s'.next s.scanned ≤ s.scanned)
    {link : Nat} (hlink : link ≤ s.scanned) : Chain.cells s'.next link = Chain.cells s.next link :=
  Chain.cells_congr hinv.descending (hg.descending hinv hnext) fun j hj => hg.next (by omega)

lemma Grown.runnable {j : Nat} (hj : j < s.scanned) (hrun : s.Runnable es has j) : s'.Runnable es has j := by
  have hbase := hg.base (j := j) (by omega)
  rcases hrun with ⟨hroot, hzero⟩ | ⟨p, hp, hpd, hpb⟩ | ⟨hnames, hh⟩
  · exact .inl ⟨hroot, by rw [hbase]; exact hzero⟩
  · have hplt := hp.1
    exact .inr (.inl ⟨p, hp, by rw [hg.done hinv]; exact hpd, by rw [hbase, hg.base (by omega)]; exact hpb⟩)
  · exact .inr (.inr ⟨by rw [hbase]; exact hnames, by rw [hbase]; exact hh⟩)

end

section

variable (hinv : Inv es has dispatched s) (hget : es[s.scanned]? = some h)

include hinv hget

lemma Grown.offset_eq {j : Nat} {e : PackEntry} (hlt : j < s'.scanned) (hj : es[j]? = some e) :
    (s'.nodes j).offset = e.offset := by
  by_cases heq : j = s.scanned
  · subst heq
    rw [hg.offset, some.inj (hget.symm.trans hj)]
  · obtain ⟨child, hnode⟩ := hg.node j heq
    rw [hnode]
    exact hinv.offset j e (by rw [hg.scanned] at hlt; omega) hj

lemma Grown.offsets_sound {o : Int} {link : Nat} (hfind : s'.offsets.find o = some link) :
    ∃ p hp, link = p + 1 ∧ p < s'.scanned ∧ es[p]? = some hp ∧ (hp.offset : Int) = o := by
  rw [hg.offsets, SortedMap.find_insert] at hfind
  rw [hg.scanned]
  split at hfind
  next heq => exact ⟨s.scanned, h, (some.inj hfind).symm, by omega, hget, heq.symm⟩
  next hne =>
    obtain ⟨p, hp, hlink, hlt, hpget, hpo⟩ := hinv.offsets o link hfind
    exact ⟨p, hp, hlink, by omega, hpget, hpo⟩

/-- Offsets increase, so the new entry hides no older one. -/
lemma Grown.offsets_known (hinc : es.Pairwise fun a b => a.offset < b.offset) {p : Nat} {hp : PackEntry}
    (hlt : p < s'.scanned) (hpget : es[p]? = some hp) : s'.offsets.find hp.offset = some (p + 1) := by
  rw [hg.offsets, SortedMap.find_insert]
  by_cases heq : p = s.scanned
  · subst heq
    rw [if_pos (by rw [some.inj (hget.symm.trans hpget)])]
  have hplt : p < s.scanned := by rw [hg.scanned] at hlt; omega
  obtain ⟨hpl, hpe⟩ := List.getElem?_eq_some_iff.mp hpget
  obtain ⟨hlen, hse⟩ := List.getElem?_eq_some_iff.mp hget
  have hoffset := pairwise_iff_getElem.mp hinc p s.scanned hpl hlen hplt
  rw [hpe, hse] at hoffset
  rw [if_neg (by omega)]
  exact hinv.known p hp hplt hpget

end

variable (hinv : Inv es has dispatched s) (hlink : Linked es has dispatched s s')

include hinv hlink

lemma Grown.runnable_of_linked {j : Nat} (hj : j ∈ s'.ready ++ s'.roots.drop s'.rootPos) : s'.Runnable es has j := by
  rcases hlink.ready j hj with rfl | hold
  · rcases hlink.free _ (mem_append_right _ hj) with ⟨-, hrun, -⟩ | hold
    · exact hrun
    · exact absurd hold hinv.last_not_free
  · exact hg.runnable hinv (hinv.free_lt j (mem_append_right _ hold)) (hinv.runnable j hold)

lemma Grown.kid_of_linked {p j : Nat} (hp : (s'.nodes p).done = false) :
    j ∈ s'.children p ↔ j < s'.scanned ∧ Parent es j p := by
  rw [hlink.kid p hp, hinv.kid p (hg.done hinv p ▸ hp), hg.scanned]
  constructor
  · rintro (⟨hlt, hpar⟩ | ⟨rfl, hpar⟩)
    · exact ⟨by omega, hpar⟩
    · exact ⟨by omega, hpar⟩
  · rintro ⟨hlt, hpar⟩
    by_cases hj : j = s.scanned
    · exact .inr ⟨hj, hpar⟩
    · exact .inl ⟨by omega, hpar⟩

lemma Grown.waiter_of_linked {oid : GitOID} {j : Nat} (hj : j ∈ s'.waiters oid) :
    j < s'.scanned ∧ Names es j oid ∧ (s'.nodes j).base = oid ∧ j ∉ s'.free dispatched := by
  rw [hg.scanned]
  rcases hlink.waiter oid j hj with hold | ⟨rfl, hnames, hbase, hnot⟩
  · obtain ⟨hlt, hnames, hbase, hnot⟩ := hinv.waiter oid j hold
    refine ⟨by omega, hnames, by rw [hg.base (by omega)]; exact hbase, fun hf => ?_⟩
    rcases hlink.free j hf with ⟨rfl, -⟩ | hf
    · omega
    · exact hnot hf
  · exact ⟨by omega, hnames, hbase, hnot⟩

lemma Grown.covered_of_linked {j : Nat} (hj : j < s'.scanned) : j ∈ s'.free dispatched ∨
    (∃ p, Parent es j p ∧ (s'.nodes p).done = false) ∨ ∃ oid, j ∈ s'.waiters oid := by
  rw [hg.scanned] at hj
  by_cases heq : j = s.scanned
  · rw [heq]
    exact hlink.place
  rcases hinv.covered j (by omega) with hf | ⟨p, hp, hpd⟩ | ⟨oid, hw⟩
  · exact .inl (hlink.keep j hf)
  · exact .inr (.inl ⟨p, hp, by rw [hg.done hinv]; exact hpd⟩)
  · exact .inr (.inr ⟨oid, hlink.wait oid j hw⟩)

/-- The invariant behind the entry. -/
lemma Grown.inv (hinc : es.Pairwise fun a b => a.offset < b.offset) (hget : es[s.scanned]? = some h) :
    Inv es has dispatched s' where
  scanned_le := by rw [hg.scanned]; exact (List.getElem?_eq_some_iff.mp hget).1
  descending := hg.descending hinv hlink.next
  child_le := fun p => by
    have hold := hinv.child_le p
    have hnew := hlink.child p
    rw [hg.scanned]
    omega
  waiting_le := fun oid => by
    have hold := hinv.waiting_le oid
    have hnew := hlink.waiting oid
    rw [hg.scanned]
    omega
  rootPos_le := hlink.roots
  fresh := fun j hj => by
    rw [hg.scanned] at hj
    rw [hg.later j (by omega)]
    exact hinv.fresh j (by omega)
  offset := fun _ _ => hg.offset_eq hinv hget
  offsets := fun _ _ => hg.offsets_sound hinv hget
  known := fun _ _ => hg.offsets_known hinv hget hinc
  nodup := hlink.nodup
  free_lt := fun j hj => by
    rw [hg.scanned]
    rcases hlink.free j hj with ⟨rfl, -, -⟩ | hold
    · omega
    · have := hinv.free_lt j hold
      omega
  free_parent := fun j hj p hp => by
    rcases hlink.free j hj with ⟨-, -, hpar⟩ | hold
    · exact hpar p hp
    · rw [hg.done hinv]
      exact hinv.free_parent j hold p hp
  runnable := fun _ => hg.runnable_of_linked hinv hlink
  kid := fun _ hp _ => hg.kid_of_linked hinv hlink hp
  waiter := fun _ _ => hg.waiter_of_linked hinv hlink
  covered := fun _ => hg.covered_of_linked hinv hlink
  done := fun p hp => by
    rw [hg.done hinv] at hp
    have hd := hinv.done p hp
    rw [hg.base (fun heq => hinv.last_not_dispatched (heq ▸ hd.1))]
    exact hd

end

end

section

variable (hinc : es.Pairwise fun a b => a.offset < b.offset) (hinv : Inv es has dispatched s)
  (hget : es[s.scanned]? = some h) (hg : Grown s h s')

include hinc hinv hget hg

/-- The new object is free at once. -/
lemma Inv.push (hkid : ∀ p, (s'.nodes p).child = (s.nodes p).child) (hnext : s'.next = s.next)
    (hwaiting : s'.waiting = s.waiting) (hroots : s'.rootPos ≤ s'.roots.length)
    (hperm : (s'.ready ++ s'.roots.drop s'.rootPos).Perm
      (s.scanned :: (s.ready ++ s.roots.drop s.rootPos))) (hrun : s'.Runnable es has s.scanned)
    (hparent : ∀ p, Parent es s.scanned p → (s'.nodes p).done = true) : Inv es has dispatched s' := by
  have hkids : ∀ p, s'.children p = s.children p := by
    intro p
    unfold children
    rw [hnext, hkid]
  have hwait : ∀ oid, s'.waiters oid = s.waiters oid := by
    intro oid
    unfold waiters
    rw [hnext, hwaiting]
  have hfree : (s'.free dispatched).Perm (s.scanned :: s.free dispatched) :=
    (hperm.append_left dispatched).trans perm_middle
  have hmem : ∀ j, j ∈ s'.free dispatched ↔ j = s.scanned ∨ j ∈ s.free dispatched := by
    intro j
    rw [hfree.mem_iff, mem_cons]
  refine hg.inv hinv ⟨hnext ▸ hinv.descending _, fun p => .inl (hkid p), fun oid => .inl (by rw [hwaiting]), hroots,
    ?_, ?_, ?_, ?_, fun oid j hj => .inl (hwait oid ▸ hj), fun j hj => (hmem j).mpr (.inr hj),
    fun oid j hj => (hwait oid).symm ▸ hj, .inl ((hmem _).mpr (.inl rfl))⟩ hinc hget
  · rw [hfree.nodup_iff, nodup_cons]
    exact ⟨hinv.last_not_free, hinv.nodup⟩
  · intro j hj
    rcases (hmem j).mp hj with rfl | hold
    · exact .inl ⟨rfl, hrun, hparent⟩
    · exact .inr hold
  · intro j hj
    exact mem_cons.mp (hperm.mem_iff.mp hj)
  intro p hp j
  rw [hkids]
  refine ⟨.inl, fun hj => hj.resolve_right ?_⟩
  rintro ⟨rfl, hpar⟩
  rw [hparent p hpar] at hp
  cases hp

/-- The new object waits for its parent in the pack. -/
lemma Inv.adopt (hparent : Parent es s.scanned p) (hp : (s.nodes p).done = false)
    (hnext : s'.next s.scanned = (s.nodes p).child)
    (hkid : ∀ q, (s'.nodes q).child = if q = p then s.scanned + 1 else (s.nodes q).child)
    (hwaiting : s'.waiting = s.waiting) (hfree : s'.ready = s.ready ∧ s'.roots = s.roots)
    : Inv es has dispatched s' := by
  have hle : s'.next s.scanned ≤ s.scanned := hnext ▸ hinv.child_le p
  have hfree' : s'.free dispatched = s.free dispatched := by
    unfold free
    rw [hfree.1, hfree.2, hg.rootPos]
  have hkids : ∀ q, s'.children q = if q = p then s.scanned :: s.children q else s.children q := by
    intro q
    unfold children
    rw [hkid]
    split
    next heq => rw [Chain.cells_succ (hg.descending hinv hle), hnext, heq, hg.cells hinv hle (hinv.child_le p)]
    next => exact hg.cells hinv hle (hinv.child_le q)
  have hwait : ∀ oid, s'.waiters oid = s.waiters oid := by
    intro oid
    unfold waiters
    rw [hwaiting]
    exact hg.cells hinv hle (hinv.waiting_le oid)
  refine hg.inv hinv ⟨hle, fun q => ?_, fun oid => .inl (by rw [hwaiting]),
    by rw [hfree.2, hg.rootPos]; exact hinv.rootPos_le, hfree' ▸ hinv.nodup,
    fun j hj => .inr (hfree' ▸ hj), by rw [hfree.1, hfree.2, hg.rootPos]; exact fun _ => .inr,
    fun q _ j => ?_, fun oid j hj => .inl (hwait oid ▸ hj), fun j hj => hfree' ▸ hj,
    fun oid j hj => (hwait oid).symm ▸ hj,
    .inr (.inl ⟨p, hparent, by rw [hg.done hinv]; exact hp⟩)⟩ hinc hget
  · rw [hkid]
    split
    · exact .inr rfl
    · exact .inl rfl
  rw [hkids]
  split
  next heq =>
    rw [mem_cons, heq]
    constructor
    · rintro (rfl | hj)
      · exact .inr ⟨rfl, hparent⟩
      · exact .inl hj
    · rintro (hj | hj)
      · exact .inr hj
      · exact .inl hj.1
  next hne =>
  refine ⟨.inl, fun hj => hj.resolve_right ?_⟩
  rintro ⟨rfl, hpar⟩
  exact hne (hpar.unique hinc hparent)

/-- The new object waits for an identity. -/
lemma Inv.await {base : GitOID} (hnames : Names es s.scanned base)
    (hnext : s'.next s.scanned = (s.waiting.find base).getD 0) (hbase : (s'.nodes s.scanned).base = base)
    (hkid : ∀ q, (s'.nodes q).child = (s.nodes q).child)
    (hwaiting : s'.waiting = s.waiting.insert base (s.scanned + 1))
    (hfree : s'.ready = s.ready ∧ s'.roots = s.roots) : Inv es has dispatched s' := by
  have hle : s'.next s.scanned ≤ s.scanned := hnext ▸ hinv.waiting_le base
  have hfree' : s'.free dispatched = s.free dispatched := by
    unfold free
    rw [hfree.1, hfree.2, hg.rootPos]
  have hkids : ∀ q, s'.children q = s.children q := by
    intro q
    unfold children
    rw [hkid]
    exact hg.cells hinv hle (hinv.child_le q)
  have hwait : ∀ oid, s'.waiters oid = if oid = base then s.scanned :: s.waiters oid else s.waiters oid := by
    intro oid
    unfold waiters
    rw [hwaiting, SortedMap.find_insert]
    split
    next heq =>
      rw [getD_some, Chain.cells_succ (hg.descending hinv hle), hnext, heq, hg.cells hinv hle (hinv.waiting_le base)]
    next => exact hg.cells hinv hle (hinv.waiting_le oid)
  refine hg.inv hinv ⟨hle, fun q => .inl (hkid q), fun oid => ?_,
    by rw [hfree.2, hg.rootPos]; exact hinv.rootPos_le, hfree' ▸ hinv.nodup,
    fun j hj => .inr (hfree' ▸ hj), by rw [hfree.1, hfree.2, hg.rootPos]; exact fun _ => .inr,
    fun q _ j => ?_, fun oid j hj => ?_, fun j hj => hfree' ▸ hj, fun oid j hj => ?_,
    .inr (.inr ⟨base, by rw [hwait, if_pos rfl]; exact mem_cons_self⟩)⟩ hinc hget
  · rw [hwaiting, SortedMap.find_insert]
    split
    · exact .inr rfl
    · exact .inl rfl
  · rw [hkids]
    refine ⟨.inl, fun hj => hj.resolve_right ?_⟩
    rintro ⟨rfl, hpar⟩
    exact hpar.not_names hnames
  · rw [hwait] at hj
    split at hj
    next heq =>
      rcases mem_cons.mp hj with rfl | hj
      · exact .inr ⟨rfl, heq ▸ hnames, heq ▸ hbase, hfree' ▸ hinv.last_not_free⟩
      · exact .inl hj
    next => exact .inl hj
  · rw [hwait]
    split
    · exact mem_cons_of_mem _ hj
    · exact hj

end

/-- What a waiter waits for was neither there at first nor has it come since. -/
def Awaits (first : GitOID → Prop) (s : Sched) : Prop :=
  ∀ oid j, j ∈ s.waiters oid → ¬ first oid ∧ ∀ p, (s.nodes p).done = true → (s.nodes p).base ≠ oid

lemma Awaits.release (haw : s.Awaits first) (i : Nat) (oid : GitOID) : (s.release i oid).Awaits first := by
  intro oid' j hj
  rw [release_waiters] at hj
  split at hj
  · simp at hj
  next hne =>
  obtain ⟨hfirst, hdone⟩ := haw oid' j hj
  refine ⟨hfirst, fun p hp => ?_⟩
  rw [release_base]
  rw [release_done] at hp
  split
  · exact Ne.symm hne
  next hpi =>
  rw [if_neg hpi] at hp
  split
  · exact Ne.symm hne
  · exact hdone p hp

/-- The new waiters of a state in which only the new entry may have been put among them. -/
lemma Awaits.grown (haw : s.Awaits first) (hinv : Inv es has dispatched s) (hg : Grown s h s')
    (hfirst : ∀ oid, first oid → has oid)
    (hwait : ∀ oid j, j ∈ s'.waiters oid → j ∈ s.waiters oid ∨ ¬ has oid) : s'.Awaits first := by
  intro oid j hj
  have hbase : ∀ p, (s'.nodes p).done = true → (s.nodes p).done = true ∧ (s'.nodes p).base = (s.nodes p).base := by
    intro p hp
    rw [hg.done hinv] at hp
    refine ⟨hp, hg.base ?_⟩
    rintro rfl
    exact hinv.last_not_dispatched (hinv.done _ hp).1
  rcases hwait oid j hj with hold | hno
  · obtain ⟨hf, hd⟩ := haw oid j hold
    refine ⟨hf, fun p hp => ?_⟩
    rw [(hbase p hp).2]
    exact hd p (hbase p hp).1
  · refine ⟨fun hf => hno (hfirst oid hf), fun p hp heq => hno ?_⟩
    rw [(hbase p hp).2] at heq
    exact heq ▸ (hinv.done p (hbase p hp).1).2

/-- What reading a header does. -/
structure Added (es : List PackEntry) (has : GitOID → Prop) (dispatched : List Nat)
    (present : Bool) (h : PackEntry) (s s' : Sched) : Prop where
  inv : Inv es has dispatched s'
  grown : Grown s h s'
  active : s'.active = s.active
  scanDone : s'.scanDone = s.scanDone
  waiters : ∀ oid j, j ∈ s'.waiters oid → j ∈ s.waiters oid ∨
    h.type = .refDelta ∧ present = false ∧ gitOID h.reference = oid

section

variable {h : PackEntry} {present : Bool}

variable {node : DeltaNode} {s' : Sched}

lemma grown_of_enter (hscanned : s'.scanned = s.scanned + 1)
    (hoffs : s'.offsets = s.offsets.insert h.offset (s.scanned + 1))
    (hroot : s'.rootPos = s.rootPos) (hnodes : s'.nodes = Function.update s.nodes s.scanned node)
    (hoff : node.offset = h.offset) (hdone : node.done = false) : Grown s h s' where
  scanned := hscanned
  offsets := hoffs
  rootPos := hroot
  offset := by rw [hnodes, update_self, hoff]
  undone := by rw [hnodes, update_self, hdone]
  node := fun j hj => ⟨(s.nodes j).child, by rw [hnodes, update_of_ne hj]⟩
  later := fun j hj => by rw [hnodes, update_of_ne (by omega)]

section

variable (hinc : es.Pairwise fun a b => a.offset < b.offset) (hinv : Inv es has dispatched s)
  (hget : es[s.scanned]? = some h)

include hinc hinv hget

/-- An entry whose node has no links changes no list; it must be able to run. -/
lemma Inv.added_free {base : GitOID} (hnodes : s'.nodes = Function.update s.nodes s.scanned
      { s.nodes s.scanned with offset := h.offset, base }) (hscanned : s'.scanned = s.scanned + 1)
    (hoffs : s'.offsets = s.offsets.insert h.offset (s.scanned + 1))
    (hrest : s'.rootPos = s.rootPos ∧ s'.waiting = s.waiting ∧ s'.active = s.active ∧
      s'.scanDone = s.scanDone) (hroots : s'.rootPos ≤ s'.roots.length)
    (hperm : (s'.ready ++ s'.roots.drop s'.rootPos).Perm
      (s.scanned :: (s.ready ++ s.roots.drop s.rootPos))) (hrun : s'.Runnable es has s.scanned)
    (hpar : ∀ p, Parent es s.scanned p → (s.nodes p).done = true) : Added es has dispatched present h s s' := by
  obtain ⟨hroot, hwait, hact, hscan⟩ := hrest
  have hfresh := hinv.fresh s.scanned le_rfl
  have hg := grown_of_enter hscanned hoffs hroot hnodes rfl (by rw [hfresh])
  have hkids : ∀ p, (s'.nodes p).child = (s.nodes p).child := by
    intro p
    rw [hnodes]
    by_cases hp : p = s.scanned
    · rw [hp, update_self]
    · rw [update_of_ne hp]
  have hlinks : s'.next = s.next := by
    funext j
    unfold Sched.next
    rw [hnodes]
    by_cases hj : j = s.scanned
    · rw [hj, update_self]
    · rw [update_of_ne hj]
  refine ⟨hinv.push hinc hget hg hkids hlinks hwait hroots hperm hrun
    (fun p hp => by rw [hg.done hinv]; exact hpar p hp), hg, hact, hscan,
    fun oid j hj => .inl ?_⟩
  unfold Sched.waiters at hj ⊢
  rw [hlinks, hwait] at hj
  exact hj

lemma Inv.added_child {p : Nat} (hpar : Parent es s.scanned p) (hp : (s.nodes p).done = false) :
    Added es has dispatched present h s
      ((s.enter h { s.nodes s.scanned with offset := h.offset, next := (s.nodes p).child }).setChild
        p (s.scanned + 1)) := by
  have hfresh := hinv.fresh s.scanned le_rfl
  have hne : s.scanned ≠ p := by have := hpar.1; omega
  generalize hs' : (s.enter h { s.nodes s.scanned with
    offset := h.offset, next := (s.nodes p).child }).setChild p (s.scanned + 1) = s'
  have hself : s'.nodes s.scanned = { s.nodes s.scanned with offset := h.offset, next := (s.nodes p).child } := by
    rw [← hs', setChild, enter]
    dsimp only
    rw [update_of_ne hne, update_self]
  have hoth : ∀ j, j ≠ s.scanned →
      s'.nodes j = { s.nodes j with child := if j = p then s.scanned + 1 else (s.nodes j).child } := by
    intro j hj
    rw [← hs', setChild, enter]
    dsimp only
    by_cases hjp : j = p
    · rw [if_pos hjp, hjp, update_self, update_of_ne (Ne.symm hne)]
    · rw [if_neg hjp, update_of_ne hjp, update_of_ne hj]
  have hg : Grown s h s' := by
    refine ⟨by rw [← hs']; rfl, by rw [← hs']; rfl, by rw [← hs']; rfl, by rw [hself],
      by rw [hself, hfresh], fun j hj => ⟨_, hoth j hj⟩, fun j hj => ?_⟩
    rw [hoth j (by omega), if_neg (by have := hpar.1; omega)]
  have hnext : s'.next s.scanned = (s.nodes p).child := by
    unfold Sched.next
    rw [hself]
  have hwait : s'.waiting = s.waiting := by rw [← hs']; rfl
  refine ⟨hinv.adopt hinc hget hg hpar hp hnext (fun q => ?_) hwait
    ⟨by rw [← hs']; rfl, by rw [← hs']; rfl⟩, hg, by rw [← hs']; rfl, by rw [← hs']; rfl,
    fun oid j hj => .inl ?_⟩
  · by_cases hq : q = s.scanned
    · rw [hq, hself, if_neg hne]
    · rw [hoth q hq]
  · unfold Sched.waiters at hj ⊢
    rw [hwait, hg.cells hinv (hnext ▸ hinv.child_le p) (hinv.waiting_le oid)] at hj
    exact hj

lemma Inv.added_waiter (htype : h.type = .refDelta) (hlost : present = false) (hnode : node = { s.nodes s.scanned with
      offset := h.offset, base := gitOID h.reference, next := (s.waiting.find (gitOID h.reference)).getD 0 }) :
    Added es has dispatched present h s { s.enter h node with
      waiting := s.waiting.insert (gitOID h.reference) (s.scanned + 1) } := by
  have hfresh := hinv.fresh s.scanned le_rfl
  generalize hs' : { s.enter h node with
    waiting := s.waiting.insert (gitOID h.reference) (s.scanned + 1) } = s'
  have hnodes : s'.nodes = Function.update s.nodes s.scanned node := by rw [← hs']; rfl
  have hwait : s'.waiting = s.waiting.insert (gitOID h.reference) (s.scanned + 1) := by rw [← hs']
  have hg : Grown s h s' := grown_of_enter (by rw [← hs']; rfl) (by rw [← hs']; rfl)
    (by rw [← hs']; rfl) hnodes (by rw [hnode]) (by rw [hnode, hfresh])
  have hnext : s'.next s.scanned = (s.waiting.find (gitOID h.reference)).getD 0 := by
    unfold Sched.next
    rw [hnodes, update_self, hnode]
  refine ⟨hinv.await hinc hget hg ⟨h, hget, htype, rfl⟩ hnext
    (by rw [hnodes, update_self, hnode]) (fun q => ?_) hwait
    ⟨by rw [← hs']; rfl, by rw [← hs']; rfl⟩, hg, by rw [← hs']; rfl, by rw [← hs']; rfl,
    fun oid j hj => ?_⟩
  · rw [hnodes]
    by_cases hq : q = s.scanned
    · rw [hq, update_self, hnode]
    · rw [update_of_ne hq]
  by_cases heq : oid = gitOID h.reference
  · exact .inr ⟨htype, hlost, heq.symm⟩
  · left
    unfold Sched.waiters at hj ⊢
    rw [hwait, SortedMap.find_insert, if_neg heq,
      hg.cells hinv (hnext ▸ hinv.waiting_le _) (hinv.waiting_le oid)] at hj
    exact hj

/-- Reading a header keeps the schedule right. -/
lemma Inv.addHeader (hpresent : h.type = .refDelta → present = true → has (gitOID h.reference))
    (hok : s.addHeader h present = .ok s') : Added es has dispatched present h s s' := by
  have hfresh := hinv.fresh s.scanned le_rfl
  unfold Sched.addHeader at hok
  cases htype : h.type with
  | commit | tree | blob | tag =>
    simp only [htype, Except.ok.injEq] at hok
    subst hok
    refine hinv.added_free hinc hget rfl rfl rfl ⟨rfl, rfl, rfl, rfl⟩
      (by simpa [enter] using Nat.le_succ_of_le hinv.rootPos_le) ?_
      (.inl ⟨⟨h, hget, by rw [htype]; decide⟩, by simp [enter, hfresh]⟩) ?_
    · show (s.ready ++ (s.roots ++ [s.scanned]).drop s.rootPos).Perm _
      rw [drop_append_of_le_length hinv.rootPos_le, ← append_assoc]
      exact perm_append_singleton _ _
    · rintro p ⟨-, h', -, hget', -, htype', -⟩
      obtain rfl := some.inj (hget.symm.trans hget')
      rw [htype] at htype'
      cases htype'
  | invalid => simp [htype] at hok
  | ofsDelta =>
    simp only [htype] at hok
    cases hfind : s.offsets.find h.offsetReference with
    | none => simp [hfind] at hok
    | some parent =>
    obtain ⟨p, hp, rfl, hplt, hpget, hpo⟩ := hinv.offsets _ _ hfind
    have hpar : Parent es s.scanned p := ⟨hplt, h, hp, hget, hpget, htype, hpo⟩
    rw [hfind] at hok
    dsimp only at hok
    rw [Nat.add_sub_cancel] at hok
    split at hok
    next hdone =>
      obtain rfl := Except.ok.inj hok
      refine hinv.added_free hinc hget rfl rfl rfl ⟨rfl, rfl, rfl, rfl⟩ hinv.rootPos_le
        (List.Perm.refl _) (.inr (.inl ⟨p, hpar, ?_, ?_⟩)) ?_
      · simp only [enter]
        rw [update_of_ne (by omega)]
        exact hdone
      · simp only [enter]
        rw [update_self, update_of_ne (by omega)]
      · intro q hq
        rw [hq.unique hinc hpar]
        exact hdone
    next hund =>
      obtain rfl := Except.ok.inj hok
      exact hinv.added_child hinc hget hpar (by simpa using hund)
  | refDelta =>
  simp only [htype] at hok
  split at hok
  next hfound =>
    obtain rfl := Except.ok.inj hok
    refine hinv.added_free hinc hget rfl rfl rfl ⟨rfl, rfl, rfl, rfl⟩ hinv.rootPos_le
      (List.Perm.refl _) (.inr (.inr ?_)) ?_
    · simp only [enter]
      rw [update_self]
      exact ⟨⟨h, hget, htype, rfl⟩, hpresent htype hfound⟩
    · intro p hp
      exact absurd ⟨h, hget, htype, rfl⟩ hp.not_names
  next hlost =>
    obtain rfl := Except.ok.inj hok
    exact hinv.added_waiter hinc hget htype (by simpa using hlost) rfl

end

end

/-- An offset delta whose base is in the pack finds it. -/
lemma Inv.addHeader_missing (hinv : Inv es has dispatched s) (hget : es[s.scanned]? = some h)
    (herr : s.addHeader h present = .error .missingOffsetBase) : h.type = .ofsDelta ∧ ∀ p, ¬ Parent es s.scanned p := by
  unfold Sched.addHeader at herr
  cases htype : h.type with
  | commit | tree | blob | tag | invalid => simp [htype] at herr
  | refDelta =>
    simp only [htype] at herr
    split at herr <;> simp at herr
  | ofsDelta =>
  refine ⟨rfl, ?_⟩
  rintro p ⟨hlt, h', hp, hget', hpget, -, hpo⟩
  obtain rfl := some.inj (hget.symm.trans hget')
  simp only [htype] at herr
  rw [← hpo, hinv.known p hp hlt hpget] at herr
  dsimp only at herr
  split at herr <;> simp at herr

/-- A header is refused for a missing base or a bad type only. -/
lemma addHeader_error {e : Stop} (herr : s.addHeader h present = .error e) :
    e = .missingOffsetBase ∨ e = .packObjectType ∧ h.type = .invalid := by
  unfold Sched.addHeader at herr
  cases htype : h.type with
  | commit | tree | blob | tag => simp [htype] at herr
  | invalid =>
    simp only [htype, Except.error.injEq] at herr
    exact .inr ⟨herr.symm, rfl⟩
  | refDelta =>
    simp only [htype] at herr
    split at herr <;> simp at herr
  | ofsDelta =>
  simp only [htype] at herr
  split at herr
  · simp only [Except.error.injEq] at herr
    exact .inl herr.symm
  · split at herr <;> simp at herr

end Sched

end Trex.GitStore
