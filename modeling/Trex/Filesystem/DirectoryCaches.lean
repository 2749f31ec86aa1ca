import Trex.Lib.SortedList
import Trex.Filesystem.HardLinks

/-!
# The derived structures of a directory

`Faithful`: each derived structure is what would be computed now, as long as its marks call it current.
They depend on the names only, and every change of the names goes through `invalidateNamespace` or
`namespaceEntryChanged`.
-/

namespace Trex.Filesystem

open List Function SortedList Filesystem.Path

open Checked
open Bytes (ascii)

/-! ## Lists of children -/

/-- `name` appears or goes away; the order stays. -/
lemma changeNames_spec {names : List Path} (h : names.Pairwise (· < ·)) (name : Path) (present : Bool) :
    (Directory.changeNames names name present).Pairwise (· < ·) ∧
      ∀ q, q ∈ Directory.changeNames names name present ↔ if q = name then present = true else q ∈ names := by
  have hplace : Directory.searchPaths names name = (below names name).length := search_eq h name root
  have hmem := mem_iff_head h name
  unfold Directory.changeNames
  simp only
  rw [hplace, getElem?_place, take_place, drop_place]
  split
  next hnew =>
    have hnot : name ∉ names := fun hin => hnew.2 (decide_eq_true (hmem.mp hin))
    refine ⟨pairwise_insert h hnot, fun q => ?_⟩
    rw [mem_insert]
    split
    next hq => simp [hq, hnew.1]
    next hq => simp [hq]
  split
  next hold =>
    have hhead : (rest names name).head? = some name := of_decide_eq_true hold.2
    obtain ⟨hsorted, hmembers⟩ := remove_spec h hhead
    refine ⟨hsorted, fun q => ?_⟩
    rw [hmembers]
    split
    next hq => simp [hq, hold.1]
    next hq => simp [hq]
  next hnew hold =>
    refine ⟨h, fun q => ?_⟩
    split
    next hq =>
      rw [hq, hmem]
      simpa using show (rest names name).head? = some name ↔ present = true by cases present <;> simp_all
    · rfl

namespace Directory

section

variable (d : Directory)

/-- A path is a child of something if it is a directory other than the root, or a file. -/
lemma mem_candidates (p : Path) : p ∈ d.candidates ↔ p ≠ root ∧ d.hasDir p ∨ d.hasFile p ∧ ¬ d.hasDir p := by
  unfold candidates
  have hdirs := d.dirs.mem_keys p
  have hfiles := d.files.mem_keys p
  unfold SortedMap.keys at hdirs hfiles
  rw [mem_append, mem_filter, mem_filter, hdirs, hfiles]
  unfold hasDir hasFile
  simp
  tauto

lemma nodup_candidates : d.candidates.Nodup := by
  unfold candidates
  refine List.Nodup.append ?_ ?_ ?_
  · exact d.dirs.keys_sorted.nodup.filter _
  · exact d.files.keys_sorted.nodup.filter _
  intro p hp hp'
  have hdir := (d.dirs.mem_keys p).mp (mem_filter.mp hp).1
  have hnot := (mem_filter.mp hp').2
  unfold hasDir at hnot
  rw [hdir] at hnot
  simp at hnot

lemma buildChildren_sorted (par : Path) : (d.buildChildren par).Pairwise (· < ·) := by
  unfold buildChildren
  have hsorted := pairwise_insertionSort (· ≤ ·)
    ((d.candidates).filter fun p => decide (p.dir = par))
  have hnodup : (((d.candidates).filter fun p => decide (p.dir = par)).insertionSort (· ≤ ·)).Nodup :=
    (perm_insertionSort _ _).nodup_iff.mpr (d.nodup_candidates.filter _)
  exact hsorted.imp₂ (fun _ _ hle hne => lt_of_le_of_ne hle hne) hnodup

lemma mem_buildChildren (parent p : Path) : p ∈ d.buildChildren parent ↔ p ∈ d.candidates ∧ p.dir = parent := by
  unfold buildChildren
  rw [mem_insertionSort, mem_filter]
  simp

end

variable {d d' : Directory} {u : Unicode} {p : Path} {name : Bytes}

/-- The children depend on the names alone. -/
lemma buildChildren_congr (h : ∀ p, p ∈ d'.candidates ↔ p ∈ d.candidates) : d'.buildChildren = d.buildChildren := by
  funext parent
  refine ext (d'.buildChildren_sorted parent) (d.buildChildren_sorted parent) fun p => ?_
  rw [mem_buildChildren, mem_buildChildren, h]

/-- Patching one list of children gives what rebuilding gives. -/
lemma update_buildChildren (p : Path) (present : Bool)
    (h : ∀ q, q ∈ d'.candidates ↔ if q = p then present = true else q ∈ d.candidates) :
    Function.update d.buildChildren p.dir (changeNames (d.buildChildren p.dir) p present) = d'.buildChildren := by
  funext parent
  obtain ⟨hsorted, hmem⟩ := changeNames_spec (d.buildChildren_sorted p.dir) p present
  by_cases hpar : parent = p.dir
  · rw [hpar, update_self]
    refine ext hsorted (d'.buildChildren_sorted p.dir) fun q => ?_
    rw [hmem, mem_buildChildren, mem_buildChildren, h]
    split
    next hq => simp [hq]
    · rfl
  rw [update_of_ne hpar]
  refine ext (d.buildChildren_sorted parent) (d'.buildChildren_sorted parent) fun q => ?_
  rw [mem_buildChildren, mem_buildChildren, h]
  split
  next hq =>
    rw [hq]
    simp [Ne.symm hpar]
  · rfl

/-! ## Current structures -/

/-- Every derived structure that counts as current is what would be computed now. -/
structure Faithful (u : Unicode) (d : Directory) : Prop where
  root : d.hasDir Path.root
  childrenRevision : d.childrenRevision ≤ d.revision
  children : ∀ m, d.children = some m → d.childrenRevision = d.revision → m = d.buildChildren
  sortedFiles : ∀ names, d.sortedFiles = some names → names = d.buildSortedFiles
  fileValues : ∀ values, d.fileValues = some values → values = d.buildSortedFiles.map Path.text
  pathNames : ∀ lower includeEmpty snapshot, d.pathNames lower includeEmpty = some snapshot →
    buildPathNames u lower includeEmpty d.buildSortedFiles (d.dirs.entries.map Prod.fst) = .ok snapshot
  fatShortRev : d.fatShortRev ≤ d.revision
  fatShortIndex : d.fatShortValid = true → d.fatShortRev = d.revision → d.fatShortIndex = buildFATShortIndex u d

/-- The parent of every name is a directory. -/
def Closed (d : Directory) : Prop := ∀ p, d.hasDir p ∨ d.hasFile p → d.hasDir p.dir

/-- The derived structures and their marks. -/
def caches (d : Directory) :=
  (d.revision, d.pathNames, d.sortedFiles, d.fileValues, d.children, d.childrenRevision,
    d.fatShortIndex, d.fatShortRev, d.fatShortValid)

/-- What the queries look at. -/
def space (d : Directory) := (d.dirs.keys, d.files.keys, d.caches)

lemma hasDir_iff (d : Directory) (p : Path) : d.hasDir p ↔ p ∈ d.dirs.keys :=
  (d.dirs.mem_keys p).symm

lemma hasFile_iff (d : Directory) (p : Path) : d.hasFile p ↔ p ∈ d.files.keys :=
  (d.files.mem_keys p).symm

lemma mem_candidates_congr (hdirs : d'.dirs.keys = d.dirs.keys)
    (hfiles : d'.files.keys = d.files.keys) (p : Path) : p ∈ d'.candidates ↔ p ∈ d.candidates := by
  simp only [mem_candidates, hasDir_iff, hasFile_iff, hdirs, hfiles]

/-- A change outside the names leaves the caches faithful. -/
lemma faithful_of_space (heq : d'.space = d.space) (h : Faithful u d) : Faithful u d' := by
  simp only [space, caches, Prod.mk.injEq] at heq
  obtain ⟨hdirs, hfiles, hrev, hnames, hsorted, hvals, hkids, hkidsRev, hidx, hfatRev, hval⟩ := heq
  have hbuild : d'.buildChildren = d.buildChildren := buildChildren_congr (mem_candidates_congr hdirs hfiles)
  have hbuildFiles : d'.buildSortedFiles = d.buildSortedFiles := hfiles
  have hdirNames : d'.dirs.entries.map Prod.fst = d.dirs.entries.map Prod.fst := hdirs
  have hfileNames : d'.files.entries.map Prod.fst = d.files.entries.map Prod.fst := hfiles
  have hbuildIndex : buildFATShortIndex u d' = buildFATShortIndex u d := by
    unfold buildFATShortIndex fatPaths
    rw [hdirNames, hfileNames]
  refine ⟨?_, ?_, ?_, ?_, ?_, ?_, ?_, ?_⟩
  · rw [hasDir_iff, hdirs, ← hasDir_iff]
    exact h.root
  · rw [hkidsRev, hrev]
    exact h.childrenRevision
  · rw [hkids, hkidsRev, hrev, hbuild]
    exact h.children
  · rw [hsorted, hbuildFiles]
    exact h.sortedFiles
  · rw [hvals, hbuildFiles]
    exact h.fileValues
  · rw [hnames, hbuildFiles, hdirNames]
    exact h.pathNames
  · rw [hfatRev, hrev]
    exact h.fatShortRev
  · rw [hval, hfatRev, hrev, hidx, hbuildIndex]
    exact h.fatShortIndex

lemma closed_of_space (heq : d'.space = d.space) (h : Closed d) : Closed d' := by
  simp only [space, Prod.mk.injEq] at heq
  obtain ⟨hdirs, hfiles, -⟩ := heq
  intro p hp
  rw [hasDir_iff, hasFile_iff, hdirs, hfiles, ← hasDir_iff, ← hasFile_iff] at hp
  rw [hasDir_iff, hdirs, ← hasDir_iff]
  exact h p hp

/-- Without caches there is nothing to be wrong. -/
lemma faithful_invalidateNamespace (u : Unicode) (hroot : d.hasDir root)
    (hkids : d.childrenRevision ≤ d.revision) (hfat : d.fatShortRev ≤ d.revision) :
    Faithful u d.invalidateNamespace := by
  unfold invalidateNamespace
  refine ⟨hroot, Nat.le_succ_of_le hkids, ?_, ?_, ?_, ?_, Nat.le_succ_of_le hfat, ?_⟩
  · intro m _ hrev
    exact absurd hrev (by simp only; omega)
  · intro names hnames
    exact absurd hnames (by simp)
  · intro values hvals
    exact absurd hvals (by simp)
  · intro lower includeEmpty snapshot hsnap
    exact absurd hsnap (by simp)
  · intro _ hrev
    exact absurd hrev (by simp only; omega)

/-- An index of children that is current again after the invalidation. -/
lemma Faithful.withChildren (h : Faithful u d) {m : Path → List Path} (hm : m = d.buildChildren) :
    Faithful u { d with children := some m, childrenRevision := d.revision } := by
  refine { h with childrenRevision := le_rfl, children := ?_ }
  intro m' hm' _
  cases hm'
  exact hm

lemma Faithful.withoutIndex (h : Faithful u d) : Faithful u { d with fatShortValid := false } :=
  { h with fatShortIndex := fun hval => absurd hval (by simp) }

/-- A name appeared or went away; the index of children is patched if it was current. -/
lemma faithful_namespaceEntryChanged (h : Faithful u d) (hcaches : d'.caches = d.caches)
    (hroot : d'.hasDir root) (p : Path) (present : Bool)
    (hoth : ∀ q, q ≠ p ∨ p = root → (q ∈ d'.candidates ↔ q ∈ d.candidates))
    (hself : p ≠ root → (p ∈ d'.candidates ↔ present = true)) : Faithful u (d'.namespaceEntryChanged p present) := by
  simp only [caches, Prod.mk.injEq] at hcaches
  obtain ⟨hrev, -, -, -, hkids, hkidsRev, -, hfatRev, -⟩ := hcaches
  have hle : d'.childrenRevision ≤ d'.revision := by
    rw [hkidsRev, hrev]
    exact h.childrenRevision
  have hfat : d'.fatShortRev ≤ d'.revision := by
    rw [hfatRev, hrev]
    exact h.fatShortRev
  have hinval := faithful_invalidateNamespace u hroot hle hfat
  unfold namespaceEntryChanged
  split
  next m hm =>
    split
    next hcur =>
      rw [hkids] at hm
      rw [hkidsRev, hrev] at hcur
      have hm' := h.children m hm hcur
      subst hm'
      refine hinval.withChildren (m := if p ≠ root then
        Function.update d.buildChildren p.dir (changeNames (d.buildChildren p.dir) p present)
        else d.buildChildren) ?_
      have hkeep : d'.invalidateNamespace.buildChildren = d'.buildChildren := rfl
      rw [hkeep]
      split
      next hp =>
        refine update_buildChildren p present fun q => ?_
        split
        next hq =>
          rw [hq]
          exact hself hp
        next hq => exact hoth q (.inl hq)
      next hp => exact (buildChildren_congr fun q => hoth q (.inr (not_not.mp hp))).symm
    · exact hinval
  · exact hinval

/-! ## Mutators -/

lemma hasDir_insert (d : Directory) (p q : Path) :
    ({ d with dirs := d.dirs.insert p () } : Directory).hasDir q ↔ q = p ∨ d.hasDir q :=
  d.dirs.isSome_find_insert p () q

section

variable (d : Directory) (p : Path) (present : Bool)

lemma hasDir_namespaceEntryChanged (q : Path) : (d.namespaceEntryChanged p present).hasDir q = d.hasDir q := by
  unfold namespaceEntryChanged
  split
  · split <;> rfl
  · rfl

lemma files_namespaceEntryChanged : (d.namespaceEntryChanged p present).files = d.files := by
  unfold namespaceEntryChanged
  split
  · split <;> rfl
  · rfl

lemma hasFile_namespaceEntryChanged (q : Path) : (d.namespaceEntryChanged p present).hasFile q = d.hasFile q := by
  unfold hasFile
  rw [files_namespaceEntryChanged]

end

/-- One turn of the loop of `mkdir`. -/
def mkdirOne (d : Directory) (p : Path) : Directory :=
  if d.hasDir p then d
  else ({ d with dirs := d.dirs.insert p () } : Directory).namespaceEntryChanged p true

lemma hasDir_mkdirOne (d : Directory) (p q : Path) : (d.mkdirOne p).hasDir q ↔ q = p ∨ d.hasDir q := by
  unfold mkdirOne
  split
  next hp =>
    constructor
    · exact .inr
    · rintro (rfl | hq)
      · exact hp
      · exact hq
  · rw [hasDir_namespaceEntryChanged]
    exact hasDir_insert d p q

lemma hasFile_mkdirOne (d : Directory) (p q : Path) : (d.mkdirOne p).hasFile q = d.hasFile q := by
  unfold mkdirOne
  split
  · rfl
  · rw [hasFile_namespaceEntryChanged]
    rfl

/-- One turn of `mkdir` patches the children. -/
lemma faithful_mkdirOne (h : Faithful u d) (p : Path) : Faithful u (d.mkdirOne p) := by
  unfold mkdirOne
  split
  · exact h
  next hp =>
  have hdir := hasDir_insert d p
  have hfile : ∀ q, ({ d with dirs := d.dirs.insert p () } : Directory).hasFile q = d.hasFile q := fun q => rfl
  have hcaches : ({ d with dirs := d.dirs.insert p () } : Directory).caches = d.caches := rfl
  have hnotRoot : p ≠ root := by
    rintro rfl
    exact hp h.root
  generalize ({ d with dirs := d.dirs.insert p () } : Directory) = d1 at hdir hfile hcaches ⊢
  refine faithful_namespaceEntryChanged h hcaches ((hdir _).mpr (.inr h.root)) p true ?_ ?_
  · intro q hq
    have hqp : q ≠ p := hq.resolve_right hnotRoot
    simp only [mem_candidates, hdir, hfile, hqp, false_or]
  · intro _
    simp [mem_candidates, hdir, hnotRoot]

lemma mkdirLoop_succ (turns : Nat) (d : Directory) (p : Path) : mkdirLoop (turns + 1) d p =
      if p = root then d.mkdirOne p else mkdirLoop turns (d.mkdirOne p) p.dir := rfl

/-- The loop of `mkdir` keeps the caches faithful. -/
lemma faithful_mkdirLoop (turns : Nat) (h : Faithful u d) (p : Path) : Faithful u (mkdirLoop turns d p) := by
  induction turns generalizing d p with
  | zero => exact h
  | succ turns ih =>
  rw [mkdirLoop_succ]
  split
  · exact faithful_mkdirOne h p
  · exact ih (faithful_mkdirOne h p) p.dir

lemma hasDir_mkdirLoop (turns : Nat) {q : Path} (p : Path) (hq : d.hasDir q) : (mkdirLoop turns d p).hasDir q := by
  induction turns generalizing d p with
  | zero => exact hq
  | succ turns ih =>
  have hone : (d.mkdirOne p).hasDir q := (hasDir_mkdirOne d p q).mpr (.inr hq)
  rw [mkdirLoop_succ]
  split
  · exact hone
  · exact ih p.dir hone

lemma hasDir_mkdirPath (d : Directory) (p : Path) : (d.mkdirPath p).hasDir p := by
  have hone : (d.mkdirOne p).hasDir p := (hasDir_mkdirOne d p p).mpr (.inl rfl)
  unfold mkdirPath
  rw [mkdirLoop_succ]
  split
  · exact hone
  · exact hasDir_mkdirLoop _ p.dir hone

/-- While the loop goes up, only the parent that it comes to next may be missing. -/
lemma closed_mkdirLoop (turns : Nat) (hturns : p.parts.length < turns)
    (h : ∀ q, d.hasDir q ∨ d.hasFile q → d.hasDir q.dir ∨ q.dir = p) : Closed (mkdirLoop turns d p) := by
  induction turns generalizing d p with
  | zero => omega
  | succ turns ih =>
  have hnext : ∀ q, (d.mkdirOne p).hasDir q ∨ (d.mkdirOne p).hasFile q →
      (d.mkdirOne p).hasDir q.dir ∨ q.dir = p.dir := by
    intro q hq
    rw [hasDir_mkdirOne, hasFile_mkdirOne] at hq
    rw [hasDir_mkdirOne]
    rcases hq with (rfl | hq) | hq
    · exact .inr rfl
    · exact .inl (h q (.inl hq)).symm
    · exact .inl (h q (.inr hq)).symm
  rw [mkdirLoop_succ]
  split
  next hroot =>
    intro q hq
    rcases hnext q hq with hdir | hdir
    · exact hdir
    · rw [hdir, hroot, dir_root]
      exact (hasDir_mkdirOne d root root).mpr (.inl rfl)
  next hroot =>
    have hpos := length_pos_iff.mpr fun h => hroot (ext_parts h)
    have hlen : p.dir.parts.length = p.parts.length - 1 := length_dropLast
    exact ih (by omega) hnext

/-- `mkdir` makes the parents too. -/
lemma closed_mkdirPath (h : Closed d) (p : Path) : Closed (d.mkdirPath p) :=
  closed_mkdirLoop _ (Nat.lt_succ_self _) fun q hq => .inl (h q hq)

lemma faithful_mkdirPath (h : Faithful u d) (p : Path) : Faithful u (d.mkdirPath p) := faithful_mkdirLoop _ h p

lemma hasFile_insert (d : Directory) (p : Path) (file : FileRecord) (q : Path) :
    ({ d with files := d.files.insert p file } : Directory).hasFile q ↔ q = p ∨ d.hasFile q :=
  d.files.isSome_find_insert p file q

/-- The file may as well be stored before the change is announced. -/
lemma namespaceEntryChanged_files (d : Directory) (p : Path) (present : Bool)
    (files : SortedMap Path FileRecord) : { d.namespaceEntryChanged p present with files := files } =
      ({ d with files := files } : Directory).namespaceEntryChanged p present := by
  obtain ⟨_, _, _, _, _, _, _, _, _, _, _, _, kids, _, _, _, _⟩ := d
  cases kids with
  | none => rfl
  | some m =>
    simp only [namespaceEntryChanged]
    split <;> rfl

lemma faithful_storeFile (h : Faithful u d) (p : Path) (file : FileRecord) :
    Faithful u { (if d.hasFile p then d else d.namespaceEntryChanged p true) with
      files := (if d.hasFile p then d else d.namespaceEntryChanged p true).files.insert p file } := by
  have hfile := hasFile_insert d p file
  by_cases hp : d.hasFile p
  · simp only [if_pos hp]
    refine faithful_of_space ?_ h
    have hkeys : (d.files.insert p file).keys = d.files.keys := by
      refine SortedMap.keys_congr fun q => ?_
      have hq := hfile q
      unfold hasFile at hq hp
      rw [Bool.eq_iff_iff, hq]
      constructor
      · rintro (rfl | hq)
        · exact hp
        · exact hq
      · exact .inr
    simp only [space, hkeys]
    rfl
  simp only [if_neg hp]
  rw [files_namespaceEntryChanged, namespaceEntryChanged_files]
  have hdir : ∀ q, ({ d with files := d.files.insert p file } : Directory).hasDir q = d.hasDir q := fun q => rfl
  have hcaches : ({ d with files := d.files.insert p file } : Directory).caches = d.caches := rfl
  generalize ({ d with files := d.files.insert p file } : Directory) = d1 at hdir hfile hcaches ⊢
  refine faithful_namespaceEntryChanged h hcaches ((hdir _).trans h.root) p true ?_ ?_
  · rintro q (hq | rfl)
    · simp only [mem_candidates, hdir, hfile, hq, false_or]
    · simp only [mem_candidates, hdir, hfile]
      by_cases hq : q = root
      · simp [hq, h.root]
      · simp [hq]
  · intro hnotRoot
    simp only [mem_candidates, hdir, hfile, true_or, true_and, hnotRoot, ne_eq, not_false_eq_true]
    simp only [iff_true]
    exact Classical.em _

/-- Storing a file keeps the caches faithful. -/
lemma faithful_putFilePath (h : Faithful u d) (p : Path) (file : FileRecord) : Faithful u (d.putFilePath p file) := by
  have hmkdir : Faithful u { d.mkdirPath p.dir with
      nextWriteOrder := (d.mkdirPath p.dir).nextWriteOrder + 1 } :=
    faithful_of_space (d := d.mkdirPath p.dir) rfl (faithful_mkdirPath h p.dir)
  exact faithful_storeFile hmkdir p _

lemma closed_storeFile (h : Closed d) (hp : d.hasDir p.dir) (file : FileRecord) :
    Closed { (if d.hasFile p then d else d.namespaceEntryChanged p true) with
      files := (if d.hasFile p then d else d.namespaceEntryChanged p true).files.insert p file } := by
  have hdir : ∀ q, (if d.hasFile p then d else d.namespaceEntryChanged p true).hasDir q = d.hasDir q := by
    intro q
    split
    · rfl
    · rw [hasDir_namespaceEntryChanged]
  have hfile : ∀ q, (if d.hasFile p then d else d.namespaceEntryChanged p true).hasFile q = d.hasFile q := by
    intro q
    split
    · rfl
    · rw [hasFile_namespaceEntryChanged]
  generalize (if d.hasFile p then d else d.namespaceEntryChanged p true) = d1 at hdir hfile ⊢
  have hinsert := hasFile_insert d1 p file
  intro q hq
  rw [hinsert] at hq
  have hdirs : ∀ r, ({ d1 with files := d1.files.insert p file } : Directory).hasDir r = d.hasDir r := hdir
  rw [hdirs, hfile] at hq
  rw [hdirs]
  rcases hq with hq | rfl | hq
  · exact h q (.inl hq)
  · exact hp
  · exact h q (.inr hq)

/-- Storing a file makes its parents. -/
lemma closed_putFilePath (h : Closed d) (p : Path) (file : FileRecord) : Closed (d.putFilePath p file) := by
  have hmkdir : Closed { d.mkdirPath p.dir with
      nextWriteOrder := (d.mkdirPath p.dir).nextWriteOrder + 1 } :=
    closed_of_space (d := d.mkdirPath p.dir) rfl (closed_mkdirPath h p.dir)
  exact closed_storeFile hmkdir (hasDir_mkdirPath d p.dir) _

section

variable (d : Directory)

lemma space_setMetadataPath (p : Path) (m : Metadata) : (d.setMetadataPath p m).space = d.space := by
  unfold setMetadataPath
  simp only
  split <;> rfl

lemma space_dropMetadata (p : Path) : (d.dropMetadata p).space = d.space :=
  space_setMetadataPath d p {}

lemma space_shareMetadata (m : Metadata) (share : Metadata → Metadata) :
    (d.shareMetadata m share).space = d.space := by
  unfold shareMetadata
  split
  · refine foldl_keeps (P := fun d' => d'.space = d.space) (fun d' p h => ?_) _ rfl
    split
    · exact h
    · exact h
  · rfl

lemma space_shareFileAttributes (m : Metadata) : (d.shareFileAttributes m).space = d.space := by
  unfold shareFileAttributes
  split
  · refine foldl_keeps (P := fun d' => d'.space = d.space) (fun d' p h => ?_) _ rfl
    split
    · exact h
    · exact h
  · rfl

end

section

variable (heq : d'.space = d.space)

include heq

lemma hasDir_of_space (p : Path) : d'.hasDir p ↔ d.hasDir p := by
  simp only [space, Prod.mk.injEq] at heq
  rw [hasDir_iff, heq.1, ← hasDir_iff]

lemma hasFile_of_space (p : Path) : d'.hasFile p ↔ d.hasFile p := by
  simp only [space, Prod.mk.injEq] at heq
  rw [hasFile_iff, heq.2.1, ← hasFile_iff]

lemma caches_of_space : d'.caches = d.caches := by
  simp only [space, Prod.mk.injEq] at heq
  exact heq.2.2

end

/-- The caches are faithful and the maps are closed under parents. -/
structure Kept (u : Unicode) (d : Directory) : Prop where
  faithful : Faithful u d
  closed : Closed d

lemma kept_of_space (heq : d'.space = d.space) (h : Kept u d) : Kept u d' :=
  ⟨faithful_of_space heq h.faithful, closed_of_space heq h.closed⟩

lemma kept_putFilePath (h : Kept u d) (p : Path) (file : FileRecord) : Kept u (d.putFilePath p file) :=
  ⟨faithful_putFilePath h.faithful p file, closed_putFilePath h.closed p file⟩

lemma kept_linkTo (h : Kept u d) (src dst : Path) (file : FileRecord)
    (m : Metadata) : Kept u (d.linkTo src dst file m) := by
  refine kept_of_space ?_ (kept_putFilePath h dst file)
  unfold linkTo
  simp only
  generalize d.putFilePath dst file = d1
  have hset := space_setMetadataPath d1 dst
    { m with shortName := (d1.metadataOf dst).shortName }
  split
  · exact hset
  · exact hset

/-- A hard link keeps the caches faithful. -/
lemma kept_hardLink (h : Kept u d) {src dst : Bytes}
    (hlink : d.hardLink src dst = .ok d') : Kept u d' := by
  unfold hardLink at hlink
  simp only at hlink
  split at hlink
  · cases hlink
  next file hfile =>
  split at hlink
  · split at hlink
    · cases hlink
    next id hfree =>
    have hnext : Kept u { d with nextHardLink := id } := kept_of_space (d := d) rfl h
    generalize ({ d with nextHardLink := id } : Directory) = d0 at hnext hlink
    cases hlink
    exact kept_linkTo (kept_of_space (space_setMetadataPath d0 _ _) hnext) _ _ _ _
  · cases hlink
    exact kept_linkTo h _ _ _ _

/-- Removing a file keeps the caches faithful. -/
lemma kept_remove (h : Kept u d) (hrem : d.remove name = .ok d') : Kept u d' := by
  unfold remove at hrem
  simp only at hrem
  split at hrem
  · cases hrem
  generalize cleanPath name = p at hrem
  have hspace := space_dropMetadata { d with files := d.files.erase p } p
  generalize ({ d with files := d.files.erase p } : Directory).dropMetadata p = d1 at hspace hrem
  have hfile : ∀ q, d1.hasFile q ↔ q ≠ p ∧ d.hasFile q :=
    fun q => (hasFile_of_space hspace q).trans (d.files.isSome_find_erase _ q)
  have hdir : ∀ q, d1.hasDir q ↔ d.hasDir q := fun q => (hasDir_of_space hspace q).trans Iff.rfl
  have hcaches : d1.caches = d.caches := (caches_of_space hspace).trans rfl
  cases hrem
  constructor
  · refine Faithful.withoutIndex (faithful_namespaceEntryChanged h.faithful hcaches
      ((hdir _).mpr h.faithful.root) p _ ?_ ?_)
    · rintro q hq
      simp only [mem_candidates, hdir, hfile]
      by_cases hqp : q = p
      · have hroot := hq.resolve_left (not_not.mpr hqp)
        simp [hqp, hroot, h.faithful.root]
      · simp [hqp]
    · intro hroot
      simp [mem_candidates, hdir, hfile, hroot]
  intro q hq
  have hkeep : ∀ r, ({ d1.namespaceEntryChanged p (d1.hasDir p) with fatShortValid := false } :
      Directory).hasDir r ↔ d.hasDir r := by
    intro r
    rw [← hdir r, ← hasDir_namespaceEntryChanged d1 p (d1.hasDir p) r]
    rfl
  have hkeepFile : ∀ r, ({ d1.namespaceEntryChanged p (d1.hasDir p) with fatShortValid := false } :
      Directory).hasFile r ↔ r ≠ p ∧ d.hasFile r := by
    intro r
    rw [← hfile r, ← hasFile_namespaceEntryChanged d1 p (d1.hasDir p) r]
    rfl
  rw [hkeep, hkeepFile] at hq
  rw [hkeep]
  rcases hq with hq | hq
  · exact h.closed q (.inl hq)
  · exact h.closed q (.inr hq.2)

/-! ## Queries -/

lemma kept_of_faithful (h : Closed d) (hdirs : d'.dirs = d.dirs) (hfiles : d'.files = d.files)
    (hfaith : Faithful u d') : Kept u d' := by
  refine ⟨hfaith, fun p hp => ?_⟩
  unfold hasDir hasFile at hp
  unfold hasDir
  rw [hdirs, hfiles] at hp
  rw [hdirs]
  exact h p hp

section

variable (h : Kept u d)

include h

/-- The lists of children are what the maps give. -/
lemma ensureChildren_spec : Kept u d.ensureChildren ∧ d.ensureChildren.children = some d.buildChildren ∧
      d.ensureChildren.childrenRevision = d.ensureChildren.revision ∧
      d.ensureChildren.dirs = d.dirs ∧ d.ensureChildren.files = d.files := by
  have hbuilt : Kept u { d with children := some d.buildChildren, childrenRevision := d.revision } :=
    kept_of_faithful h.closed rfl rfl (h.faithful.withChildren rfl)
  unfold ensureChildren
  split
  next m hm =>
    split
    next hcur =>
      refine ⟨h, ?_, hcur, rfl, rfl⟩
      rw [hm, h.faithful.children m hm hcur]
    · exact ⟨hbuilt, rfl, rfl, rfl, rfl⟩
  · exact ⟨hbuilt, rfl, rfl, rfl, rfl⟩

/-- The query gives the children that the maps have. -/
lemma listDir_eq (name : Bytes) : (d.listDir name).1 = d.buildChildren (cleanPath name) := by
  unfold listDir childrenAt
  simp only
  rw [(ensureChildren_spec h).2.1]

/-- The query gives the files that the map has. -/
lemma sortedFileNames_spec : d.sortedFileNames.1 = d.buildSortedFiles ∧ Kept u d.sortedFileNames.2 ∧
      d.sortedFileNames.2.dirs = d.dirs ∧ d.sortedFileNames.2.files = d.files := by
  unfold sortedFileNames
  split
  next names hnames => exact ⟨h.faithful.sortedFiles names hnames, h, rfl, rfl⟩
  · refine ⟨rfl, ?_, rfl, rfl⟩
    refine kept_of_faithful h.closed rfl rfl { h.faithful with sortedFiles := ?_ }
    intro names hnames
    cases hnames
    rfl

lemma fileList_spec : d.fileList.1 = d.buildSortedFiles.map text ∧ Kept u d.fileList.2 := by
  unfold fileList
  split
  next values hvals => exact ⟨h.faithful.fileValues values hvals, h⟩
  obtain ⟨hnames, hkept, hdirs, hfiles⟩ := sortedFileNames_spec h
  generalize d.sortedFileNames = r at hnames hkept hdirs hfiles
  obtain ⟨names, d1⟩ := r
  simp only at hnames hkept hdirs hfiles ⊢
  subst hnames
  refine ⟨rfl, ?_⟩
  refine kept_of_faithful hkept.closed rfl rfl { hkept.faithful with fileValues := ?_ }
  intro values hvals
  cases hvals
  unfold buildSortedFiles
  rw [hfiles]

/-- The query gives the names that the maps have. -/
lemma pathNamesQuery_spec (lower includeEmpty : Bool) : (d.pathNamesQuery u lower includeEmpty).1 =
        buildPathNames u lower includeEmpty d.buildSortedFiles (d.dirs.entries.map Prod.fst) ∧
      Kept u (d.pathNamesQuery u lower includeEmpty).2 := by
  unfold pathNamesQuery
  split
  next snapshot hsnap => exact ⟨(h.faithful.pathNames lower includeEmpty snapshot hsnap).symm, h⟩
  obtain ⟨hnames, hkept, hdirs, hfiles⟩ := sortedFileNames_spec h
  generalize d.sortedFileNames = r at hnames hkept hdirs hfiles
  obtain ⟨names, d1⟩ := r
  simp only at hnames hkept hdirs hfiles ⊢
  subst hnames
  rw [← hdirs]
  split
  next err herr => exact ⟨herr.symm, hkept⟩
  next snapshot hsnap =>
  refine ⟨hsnap.symm, ?_⟩
  refine kept_of_faithful hkept.closed rfl rfl { hkept.faithful with pathNames := ?_ }
  intro l e snapshot' hslot
  simp only at hslot
  split at hslot
  next hsame =>
    cases hslot
    rw [hsame.1, hsame.2]
    unfold buildSortedFiles at hsnap ⊢
    rw [← hfiles] at hsnap
    exact hsnap
  · exact hkept.faithful.pathNames l e snapshot' hslot

/-- The query gives the aliases that the maps give. -/
lemma currentFATShortIndex_spec :
    (d.currentFATShortIndex u).1 = buildFATShortIndex u d ∧ Kept u (d.currentFATShortIndex u).2 := by
  unfold currentFATShortIndex
  split
  next hcur => exact ⟨h.faithful.fatShortIndex hcur.1 hcur.2, h⟩
  · exact ⟨rfl, kept_of_faithful h.closed rfl rfl
      { h.faithful with fatShortRev := le_rfl, fatShortIndex := fun _ _ => rfl }⟩

end

/-! ## Removal of an empty directory -/

/-- Taking a name out of two lists gives what rebuilding gives. -/
lemma update_remove (hemp : d.buildChildren p = []) (h : ∀ q, q ∈ d'.candidates ↔ q ≠ p ∧ q ∈ d.candidates) :
    Function.update (Function.update d.buildChildren p.dir ((d.buildChildren p.dir).erase p)) p [] =
      d'.buildChildren := by
  have hmem : ∀ parent q, q ∈ d'.buildChildren parent ↔ q ≠ p ∧ q ∈ d.buildChildren parent := by
    intro parent q
    rw [mem_buildChildren, mem_buildChildren, h, and_assoc]
  funext parent
  by_cases hself : parent = p
  · rw [hself, update_self]
    refine ext List.Pairwise.nil (d'.buildChildren_sorted p) fun q => ?_
    rw [hmem, hemp]
    simp
  rw [update_of_ne hself]
  by_cases hpar : parent = p.dir
  · rw [hpar, update_self]
    have hsorted := d.buildChildren_sorted p.dir
    refine ext (hsorted.sublist erase_sublist) (d'.buildChildren_sorted p.dir)
      fun q => ?_
    rw [hmem, hsorted.nodup.mem_erase_iff]
  rw [update_of_ne hpar]
  refine ext (d.buildChildren_sorted parent) (d'.buildChildren_sorted parent) fun q => ?_
  rw [hmem]
  constructor
  · intro hq
    refine ⟨?_, hq⟩
    rintro rfl
    exact hpar ((mem_buildChildren d parent q).mp hq).2.symm
  · exact fun hq => hq.2

lemma hasDir_erase (d : Directory) (p q : Path) :
    ({ d with dirs := d.dirs.erase p } : Directory).hasDir q ↔ q ≠ p ∧ d.hasDir q :=
  d.dirs.isSome_find_erase p q

/-- `rmdir` keeps the caches faithful. -/
lemma kept_removeEmptyDirectory (h : Kept u d) (hrem : d.removeEmptyDirectory name = .ok d') : Kept u d' := by
  unfold removeEmptyDirectory at hrem
  simp only at hrem
  generalize cleanPath name = p at hrem
  split at hrem
  · cases hrem
  next hroot =>
  split at hrem
  · cases hrem
  split at hrem
  · cases hrem
  next hemp =>
  obtain ⟨hkept, hkids, -, hdirs, hfiles⟩ := ensureChildren_spec h
  have hbuild : d.ensureChildren.buildChildren = d.buildChildren :=
    buildChildren_congr (mem_candidates_congr (by rw [hdirs]) (by rw [hfiles]))
  rw [← hbuild] at hkids
  generalize d.ensureChildren = e at hkept hkids hemp hrem
  have hat : e.childrenAt = e.buildChildren := by
    funext q
    unfold childrenAt
    rw [hkids]
  rw [hat] at hemp hrem
  rw [not_or, not_not] at hemp
  -- the maps without the directory
  have hdir := hasDir_erase e p
  have hspace := space_dropMetadata { e with
    children := some (Function.update (Function.update e.buildChildren p.dir
      ((e.buildChildren p.dir).erase p)) p [])
    dirs := e.dirs.erase p } p
  have hdir' := fun q => (hasDir_of_space hspace q).trans (hdir q)
  have hfile' := fun q => hasFile_of_space hspace q
  have hcaches := caches_of_space hspace
  generalize ({ e with
    children := some (Function.update (Function.update e.buildChildren p.dir
      ((e.buildChildren p.dir).erase p)) p [])
    dirs := e.dirs.erase p } : Directory).dropMetadata p = d1 at hdir' hfile' hcaches hrem
  simp only [caches, Prod.mk.injEq] at hcaches
  obtain ⟨hrev, -, -, -, hpatched, hkidsRev, -, hfatRev, -⟩ := hcaches
  have hfile : ∀ q, d1.hasFile q ↔ e.hasFile q := fun q => (hfile' q).trans Iff.rfl
  have hcandidates : ∀ q, q ∈ d1.candidates ↔ q ≠ p ∧ q ∈ e.candidates := by
    intro q
    simp only [mem_candidates, hdir', hfile]
    by_cases hq : q = p
    · simp [hq, hemp.1]
    · simp [hq]
  have hinval : Faithful u d1.invalidateNamespace := by
    refine faithful_invalidateNamespace u ((hdir' _).mpr ⟨Ne.symm hroot, hkept.faithful.root⟩) ?_ ?_
    · rw [hkidsRev, hrev]
      exact hkept.faithful.childrenRevision
    · rw [hfatRev, hrev]
      exact hkept.faithful.fatShortRev
  have hpat : Function.update (Function.update e.buildChildren p.dir
      ((e.buildChildren p.dir).erase p)) p [] = d1.invalidateNamespace.buildChildren :=
    update_remove hemp.2 hcandidates
  have hcur := (hinval.withChildren hpat).withoutIndex
  cases hrem
  refine ⟨?_, ?_⟩
  · refine faithful_of_space ?_ hcur
    unfold space caches invalidateNamespace
    simp only [hpatched]
  intro q hq
  have hq' : d1.hasDir q ∨ d1.hasFile q := hq
  have hgoal : d1.hasDir q.dir := by
    rw [hdir', hfile] at hq'
    rw [hdir']
    refine ⟨?_, hkept.closed q (hq'.imp And.right id)⟩
    -- a child of the directory would be listed
    intro hpar
    have hkid : q ∈ e.buildChildren p := by
      rw [mem_buildChildren, mem_candidates]
      refine ⟨?_, hpar⟩
      have hnotRoot : q ≠ root := by
        rintro rfl
        exact hroot hpar.symm
      by_cases hqdir : e.hasDir q
      · exact .inl ⟨hnotRoot, hqdir⟩
      · exact .inr ⟨hq'.resolve_left fun hin => hqdir hin.2, hqdir⟩
    rw [hemp.2] at hkid
    exact absurd hkid not_mem_nil
  exact hgoal

/-! ## Setters -/

lemma space_setReparse {tag : Nat} {data : File}
    (hset : d.setReparse name tag data = .ok d') : d'.space = d.space := by
  unfold setReparse at hset
  obtain ⟨-, -, hset⟩ := bind_ok hset
  split at hset
  · cases hset
  split at hset
  · cases hset
  simp only at hset
  split at hset
  · cases hset
  · cases hset
    exact space_setMetadataPath d _ _

lemma space_setAttributes {attrs : Attributes}
    (hset : d.setAttributes name attrs = .ok d') : d'.space = d.space := by
  unfold setAttributes at hset
  obtain ⟨-, -, hset⟩ := bind_ok hset
  cases hset
  rfl

lemma space_sets (hset : Sets d d') : d'.space = d.space := by
  obtain ⟨p, share, -, rfl⟩ := hset
  exact (space_shareMetadata _ _ _).trans (space_setMetadataPath d _ _)

lemma space_setFileAttributes {attrs : Nat}
    (hset : d.setFileAttributes name attrs = .ok d') : d'.space = d.space := by
  unfold setFileAttributes at hset
  obtain ⟨-, -, hset⟩ := bind_ok hset
  split at hset
  · cases hset
  · cases hset
    refine (space_shareFileAttributes _ _).trans ?_
    exact space_setMetadataPath d _ _

/-! ## Runs -/

/-- Empty caches are faithful. -/
lemma faithful_of_none (hroot : d.hasDir root) (hnone : d.caches =
      (d.revision, fun _ _ => none, none, none, none, 0, d.fatShortIndex, 0, false)) : Faithful u d := by
  simp only [caches, Prod.mk.injEq] at hnone
  obtain ⟨-, hnames, hsorted, hvals, hkids, hkidsRev, -, hfatRev, hval⟩ := hnone
  constructor <;> simp_all

lemma kept_new (u : Unicode) : Kept u new := by
  refine ⟨faithful_of_none (by decide +kernel) rfl, ?_⟩
  have hdir : ∀ q, new.hasDir q ↔ q = root := by
    intro q
    refine (SortedMap.isSome_find_insert ∅ root () q).trans ?_
    simp
  intro p hp
  have hroot : p = root := by
    rcases hp with hp | hp
    · exact (hdir p).mp hp
    · exact absurd hp (by simp [hasFile, new])
  rw [hroot]
  exact (hdir _).mpr rfl

/-- Every call keeps the caches faithful. -/
lemma kept_step (u : Unicode) (h : Kept u d) (op : Op) : Kept u (d.step u op) := by
  cases op with
  | mkdir name => exact ⟨faithful_mkdirPath h.faithful _, closed_mkdirPath h.closed _⟩
  | putFile name file => exact kept_putFilePath h _ file
  | hardLink source dst => exact after_keeps h fun _ => kept_hardLink h
  | remove name => exact after_keeps h fun _ => kept_remove h
  | removeEmptyDirectory name =>
    exact afterRmdir_keeps h (ensureChildren_spec h).1 fun _ => kept_removeEmptyDirectory h
  | clone => exact kept_of_faithful h.closed rfl rfl (faithful_of_none h.faithful.root rfl)
  | setMetadata name metadata => exact kept_of_space (space_setMetadataPath d _ metadata) h
  | setAttributes name attributes => exact after_keeps h fun _ hset => kept_of_space (space_setAttributes hset) h
  | setReparse name tag data => exact after_keeps h fun _ hset => kept_of_space (space_setReparse hset) h
  | setSecurity name descriptor =>
    exact after_keeps h fun _ hset => kept_of_space (space_sets (sets_setSecurity hset)) h
  | setTimes name creation write access =>
    exact after_keeps h fun _ hset => kept_of_space (space_sets (sets_setTimes hset)) h
  | setExtendedAttributes name eas =>
    exact after_keeps h fun _ hset => kept_of_space (space_sets (sets_setExtendedAttributes hset)) h
  | setFileAttributes name attributes =>
    exact after_keeps h fun _ hset => kept_of_space (space_setFileAttributes hset) h
  | listDir name => exact (ensureChildren_spec h).1
  | files => exact (fileList_spec h).2
  | pathNames lower includeEmpty => exact (pathNamesQuery_spec h lower includeEmpty).2
  | fatShortPath name => exact (currentFATShortIndex_spec h).2

/-- Every sequence of calls keeps the caches faithful. -/
lemma kept_run (u : Unicode) (ops : List Op) : Kept u (new.run u ops) :=
  run_keeps (P := Kept u) (fun _ op h => kept_step u h op) (kept_new u) ops

/-- **Queries do not see the caches.**  After any sequence of operations every query answers
from the maps of directories and files as they are, and these maps are closed under parents. -/
theorem queries_from_maps (u : Unicode) (ops : List Op) :
    (∀ name, ((new.run u ops).listDir name).1 = (new.run u ops).buildChildren (cleanPath name)) ∧
    (∀ name, (new.run u ops).hasDir (cleanPath name) → cleanPath name ≠ Path.root →
      ((∃ d', (new.run u ops).removeEmptyDirectory name = .ok d') ↔
        ¬ (new.run u ops).hasFile (cleanPath name) ∧ (new.run u ops).buildChildren (cleanPath name) = [])) ∧
    (new.run u ops).sortedFileNames.1 = (new.run u ops).buildSortedFiles ∧
    (new.run u ops).fileList.1 = (new.run u ops).buildSortedFiles.map Path.text ∧
    (∀ lower includeEmpty, ((new.run u ops).pathNamesQuery u lower includeEmpty).1 =
      buildPathNames u lower includeEmpty (new.run u ops).buildSortedFiles
        ((new.run u ops).dirs.entries.map Prod.fst)) ∧
    (∀ name, ((new.run u ops).fatShortPath u name).1 =
      fatShortPathWith u (buildFATShortIndex u (new.run u ops)) name) ∧
    ∀ p, (new.run u ops).hasDir p ∨ (new.run u ops).hasFile p → (new.run u ops).hasDir p.dir := by
  have h := kept_run u ops
  generalize new.run u ops = d at h ⊢
  refine ⟨listDir_eq h, fun name hdir hroot => ?_, (sortedFileNames_spec h).1, (fileList_spec h).1,
    fun lower includeEmpty => (pathNamesQuery_spec h lower includeEmpty).1, fun name => ?_, h.closed⟩
  · obtain ⟨-, hkids, -, -, hfiles⟩ := ensureChildren_spec h
    have hfile : d.ensureChildren.hasFile (cleanPath name) = d.hasFile (cleanPath name) := by
      unfold hasFile
      rw [hfiles]
    have hat : d.ensureChildren.childrenAt (cleanPath name) = d.buildChildren (cleanPath name) := by
      unfold childrenAt
      rw [hkids]
    unfold removeEmptyDirectory
    simp only
    rw [if_neg hroot, if_neg (not_not.mpr hdir), hfile, hat]
    split
    next hfull =>
      constructor
      · rintro ⟨d', hd'⟩
        cases hd'
      · rintro ⟨hnot, hnil⟩
        rcases hfull with hfull | hfull
        · exact absurd hfull hnot
        · exact absurd hnil hfull
    next hemp =>
      rw [not_or, not_not] at hemp
      exact ⟨fun _ => hemp, fun _ => ⟨_, rfl⟩⟩
  · unfold fatShortPath
    simp only
    rw [(currentFATShortIndex_spec h).1]

/-- A directory inside another one, both listed once. -/
def nestedDirectories : List Op :=
  [.mkdir (ascii "a/b"), .listDir (ascii "a"), .listDir (ascii "a/b")]

/-- The inner directory can be removed, the outer one cannot, and it is there as a parent. -/
theorem queries_from_maps_nestedDirectories :
    (∃ d', (new.run plain nestedDirectories).removeEmptyDirectory (ascii "a/b") = .ok d') ∧
      (¬ ∃ d', (new.run plain nestedDirectories).removeEmptyDirectory (ascii "a") = .ok d') ∧
      (new.run plain nestedDirectories).hasDir (cleanPath (ascii "a/b")).dir := by
  obtain ⟨-, hremove, -, -, -, -, hclosed⟩ := queries_from_maps plain nestedDirectories
  have hinner : (new.run plain nestedDirectories).hasDir (cleanPath (ascii "a/b")) := by decide +kernel
  have houter : (new.run plain nestedDirectories).hasDir (cleanPath (ascii "a")) := by decide +kernel
  refine ⟨(hremove _ hinner (by decide +kernel)).mpr (by decide +kernel), fun hremoved => ?_, hclosed _ (.inl hinner)⟩
  have hempty := ((hremove _ houter (by decide +kernel)).mp hremoved).2
  exact absurd hempty (by decide +kernel)

end Directory

end Trex.Filesystem
