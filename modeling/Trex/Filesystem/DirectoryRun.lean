import Trex.Filesystem.Directory

/-!
# Operations on a directory

`Op` lists the mutators and the queries; a call that fails changes nothing but the derived structures.
A copy made by `clone` goes on as a run of its own.
-/

namespace Trex.Filesystem

/-- The mutators and the queries. -/
inductive Op where
  | mkdir (name : Bytes)
  | putFile (name : Bytes) (file : FileRecord)
  | hardLink (source destination : Bytes)
  | remove (name : Bytes)
  | removeEmptyDirectory (name : Bytes)
  | clone
  | setMetadata (name : Bytes) (metadata : Metadata)
  | setAttributes (name : Bytes) (attributes : Attributes)
  | setReparse (name : Bytes) (tag : Nat) (data : File)
  | setSecurity (name descriptor : Bytes)
  | setTimes (name : Bytes) (creation write access : Nat)
  | setExtendedAttributes (name : Bytes) (eas : List ExtendedAttribute)
  | setFileAttributes (name : Bytes) (attributes : Nat)
  | listDir (name : Bytes)
  | files
  | pathNames (lower includeEmpty : Bool)
  | fatShortPath (name : Bytes)

namespace Directory

/-- A failed call changes nothing. -/
def after (d : Directory) (r : Except DirectoryError Directory) : Directory :=
  match r with
  | .ok d' => d'
  | .error _ => d

/-- The same for `rmdir`: a directory that is not empty has had its children listed. -/
def afterRmdir (d : Directory) (r : Except DirectoryError Directory) : Directory :=
  match r with
  | .ok d' => d'
  | .error (.rmdirNotEmpty _) => d.ensureChildren
  | .error _ => d

/-- One call. -/
def step (u : Unicode) (d : Directory) : Op → Directory
  | .mkdir name => d.mkdir name
  | .putFile name file => d.putFile name file
  | .hardLink source destination => d.after (d.hardLink source destination)
  | .remove name => d.after (d.remove name)
  | .removeEmptyDirectory name => d.afterRmdir (d.removeEmptyDirectory name)
  | .clone => d.clone
  | .setMetadata name metadata => d.setMetadata name metadata
  | .setAttributes name attributes => d.after (d.setAttributes name attributes)
  | .setReparse name tag data => d.after (d.setReparse name tag data)
  | .setSecurity name descriptor => d.after (d.setSecurity name descriptor)
  | .setTimes name creation write access => d.after (d.setTimes name creation write access)
  | .setExtendedAttributes name eas => d.after (d.setExtendedAttributes u name eas)
  | .setFileAttributes name attributes => d.after (d.setFileAttributes name attributes)
  | .listDir name => (d.listDir name).2
  | .files => d.fileList.2
  | .pathNames lower includeEmpty => (d.pathNamesQuery u lower includeEmpty).2
  | .fatShortPath name => (d.fatShortPath u name).2

def run (u : Unicode) (d : Directory) (ops : List Op) : Directory := ops.foldl (step u) d

/-- Unicode tables that keep every character. -/
def plain : Unicode where
  toUpper := id
  toLower := id
  fold := id

variable {P : Directory → Prop} {d : Directory} {r : Except DirectoryError Directory}

/-- A call that fails keeps what held before it. -/
lemma after_keeps (h : P d) (hok : ∀ d', r = .ok d' → P d') : P (d.after r) := by
  unfold after
  split
  · exact hok _ rfl
  · exact h

lemma afterRmdir_keeps (h : P d) (hlisted : P d.ensureChildren)
    (hok : ∀ d', r = .ok d' → P d') : P (d.afterRmdir r) := by
  unfold afterRmdir
  split
  · exact hok _ rfl
  · exact hlisted
  · exact h

/-- The rule for invariants of a run. -/
lemma run_keeps {u : Unicode} (hstep : ∀ d op, P d → P (d.step u op)) (h : P d)
    (ops : List Op) : P (d.run u ops) := by
  unfold run
  induction ops generalizing d with
  | nil => exact h
  | cons op ops ih => exact ih (hstep d op h)

/-- What hard links are about. -/
def links (d : Directory) :=
  (d.files, d.attributes, d.metadata, d.hardLinkRefs, d.hardLinkNames)

/-! ## What the derived structures do not touch -/

@[simp] lemma links_namespaceEntryChanged (d : Directory) (p : Path) (present : Bool) :
    (d.namespaceEntryChanged p present).links = d.links := by
  unfold namespaceEntryChanged
  split
  · split <;> rfl
  · rfl

@[simp] lemma links_mkdirLoop (turns : Nat) (d : Directory) (p : Path) : (mkdirLoop turns d p).links = d.links := by
  induction turns generalizing d p with
  | zero => rfl
  | succ turns ih =>
  rw [mkdirLoop]
  have hfirst : (if d.hasDir p then d
      else ({ d with dirs := d.dirs.insert p () } : Directory).namespaceEntryChanged p true).links =
      d.links := by
    split
    · rfl
    · rw [links_namespaceEntryChanged]
      rfl
  split
  · exact hfirst
  · rw [ih]
    exact hfirst

section

variable (d : Directory)

@[simp] lemma links_mkdirPath (p : Path) : (d.mkdirPath p).links = d.links :=
  links_mkdirLoop _ d p

@[simp] lemma links_ensureChildren : d.ensureChildren.links = d.links := by
  unfold ensureChildren
  split
  · split <;> rfl
  · rfl

@[simp] lemma links_sortedFileNames : d.sortedFileNames.2.links = d.links := by
  unfold sortedFileNames
  split <;> rfl

@[simp] lemma links_fileList : d.fileList.2.links = d.links := by
  unfold fileList
  split
  · rfl
  · exact links_sortedFileNames d

end

section

variable (u : Unicode) (d : Directory)

@[simp] lemma links_pathNamesQuery (lower includeEmpty : Bool) :
    (d.pathNamesQuery u lower includeEmpty).2.links = d.links := by
  unfold pathNamesQuery
  split
  · rfl
  simp only
  split
  · exact links_sortedFileNames d
  · exact links_sortedFileNames d

lemma links_currentFATShortIndex : (d.currentFATShortIndex u).2.links = d.links := by
  unfold currentFATShortIndex
  split <;> rfl

@[simp] lemma links_fatShortPath (name : Bytes) : (d.fatShortPath u name).2.links = d.links :=
  links_currentFATShortIndex u d

end

/-- Equal links are equal maps. -/
lemma fields_of_links {d d' : Directory} (h : d.links = d'.links) :
    d.files = d'.files ∧ d.attributes = d'.attributes ∧ d.metadata = d'.metadata ∧
      d.hardLinkRefs = d'.hardLinkRefs ∧ d.hardLinkNames = d'.hardLinkNames := by
  simpa [links] using h

lemma links_putFilePath (d : Directory) (p : Path) (file : FileRecord) : (d.putFilePath p file).links =
      (d.files.insert p { file with writeOrder := (d.mkdirPath p.dir).nextWriteOrder + 1 },
        d.attributes, d.metadata, d.hardLinkRefs, d.hardLinkNames) := by
  obtain ⟨hfiles, hattrs, hmeta, hrefs, hnames⟩ := fields_of_links (links_mkdirPath d p.dir)
  unfold putFilePath
  simp only
  generalize d.mkdirPath p.dir = d1 at *
  split
  · simp only [links, hfiles, hattrs, hmeta, hrefs, hnames]
  obtain ⟨hfiles', hattrs', hmeta', hrefs', hnames'⟩ := fields_of_links
    (links_namespaceEntryChanged { d1 with nextWriteOrder := d1.nextWriteOrder + 1 } p true)
  generalize namespaceEntryChanged { d1 with nextWriteOrder := d1.nextWriteOrder + 1 } p true =
    d2 at hfiles' hattrs' hmeta' hrefs' hnames' ⊢
  simp only [links]
  rw [hfiles', hattrs', hmeta', hrefs', hnames', hfiles, hattrs, hmeta, hrefs, hnames]

end Directory

end Trex.Filesystem
