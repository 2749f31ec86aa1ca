import Trex.Lib.Assoc
import Trex.Filesystem.Path
import Trex.Filesystem.ShortNames
import Trex.Filesystem.Records

/-!
# The in-memory directory tree (`filesystem/directory.go`)

The maps of directories, files, attributes and metadata, the tables of hard-link identities, and four
structures derived on demand.  Maps are kept in the order of their keys: every loop of the source over
one sorts what it collects or does not depend on the order.
-/

namespace Trex.Filesystem

open Bytes (ascii)

/-- The keys and values of a snapshot of the path names, in the order of the keys. -/
abbrev PathNames := List (Bytes × Bytes)

/-- The maps of a directory and the structures derived from them, with their marks. -/
structure Directory where
  dirs : SortedMap Path Unit
  files : SortedMap Path FileRecord := ∅
  attributes : SortedMap Path Attributes := ∅
  metadata : SortedMap Path Metadata := ∅
  hardLinkRefs : SortedMap Nat Nat := ∅
  hardLinkNames : SortedMap Nat (List Path) := ∅
  nextHardLink : Nat := 0
  nextWriteOrder : Nat := 0
  revision : Nat := 0
  /-- by the options `lower` and `include_empty` -/
  pathNames : Bool → Bool → Option PathNames := fun _ _ => none
  sortedFiles : Option (List Path) := none
  fileValues : Option (List Bytes) := none
  /-- a map from a directory to its children; a missing entry is an empty list -/
  children : Option (Path → List Path) := none
  childrenRevision : Nat := 0
  fatShortIndex : List (List Bytes × Bytes) := []
  fatShortRev : Nat := 0
  fatShortValid : Bool := false

/-- The errors of the mutators and queries. -/
inductive DirectoryError where
  | linkSource (source : Path)
  | noIdentity
  | missing (call : String) (name : Bytes)
  | reparseTag
  | reparsePayload
  | reparseLinked
  | descriptor
  | fileAttributes (attributes : Nat)
  | extendedAttribute (name : Bytes)
  | extendedAttributesSize
  | rmdirRoot
  | rmdirMissing (name : Path)
  | rmdirNotEmpty (name : Path)
  | ambiguousNames (previous name : Bytes)

def new : Directory := { dirs := (∅ : SortedMap Path Unit).insert Path.root () }

namespace Directory

def hasDir (d : Directory) (p : Path) : Bool := (d.dirs.find p).isSome

def hasFile (d : Directory) (p : Path) : Bool := (d.files.find p).isSome

/-- The metadata of a path, empty for none. -/
def metadataOf (d : Directory) (p : Path) : Metadata := (d.metadata.find p).getD {}

/-- The number of names of an identity. -/
def refs (d : Directory) (id : Nat) : Nat := (d.hardLinkRefs.find id).getD 0

/-- The names of an identity. -/
def names (d : Directory) (id : Nat) : List Path := (d.hardLinkNames.find id).getD []

/-! ## Changes of the namespace -/

/-- Drops what depends on the names. -/
def invalidateNamespace (d : Directory) : Directory :=
  { d with
    revision := d.revision + 1
    pathNames := fun _ _ => none
    sortedFiles := none
    fileValues := none }

/-- `sort.SearchStrings`. -/
def searchPaths (names : List Path) (name : Path) : Nat :=
  Search.search names.length fun i => decide (name ≤ names.getD i Path.root)

/-- The children of a directory after `name` appeared or went away. -/
def changeNames (names : List Path) (name : Path) (present : Bool) : List Path :=
  let i := searchPaths names name
  let present' := decide (names[i]? = some name)
  if present ∧ ¬ present' then names.take i ++ name :: names.drop i
  else if ¬ present ∧ present' then names.take i ++ names.drop (i + 1)
  else names

/-- Patches the lists of children, or leaves them to the next query. -/
def namespaceEntryChanged (d : Directory) (name : Path) (present : Bool) : Directory :=
  match d.children with
  | some children =>
    if d.childrenRevision = d.revision then
      let children := if name ≠ Path.root then
          Function.update children name.dir (changeNames (children name.dir) name present)
        else children
      let d := ({ d with children := some children } : Directory).invalidateNamespace
      { d with childrenRevision := d.revision }
    else d.invalidateNamespace
  | none => d.invalidateNamespace

/-- The loop of `Mkdir`, from the directory up to the root. -/
def mkdirLoop : Nat → Directory → Path → Directory
  | 0, d, _ => d
  | turns + 1, d, p =>
    let d := if d.hasDir p then d
      else ({ d with dirs := d.dirs.insert p () } : Directory).namespaceEntryChanged p true
    if p = Path.root then d else mkdirLoop turns d p.dir

/-- Makes a directory and its parents. -/
def mkdirPath (d : Directory) (p : Path) : Directory := mkdirLoop (p.parts.length + 1) d p

def mkdir (d : Directory) (name : Bytes) : Directory := d.mkdirPath (cleanPath name)

/-- Makes the parent, stores the file and stamps its order. -/
def putFilePath (d : Directory) (p : Path) (file : FileRecord) : Directory :=
  let d := d.mkdirPath p.dir
  let d := { d with nextWriteOrder := d.nextWriteOrder + 1 }
  let file := { file with writeOrder := d.nextWriteOrder }
  let d := if d.hasFile p then d else d.namespaceEntryChanged p true
  { d with files := d.files.insert p file }

def putFile (d : Directory) (name : Bytes) (file : FileRecord) : Directory :=
  d.putFilePath (cleanPath name) file

/-! ## Metadata -/

/-- The alias lists after `name` changes its identity. -/
def moveName (names : SortedMap Nat (List Path)) (p : Path) (oldID newID : Nat) :
    SortedMap Nat (List Path) :=
  let names := if oldID ≠ 0 then
      let aliases := ((names.find oldID).getD []).erase p
      if aliases = [] then names.erase oldID else names.insert oldID aliases
    else names
  if newID ≠ 0 then names.insert newID ((names.find newID).getD [] ++ [p]) else names

/-- The reference counts and the next identity after a path changes its identity. -/
def moveRef (refs : SortedMap Nat Nat) (next oldID newID : Nat) : SortedMap Nat Nat × Nat :=
  let (refs, next) := if oldID ≠ 0 then
      let count := (refs.find oldID).getD 0 - 1
      if count = 0 then (refs.erase oldID, if oldID < next then oldID else next)
      else (refs.insert oldID count, next)
    else (refs, next)
  (if newID ≠ 0 then refs.insert newID ((refs.find newID).getD 0 + 1) else refs, next)

/-- Moves the name between the groups if the identity changes. -/
def setMetadataPath (d : Directory) (p : Path) (metadata : Metadata) : Directory :=
  let oldID := (d.metadataOf p).hardLink
  let newID := metadata.hardLink
  let d := if oldID ≠ newID then
      let (refs, next) := moveRef d.hardLinkRefs d.nextHardLink oldID newID
      { d with
        hardLinkNames := moveName d.hardLinkNames p oldID newID
        hardLinkRefs := refs
        nextHardLink := next }
    else d
  { d with metadata := d.metadata.insert p metadata }

def setMetadata (d : Directory) (name : Bytes) (metadata : Metadata) : Directory :=
  d.setMetadataPath (cleanPath name) metadata

/-- Erases the metadata and attributes of a path, which leaves its group. -/
def dropMetadata (d : Directory) (p : Path) : Directory :=
  let d := d.setMetadataPath p {}
  { d with metadata := d.metadata.erase p, attributes := d.attributes.erase p }

/-- The loop over the aliases of a path that shares its identity: `share` copies what
belongs to the file. -/
def shareMetadata (d : Directory) (m : Metadata) (share : Metadata → Metadata) : Directory :=
  if m.hardLink ≠ 0 ∧ d.refs m.hardLink > 1 then
    (d.names m.hardLink).foldl (fun d p =>
      if (d.metadataOf p).hardLink = m.hardLink then
        { d with metadata := d.metadata.insert p (share (d.metadataOf p)) }
      else d) d
  else d

/-- A setter needs a path that exists. -/
def guardPath (d : Directory) (call : String) (name : Bytes) (p : Path) :
    Except DirectoryError Unit :=
  if d.hasDir p ∨ d.hasFile p then .ok () else .error (.missing call name)

def setReparse (d : Directory) (name : Bytes) (tag : Nat) (data : File) :
    Except DirectoryError Directory := do
  let p := cleanPath name
  d.guardPath "set_reparse" name p
  if tag / 2 ^ 31 % 2 = 0 ∨ tag % 2 ^ 16 < 2 then .error .reparseTag
  else if data.size > 0x3ff8 then .error .reparsePayload
  else
    let metadata := d.metadataOf p
    if metadata.hardLink ≠ 0 ∧ d.refs metadata.hardLink > 1 then .error .reparseLinked
    else .ok (d.setMetadataPath p { metadata with reparseTag := tag, reparseData := some data })

def setAttributes (d : Directory) (name : Bytes) (attributes : Attributes) :
    Except DirectoryError Directory := do
  let p := cleanPath name
  d.guardPath "set_attributes" name p
  return { d with attributes := d.attributes.insert p attributes }

def setSecurity (d : Directory) (name : Bytes) (descriptor : Bytes) :
    Except DirectoryError Directory := do
  let p := cleanPath name
  d.guardPath "set_security" name p
  -- revision 1, and the self-relative bit of the control word
  if descriptor.length < 20 ∨ descriptor.getD 0 0 ≠ 1 ∨ (descriptor.getD 3 0).toNat / 128 = 0 then
    .error .descriptor
  else
    let metadata := { d.metadataOf p with securityDescriptor := descriptor }
    .ok ((d.setMetadataPath p metadata).shareMetadata metadata fun other =>
      { other with securityDescriptor := descriptor })

def setTimes (d : Directory) (name : Bytes) (creation write access : Nat) :
    Except DirectoryError Directory := do
  let p := cleanPath name
  d.guardPath "set_times" name p
  let times := fun m : Metadata =>
    { m with creationTime := creation, lastWriteTime := write, lastAccessTime := access }
  return (d.setMetadataPath p (times (d.metadataOf p))).shareMetadata (times (d.metadataOf p)) times

/-- Names, their uniqueness and the two size limits. -/
def validateExtendedAttributes (u : Unicode) :
    Nat → Nat → List Bytes → List ExtendedAttribute → Except DirectoryError Unit
  | _, _, _, [] => .ok ()
  | packed, unpacked, seen, ea :: eas =>
    let key := u.upperString ea.name
    if ea.name.length = 0 ∨ ea.name.length > 255 ∨ 0 ∈ ea.name ∨ ea.value.length > 65535 ∨
        ea.flags.toNat % 128 ≠ 0 ∨ key ∈ seen then .error (.extendedAttribute ea.name)
    else
      let packed := packed + 5 + ea.name.length + ea.value.length
      let unpacked := unpacked + (8 + ea.name.length + 1 + ea.value.length + 3) / 4 * 4
      if packed > 65535 ∨ unpacked > 65536 then .error .extendedAttributesSize
      else validateExtendedAttributes u packed unpacked (key :: seen) eas

def setExtendedAttributes (u : Unicode) (d : Directory) (name : Bytes) (eas : List ExtendedAttribute) :
    Except DirectoryError Directory := do
  let p := cleanPath name
  d.guardPath "set_extended_attributes" name p
  validateExtendedAttributes u 0 0 [] eas
  let set := fun m : Metadata => { m with extendedAttributes := eas }
  return (d.setMetadataPath p (set (d.metadataOf p))).shareMetadata (set (d.metadataOf p)) set

def writableAttributes : Nat := 0x1 + 0x2 + 0x4 + 0x20 + 0x80 + 0x100 + 0x1000 + 0x2000

/-- The loop of `SetFileAttributes` also drops the portable attributes of the aliases. -/
def shareFileAttributes (d : Directory) (m : Metadata) : Directory :=
  if m.hardLink ≠ 0 ∧ d.refs m.hardLink > 1 then
    (d.names m.hardLink).foldl (fun d p =>
      if (d.metadataOf p).hardLink = m.hardLink then
        { d with
          metadata := d.metadata.insert p { d.metadataOf p with
            fileAttributes := m.fileAttributes, hasFileAttributes := true }
          attributes := d.attributes.erase p }
      else d) d
  else d

def setFileAttributes (d : Directory) (name : Bytes) (attributes : Nat) :
    Except DirectoryError Directory := do
  let p := cleanPath name
  d.guardPath "set_file_attributes" name p
  if attributes &&& writableAttributes ≠ attributes then .error (.fileAttributes attributes)
  else
    let old := d.metadataOf p
    -- the structural flags stay, except that of a directory
    let kept := old.fileAttributes - (old.fileAttributes &&& (writableAttributes ||| 0x10))
    let value := kept ||| (attributes - (attributes &&& 0x80)) ||| if d.hasDir p then 0x10 else 0
    let m := { old with fileAttributes := value, hasFileAttributes := true }
    let d := d.setMetadataPath p m
    let d := { d with attributes := d.attributes.erase p }
    .ok (d.shareFileAttributes m)

/-! ## Links -/

/-- The loop of `HardLink` over the identities, at most one turn for each that is taken. -/
def freeIdentity (d : Directory) : Nat → Nat → Option Nat
  | 0, _ => none
  | turns + 1, id =>
    if id ≥ 2 ^ 64 then none
    else if d.refs id = 0 then some id
    else freeIdentity d turns (id + 1)

/-- The link itself, once the source has an identity. -/
def linkTo (d : Directory) (source destination : Path) (file : FileRecord) (metadata : Metadata) :
    Directory :=
  let d := d.putFilePath destination file
  let d := d.setMetadataPath destination
    { metadata with shortName := (d.metadataOf destination).shortName }
  match d.attributes.find source with
  | some attrs => { d with attributes := d.attributes.insert destination attrs }
  | none => { d with attributes := d.attributes.erase destination }

/-- The source gets an identity if it has none, and the destination joins its group. -/
def hardLink (d : Directory) (source destination : Bytes) : Except DirectoryError Directory :=
  let source := cleanPath source
  let destination := cleanPath destination
  match d.files.find source with
  | none => .error (.linkSource source)
  | some file =>
    let metadata := d.metadataOf source
    if metadata.hardLink = 0 then
      let start := if d.nextHardLink = 0 then 1 else d.nextHardLink
      match d.freeIdentity (d.hardLinkRefs.entries.length + 1) start with
      | none => .error .noIdentity
      | some id =>
        let metadata := { metadata with hardLink := id }
        let d := ({ d with nextHardLink := id } : Directory).setMetadataPath source metadata
        .ok (d.linkTo source destination file metadata)
    else .ok (d.linkTo source destination file metadata)

/-! ## Removal -/

/-- Removes a file with its metadata. -/
def remove (d : Directory) (name : Bytes) : Except DirectoryError Directory :=
  let p := cleanPath name
  if ¬ d.hasFile p then .error (.missing "remove" name)
  else
    let d := { d with files := d.files.erase p }
    let d := d.dropMetadata p
    let d := d.namespaceEntryChanged p (d.hasDir p)
    .ok { d with fatShortValid := false }

/-- The names that are children of something. -/
def candidates (d : Directory) : List Path :=
  (d.dirs.entries.map Prod.fst).filter (fun p => decide (p ≠ Path.root)) ++
    (d.files.entries.map Prod.fst).filter fun p => !d.hasDir p

/-- The children of a directory, computed from the maps. -/
def buildChildren (d : Directory) (parent : Path) : List Path :=
  ((d.candidates).filter fun p => decide (p.dir = parent)).insertionSort (· ≤ ·)

/-- Rebuilds the lists of children unless they are current. -/
def ensureChildren (d : Directory) : Directory :=
  match d.children with
  | some _ =>
    if d.childrenRevision = d.revision then d
    else { d with children := some d.buildChildren, childrenRevision := d.revision }
  | none => { d with children := some d.buildChildren, childrenRevision := d.revision }

/-- The children of a path in the lists. -/
def childrenAt (d : Directory) (p : Path) : List Path :=
  match d.children with
  | some children => children p
  | none => []

/-- `rmdir`, which refuses the root, files and directories with children. -/
def removeEmptyDirectory (d : Directory) (name : Bytes) : Except DirectoryError Directory :=
  let p := cleanPath name
  if p = Path.root then .error .rmdirRoot
  else if ¬ d.hasDir p then .error (.rmdirMissing p)
  else
    let d := d.ensureChildren
    if d.hasFile p ∨ d.childrenAt p ≠ [] then .error (.rmdirNotEmpty p)
    else
      let children := Function.update
        (Function.update d.childrenAt p.dir ((d.childrenAt p.dir).erase p)) p []
      let d := { d with children := some children, dirs := d.dirs.erase p }
      let d := (d.dropMetadata p).invalidateNamespace
      .ok { d with childrenRevision := d.revision, fatShortValid := false }

/-! ## Copies -/

/-- `Clone`: the maps are copied, the derived structures start empty. -/
def clone (d : Directory) : Directory :=
  { dirs := d.dirs, files := d.files, attributes := d.attributes, metadata := d.metadata,
    hardLinkRefs := d.hardLinkRefs, hardLinkNames := d.hardLinkNames,
    nextHardLink := d.nextHardLink, nextWriteOrder := d.nextWriteOrder, revision := d.revision }

/-! ## Queries -/

/-- The query for the children of a path. -/
def listDir (d : Directory) (name : Bytes) : List Path × Directory :=
  let d := d.ensureChildren
  (d.childrenAt (cleanPath name), d)

/-- The files in order, computed from the map. -/
def buildSortedFiles (d : Directory) : List Path := d.files.entries.map Prod.fst

/-- The cached order of the files. -/
def sortedFileNames (d : Directory) : List Path × Directory :=
  match d.sortedFiles with
  | some names => (names, d)
  | none => (d.buildSortedFiles, { d with sortedFiles := some d.buildSortedFiles })

/-- The cached list of the file names. -/
def fileList (d : Directory) : List Bytes × Directory :=
  match d.fileValues with
  | some values => (values, d)
  | none =>
    let (names, d) := d.sortedFileNames
    (names.map Path.text, { d with fileValues := some (names.map Path.text) })

/-- The spelling of a path under its key. -/
def namesKey (u : Unicode) (lower : Bool) (parts : List Bytes) : List Bytes :=
  if lower then parts.map u.lowerString else parts

/-- The text of a path. -/
def joinParts (parts : List Bytes) : Bytes :=
  if parts = [] then ascii "/" else parts.flatMap fun c => 47 :: c

/-- The directories above a file, up to one that has an entry. -/
def addParents (u : Unicode) (lower : Bool) : Nat → List Bytes → SortedMap Bytes Bytes →
    SortedMap Bytes Bytes
  | 0, _, names => names
  | turns + 1, parts, names =>
    let parent := parts.dropLast
    if parent = [] then names
    else
      let key := joinParts (namesKey u lower parent)
      if (names.find key).isSome then names
      else addParents u lower turns parent (names.insert key (joinParts parent))

/-- Adds files to the snapshot of names; two files of one key collide. -/
def addFiles (u : Unicode) (lower : Bool) : List Path → SortedMap Bytes Bytes →
    SortedMap Bytes Bytes → Except DirectoryError (SortedMap Bytes Bytes)
  | [], _, names => .ok names
  | p :: files, fileKeys, names =>
    let key := joinParts (namesKey u lower p.parts)
    match fileKeys.find key with
    | some previous =>
      if previous ≠ p.text then .error (.ambiguousNames previous p.text)
      else addFiles u lower files (fileKeys.insert key p.text)
        (addParents u lower p.parts.length p.parts (names.insert key p.text))
    | none =>
      addFiles u lower files (fileKeys.insert key p.text)
        (addParents u lower p.parts.length p.parts (names.insert key p.text))

/-- The names of all paths by their keys, computed from the maps. -/
def buildPathNames (u : Unicode) (lower includeEmpty : Bool) (files dirs : List Path) :
    Except DirectoryError PathNames := do
  let names ← addFiles u lower files ∅ ((∅ : SortedMap Bytes Bytes).insert (ascii "/") (ascii "/"))
  let names := (if includeEmpty then dirs else []).foldl (fun names p =>
    let key := joinParts (namesKey u lower p.parts)
    if (names.find key).isSome then names else names.insert key p.text) names
  return names.entries

/-- The cached snapshot of names. -/
def pathNamesQuery (u : Unicode) (d : Directory) (lower includeEmpty : Bool) :
    Except DirectoryError PathNames × Directory :=
  match d.pathNames lower includeEmpty with
  | some snapshot => (.ok snapshot, d)
  | none =>
    let (files, d) := d.sortedFileNames
    match buildPathNames u lower includeEmpty files (d.dirs.entries.map Prod.fst) with
    | .error err => (.error err, d)
    | .ok snapshot =>
      (.ok snapshot, { d with pathNames := fun l e =>
        if l = lower ∧ e = includeEmpty then some snapshot else d.pathNames l e })

/-- The paths in lower case, each once. -/
def fatPaths (u : Unicode) (d : Directory) : List (List Bytes) :=
  (((d.dirs.entries.map Prod.fst).filter (fun p => decide (p ≠ Path.root)) ++
    d.files.entries.map Prod.fst).map fun p => p.parts.map u.lowerString).dedup

def buildFATShortIndex (u : Unicode) (d : Directory) : List (List Bytes × Bytes) :=
  fatIndex u (fatPaths u d)

/-- The index of aliases, rebuilt unless it is current. -/
def currentFATShortIndex (u : Unicode) (d : Directory) : List (List Bytes × Bytes) × Directory :=
  if d.fatShortValid ∧ d.fatShortRev = d.revision then (d.fatShortIndex, d)
  else
    let index := buildFATShortIndex u d
    (index, { d with fatShortIndex := index, fatShortRev := d.revision, fatShortValid := true })

/-- The aliases of the parts of a path; from the first part without one on, the default. -/
def shortenParts (u : Unicode) (index : List (List Bytes × Bytes)) :
    List Bytes → List Bytes → Bool → List Bytes
  | _, [], _ => []
  | parent, part :: parts, found =>
    -- `path.Join` drops the empty part that the root has
    let parent := if part = [] then parent else parent ++ [part]
    match found, index.lookup (parent.map u.lowerString) with
    | true, some short => short :: shortenParts u index parent parts true
    | _, _ => defaultFATShortName u part :: shortenParts u index parent parts false

/-- The answer of `fat_short_path`, given the index. -/
def fatShortPathWith (u : Unicode) (index : List (List Bytes × Bytes)) (name : Bytes) : Bytes :=
  let hasDrive := decide (name.length ≥ 3 ∧ name.getD 1 0 = 58 ∧ (name.getD 2 0 = 92 ∨ name.getD 2 0 = 47))
  let drive := if hasDrive then name.take 2 else []
  let p := cleanPath (if hasDrive then name.drop 2 else name)
  let parts := shortenParts u index [] (if p.parts = [] then [[]] else p.parts) true
  if hasDrive then drive ++ ascii "\\" ++ (parts.intersperse (ascii "\\")).flatten
  else ascii "/" ++ (parts.intersperse (ascii "/")).flatten

def fatShortPath (u : Unicode) (d : Directory) (name : Bytes) : Bytes × Directory :=
  let (index, d) := d.currentFATShortIndex u
  (fatShortPathWith u index name, d)

end Directory

end Trex.Filesystem
