import Trex.Lib.Assoc
import Trex.Filesystem.Path
import Trex.Filesystem.ShortNames
import Trex.Filesystem.Records

/-!
# FAT builder: the tree becomes nodes (`fat/fat32_builder.go`)

`importDirectory` makes the nodes of a snapshot, merging names that differ in case only, sets the
attributes, and orders and names the children.  Nodes refer to each other by their place in the list.
-/

namespace Trex.Fat

open Bytes (ascii)

open Trex.Filesystem (Path Unicode File Attributes FileRecord equalFold shortParts simple83 assignNames)

/-- A node, as its place in the list of nodes. -/
abbrev Ref := Nat

/-- What the builder reads of a snapshot.  The two maps are listed in the order in which a
loop takes their keys. -/
structure Snapshot where
  directories : List Path
  files : List (Path × FileRecord)
  attributes : List (Path × Attributes)
  filesDistinct : (files.map Prod.fst).Nodup
  attributesDistinct : (attributes.map Prod.fst).Nodup

/-- A file or a directory of the image. -/
structure Node where
  name : Bytes
  fullPath : Path
  parent : Option Ref := none
  dir : Bool := false
  size : Nat := 0
  file : Option File := none
  data : Bytes := []
  children : List Ref := []
  short : Bytes := List.replicate 11 0
  attr : UInt8 := 0
  writeOrder : Nat := 0

def attrReadOnly : UInt8 := 0x01
def attrHidden : UInt8 := 0x02
def attrSystem : UInt8 := 0x04
def attrVolumeID : UInt8 := 0x08
def attrDir : UInt8 := 0x10
def attrArchive : UInt8 := 0x20
def attrLFN : UInt8 := 0x0f

/-- The nodes in the order in which they were made; the root is the first. -/
structure Tree where
  nodes : List Node
  /-- by the path in lower case -/
  byPath : SortedMap Bytes Ref

namespace Tree

def node (t : Tree) (r : Ref) : Node := t.nodes.getD r ⟨[], Path.root, none, false, 0, none, [], [], [], 0, 0⟩

def update (t : Tree) (r : Ref) (f : Node → Node) : Tree := { t with nodes := t.nodes.modify r f }

/-- Appends a node and lists it in its parent. -/
def addChild (t : Tree) (parent : Ref) (node : Node) : Tree :=
  let t := t.update parent fun n => { n with children := n.children ++ [t.nodes.length] }
  { t with nodes := t.nodes ++ [node] }

end Tree

/-- The key of a path, in lower case. -/
def pathKey (u : Unicode) (p : Path) : Bytes := u.lowerString p.text

/-- The child with a name, whatever its case. -/
def childByName (u : Unicode) (t : Tree) (parent : Ref) (name : Bytes) : Option Ref :=
  (t.node parent).children.find? fun r => equalFold u (t.node r).name name

/-- A new directory at the end of the tree. -/
def newDir (u : Unicode) (t : Tree) (parent : Ref) (p : Path) : Tree × Ref :=
  let t' := t.addChild parent
    { name := p.base, fullPath := p, parent := some parent, dir := true, attr := attrDir }
  ({ t' with byPath := t'.byPath.insert (pathKey u p) t.nodes.length }, t.nodes.length)

/-- The node of a directory, made with its parents where it is missing; one turn for each part
of the path. -/
def ensureDir (u : Unicode) : Nat → Tree → Path → Tree × Ref
  | 0, t, _ => (t, 0)
  | turns + 1, t, p =>
    match t.byPath.find (pathKey u p) with
    | some r => (t, r)
    | none =>
      let (t, parent) := ensureDir u turns t p.dir
      match childByName u t parent p.base with
      | some r =>
        if (t.node r).dir then ({ t with byPath := t.byPath.insert (pathKey u p) r }, r)
        else newDir u t parent p
      | none => newDir u t parent p

/-- The directory of a path, made if it is not there. -/
def ensurePath (u : Unicode) (t : Tree) (p : Path) : Tree × Ref :=
  ensureDir u (p.parts.length + 1) t p

/-- One file: the last write wins among names that differ in case only. -/
def importFile (u : Unicode) (t : Tree) (p : Path) (vf : FileRecord) : Tree :=
  let (t, parent) := ensurePath u t p.dir
  match childByName u t parent p.base with
  | some r =>
    if (t.node r).dir ∨ vf.writeOrder ≤ (t.node r).writeOrder then t
    else t.update r fun n => { n with
      name := p.base, fullPath := p, size := vf.size, file := vf.file, data := vf.data,
      attr := attrArchive, writeOrder := vf.writeOrder }
  | none => t.addChild parent
      { name := p.base, fullPath := p, parent := some parent, size := vf.size, file := vf.file,
        data := vf.data, attr := attrArchive, writeOrder := vf.writeOrder }

/-- The attribute byte of an entry. -/
def fat32Attributes (a : Attributes) : UInt8 :=
  (if a.readOnly then attrReadOnly else 0) ||| (if a.hidden then attrHidden else 0) |||
    (if a.system then attrSystem else 0) ||| if a.archive then attrArchive else 0

/-- The node of an attribute record. -/
def resolve (u : Unicode) (t : Tree) (p : Path) : Option Ref :=
  match t.byPath.find (pathKey u p) with
  | some r => some r
  | none =>
    match t.byPath.find (pathKey u p.dir) with
    | some parent => childByName u t parent p.base
    | none => none

/-- Sets the attributes of the node that a record names. -/
def applyAttributes (u : Unicode) (t : Tree) (record : Path × Attributes) : Tree :=
  match resolve u t record.1 with
  | some r => t.update r fun n => { n with attr := fat32Attributes record.2 }
  | none => t

/-- Pads with blanks. -/
def padRight (s : Bytes) (n : Nat) : Bytes := (s ++ List.replicate n 32).take n

def fat32ShortName (base ext : Bytes) : Bytes := padRight base 8 ++ padRight ext 3

/-- The aliases of the children in their order; `none` when the source looks for a free number
for ever. -/
def assignFAT32ShortNames (u : Unicode) (t : Tree) (children : List Ref) : Option Tree :=
  (assignNames u fat32ShortName {} (children.map fun r => (t.node r).name)).map fun shorts =>
    (children.zip shorts).foldl (fun t e => t.update e.1 fun n => { n with short := e.2 }) t

section

-- `sort.Slice`, which is not stable, and the letters
variable (sortSlice : (Ref → Ref → Bool) → List Ref → List Ref) (u : Unicode)

/-- The children of one node are sorted by their names in lower case and get their aliases. -/
def finishNode (t : Tree) (r : Ref) : Option Tree :=
  let sorted := sortSlice
    (fun i j => decide (u.lowerString (t.node i).name < u.lowerString (t.node j).name))
    (t.node r).children
  assignFAT32ShortNames u (t.update r fun n => { n with children := sorted }) sorted

/-- Sorts the children of each node and gives them their aliases. -/
def finish (t : Tree) : Option Tree :=
  (List.range t.nodes.length).foldl (fun t r => t.bind fun t => finishNode sortSlice u t r) (some t)

/-- The nodes of the directories and the files, both in the order of their paths. -/
def importTree (directories : List Path) (files : List (Path × FileRecord)) : Tree :=
  let root : Tree := ⟨[{ name := ascii "/", fullPath := Path.root, dir := true }],
    (∅ : SortedMap Bytes Ref).insert (ascii "/") 0⟩
  let t := (directories.insertionSort (· ≤ ·)).foldl (fun t p =>
    if p ≠ Path.root then (ensurePath u t p).1 else t) root
  ((files.map Prod.fst).insertionSort (· ≤ ·)).foldl (fun t p =>
    importFile u t p ((files.lookup p).getD { size := 0 })) t

/-- The tree of a snapshot: directories, files, attributes, aliases. -/
def importDirectory (s : Snapshot) : Option Tree :=
  finish sortSlice u
    (s.attributes.foldl (applyAttributes u) (importTree u s.directories s.files))

end

end Trex.Fat
