import Trex.Lib.Json
import Trex.Repo.Ident

/-!
# JSON records of `scs/repo`

`Entry`, `tree`, `snapshot`, the catalog of roots and the manifest of the index, with the field names,
the order and the `omitempty` rules of the struct tags.  A negative number is refused when a record is
read, where the source fails a check right after.
-/

namespace Trex.Repo

open Bytes (ascii)

/-! ## Fields of an object -/

/-- A field with `omitempty`. -/
def optional (present : Bool) (name : String) (value : Json) : List (Bytes × Json) :=
  if present then [(ascii name, value)] else []

/-- The value of a field. -/
def field (fields : List (Bytes × Json)) (name : String) : Option Json :=
  (fields.find? fun f => f.1 == ascii name).map Prod.snd

/-- A number in `[low, high)`; a missing one is zero. -/
def getInt (fields : List (Bytes × Json)) (name : String) (low high : Int) : Except Err Int :=
  match field fields name with
  | none | some .null => .ok 0
  | some (.num v) => if low ≤ v ∧ v < high then .ok v else .error .invalidJSON
  | some _ => .error .invalidJSON

def getNat (fields : List (Bytes × Json)) (name : String) (high : Nat) : Except Err Nat :=
  (getInt fields name 0 high).map Int.toNat

/-- A string field, empty when it is missing. -/
def getStr (fields : List (Bytes × Json)) (name : String) : Except Err Bytes :=
  match field fields name with
  | none | some .null => .ok []
  | some (.str text) => .ok text
  | some _ => .error .invalidJSON

/-- A nested object; a missing one has no fields. -/
def getObj (fields : List (Bytes × Json)) (name : String) : Except Err (List (Bytes × Json)) :=
  match field fields name with
  | none | some .null => .ok []
  | some (.obj inner) => .ok inner
  | some _ => .error .invalidJSON

/-- An array field, empty when it is missing. -/
def getArr (fields : List (Bytes × Json)) (name : String) : Except Err (List Json) :=
  match field fields name with
  | none | some .null => .ok []
  | some (.arr items) => .ok items
  | some _ => .error .invalidJSON

/-- A map from names; a missing one is nil. -/
def getMap {α : Type} (read : Json → Except Err α) (fields : List (Bytes × Json)) (name : String) :
    Except Err (Option (SortedMap Bytes α)) :=
  match field fields name with
  | none | some .null => .ok none
  | some (.obj inner) => do
      let entries ← inner.mapM fun f => return (f.1, ← read f.2)
      return some (SortedMap.ofList entries)
  | some _ => .error .invalidJSON

def readStr : Json → Except Err Bytes
  | .str text => .ok text
  | _ => .error .invalidJSON

def mapJson {α : Type} (value : α → Json) (m : SortedMap Bytes α) : Json :=
  .obj (m.entries.map fun e => (e.1, value e.2))

/-- A text that is one object. -/
def unmarshal (data : Bytes) : Except Err (List (Bytes × Json)) :=
  match Json.parse data with
  | some (.obj fields) => .ok fields
  | _ => .error .invalidJSON

/-! ## Descriptors -/

/-- The kinds of tree entries. -/
inductive Kind where
  | file
  | dir
  | symlink
  | gitlink
  deriving DecidableEq, Repr

def Kind.text : Kind → Bytes
  | .file => ascii "file"
  | .dir => ascii "dir"
  | .symlink => ascii "symlink"
  | .gitlink => ascii "gitlink"

def Kind.ofText (text : Bytes) : Except Err Kind :=
  if text = ascii "file" then .ok .file
  else if text = ascii "dir" then .ok .dir
  else if text = ascii "symlink" then .ok .symlink
  else if text = ascii "gitlink" then .ok .gitlink
  else .error .invalidJSON

/-- Nanoseconds since the Unix epoch. -/
structure Times where
  a : Int64
  m : Int64
  c : Int64
  deriving DecidableEq, Repr

def Times.zero : Times := ⟨0, 0, 0⟩

def Times.json (t : Times) : Json :=
  .obj [(ascii "a", .num t.a.toInt), (ascii "m", .num t.m.toInt), (ascii "c", .num t.c.toInt)]

def getTime (fields : List (Bytes × Json)) (name : String) : Except Err Int64 :=
  (getInt fields name (-2 ^ 63) (2 ^ 63)).map Int64.ofInt

def getTimes (fields : List (Bytes × Json)) : Except Err Times := do
  let inner ← getObj fields "times"
  return ⟨← getTime inner "a", ← getTime inner "m", ← getTime inner "c"⟩

/-- The metadata of a file, directory or link. -/
structure Entry where
  times : Times := .zero
  body : ID := []
  gitOID : Bytes := []
  kind : Kind
  mode : Nat
  size : Nat := 0
  blocks : List ID := []
  deriving DecidableEq, Repr

def Entry.json (e : Entry) : Json :=
  .obj (optional (e.times ≠ .zero) "times" e.times.json ++
    optional (e.body ≠ []) "body" (.str e.body) ++
    optional (e.gitOID ≠ []) "git_oid" (.str e.gitOID) ++
    optional true "kind" (.str e.kind.text) ++
    optional true "mode" (.num e.mode) ++
    optional (e.size ≠ 0) "size" (.num e.size) ++
    optional (e.blocks ≠ []) "blocks" (.arr (e.blocks.map .str)))

def Entry.marshal (e : Entry) : Bytes := e.json.print

/-- Reads an entry back. -/
def Entry.unmarshal (data : Bytes) : Except Err Entry := do
  let fields ← Repo.unmarshal data
  return {
    times := ← getTimes fields
    body := ← getStr fields "body"
    gitOID := ← getStr fields "git_oid"
    kind := ← Kind.ofText (← getStr fields "kind")
    mode := ← getNat fields "mode" (2 ^ 32)
    size := ← getNat fields "size" (2 ^ 63)
    blocks := ← (← getArr fields "blocks").mapM readStr }

/-- The record of a directory: its mode lives in the entry of its parent. -/
structure Tree where
  times : Times
  index : ID
  deriving DecidableEq, Repr

def Tree.json (t : Tree) : Json :=
  .obj (optional (t.times ≠ .zero) "times" t.times.json ++ optional true "index" (.str t.index))

def Tree.marshal (t : Tree) : Bytes := t.json.print

/-- Reads a tree record back. -/
def Tree.unmarshal (data : Bytes) : Except Err Tree := do
  let fields ← Repo.unmarshal data
  return { times := ← getTimes fields, index := ← getStr fields "index" }

/-- A tree and the commit that it came from. -/
structure Snapshot where
  tree : ID
  sourceCommit : Bytes
  deriving DecidableEq, Repr

def Snapshot.json (sn : Snapshot) : Json :=
  .obj (optional true "tree" (.str sn.tree) ++ optional (sn.sourceCommit ≠ []) "source_commit" (.str sn.sourceCommit))

def Snapshot.marshal (sn : Snapshot) : Bytes := sn.json.print

def Snapshot.unmarshal (data : Bytes) : Except Err Snapshot := do
  let fields ← Repo.unmarshal data
  return { tree := ← getStr fields "tree", sourceCommit := ← getStr fields "source_commit" }

/-- The named roots, and the named Git catalogs. -/
abbrev Refs := SortedMap Bytes ID

def catalogJson (refs : Refs) : Json := .obj [(ascii "refs", mapJson .str refs)]

/-- The record of the names. -/
def marshalCatalog (refs : Refs) : Bytes := (catalogJson refs).print

/-- The roots of a catalog; `none` is a nil map. -/
def unmarshalCatalog (data : Bytes) : Except Err (Option Refs) := do
  let fields ← unmarshal data
  getMap readStr fields "refs"

/-! ## The manifest of the persistent index -/

/-- Where a record lies, and its hash. -/
structure FastRef where
  offset : Nat
  size : Nat
  hash : Key
  deriving DecidableEq, Repr

/-- A run of the index and its level. -/
structure FastRunRef where
  ref : FastRef
  level : Nat
  deriving DecidableEq, Repr

/-- The counters of a repository. -/
structure StorageStats where
  contentObjects : Int := 0
  uniqueBlocks : Int := 0
  nativeBodies : Int := 0
  nativeBodyBytes : Int := 0
  encodedBodyBytes : Int := 0
  maxDeltaDepth : Nat := 0
  uniqueBlockBytes : Int := 0
  deriving DecidableEq, Repr

/-- The counters of a Git type. -/
structure GitTypeStats where
  objects : Nat
  bytes : Nat
  deriving DecidableEq, Repr

/-- The map of types is nil when it has no entry. -/
structure GitStats where
  objects : Nat
  bytes : Nat
  types : SortedMap Bytes GitTypeStats
  deriving DecidableEq

def GitStats.empty : GitStats := ⟨0, 0, ∅⟩

/-- The record at the root of the fast index. -/
structure FastManifest where
  version : Nat
  runs : List FastRunRef
  refs : Refs
  catalogs : Refs
  gitStats : GitStats
  stats : StorageStats
  deriving DecidableEq

def nilMapJson {α : Type} (value : α → Json) (m : SortedMap Bytes α) : Json :=
  if m.entries = [] then .null else mapJson value m

def keyJson (k : Key) : Json := .arr (k.map fun b => .num b.toNat)

def FastRef.json (r : FastRef) : Json :=
  .obj [(ascii "Offset", .num r.offset), (ascii "Size", .num r.size), (ascii "Hash", keyJson r.hash)]

def FastRunRef.json (r : FastRunRef) : Json :=
  .obj [(ascii "Ref", r.ref.json), (ascii "Level", .num r.level)]

def StorageStats.json (s : StorageStats) : Json :=
  .obj [(ascii "file_bytes", .num 0), (ascii "content_objects", .num s.contentObjects),
    (ascii "unique_blocks", .num s.uniqueBlocks), (ascii "native_bodies", .num s.nativeBodies),
    (ascii "native_body_bytes", .num s.nativeBodyBytes),
    (ascii "encoded_body_bytes", .num s.encodedBodyBytes),
    (ascii "max_delta_depth", .num s.maxDeltaDepth),
    (ascii "unique_block_bytes", .num s.uniqueBlockBytes)]

def GitTypeStats.json (s : GitTypeStats) : Json :=
  .obj [(ascii "objects", .num s.objects), (ascii "bytes", .num s.bytes)]

def GitStats.json (s : GitStats) : Json :=
  .obj [(ascii "objects", .num s.objects), (ascii "logical_bytes", .num s.bytes),
    (ascii "types", nilMapJson GitTypeStats.json s.types)]

def FastManifest.json (m : FastManifest) : Json :=
  .obj [(ascii "Version", .num m.version), (ascii "Runs", .arr (m.runs.map FastRunRef.json)),
    (ascii "Refs", mapJson .str m.refs), (ascii "Catalogs", nilMapJson .str m.catalogs),
    (ascii "GitStats", m.gitStats.json), (ascii "Stats", m.stats.json)]

def FastManifest.marshal (m : FastManifest) : Bytes := m.json.print

end Trex.Repo
