import Trex.Lib.Op
import Trex.Repo.Codec

/-!
# The store of `scs/repo`: records, the persistent index and lookups

`Storage` is the part of `Repository` below the named roots, which it cannot change.  The buffer of the
writer counts as part of the file, of which a crash keeps some prefix.  Calls fail as an oracle says; a
failed write may leave a part of its bytes.  The caches are left out: they hold what a read would give.
-/

namespace Trex.Repo

open Slice

/-- Where a record lies, its size and kind; a body has also the size of its payload and the length of its chain. -/
structure Location where
  offset : Nat
  size : Nat
  kind : UInt8
  stored : Nat := 0
  depth : Nat := 0
  deriving DecidableEq, Repr

/-- The digest of a Git object, padded to 32 bytes, and its length. -/
abbrev GitOID := Bytes

def gitOIDFromBytes (raw : Bytes) : Except Err GitOID :=
  if raw.length ≠ 20 ∧ raw.length ≠ 32 then .error .gitOID
  else .ok (raw ++ List.replicate (32 - raw.length) 0 ++ [.ofNat raw.length])

/-- An identity from its text. -/
def parseGitOID (text : Bytes) : Except Err GitOID :=
  match Hex.decode text with
  | none => .error .gitOID
  | some raw => gitOIDFromBytes raw

/-- The bytes of an identity: 20 or 32. -/
def gitLength (oid : GitOID) : Nat := (oid.getD 32 0).toNat

/-- The identity has a length and nothing behind it. -/
def gitValid (oid : GitOID) : Bool :=
  gitLength oid == 32 || gitLength oid == 20 && (slice oid 20 12).all (· == 0)

def zeroOID : GitOID := List.replicate 33 0

/-- Where a Git object lies. -/
structure GitLocation where
  body : Key
  id : Key
  size : Nat
  kind : UInt8
  deriving DecidableEq, Repr

/-- A page and its first key. -/
structure FastPageRef where
  first : Bytes
  ref : FastRef
  deriving DecidableEq, Repr

/-- The directory of a sorted run. -/
structure FastRun where
  objects : Nat
  git : Nat
  nativePages : List FastPageRef
  gitPages : List FastPageRef
  deriving DecidableEq, Repr

/-- What is known of the persistent index: the runs of the last manifest, newest
first, and what was recorded since. -/
structure FastState where
  version : Nat
  runs : List FastRunRef
  stats : StorageStats
  dirty : SortedMap Key Location := ∅
  dirtyGit : SortedMap GitOID Key := ∅
  pendingRefs : Option Refs := none
  /-- The entry that `pendingCatalogs` adds to the catalogs. -/
  pendingCatalog : Option (Bytes × ID) := none
  sealed : Nat := 0

/-- The file, the index over it and the failures to come. -/
structure Storage where
  bytes : Bytes
  /-- The length of the file at the last successful sync. -/
  synced : Nat
  calls : Nat
  fails : Nat → Bool
  /-- How many bytes a failed write leaves in the file. -/
  short : Nat → Nat
  optimized : Bool
  objects : SortedMap Key Location
  fast : Option FastState
  checkpointStart : Nat
  poisoned : Option Err
  closed : Bool
  gitObjects : SortedMap GitOID GitLocation
  gitStats : GitStats

/-- The names and the Git catalogues. -/
structure Roots where
  refs : Refs
  gitCatalogs : Refs

abbrev StoreM := Op Storage Err

/-! ## The file -/

/-- A closed or poisoned repository refuses everything. -/
def ready : StoreM Unit := do
  Op.failIf (← Op.gets Storage.closed) .closed
  Op.failIf (← Op.gets Storage.poisoned).isSome .mustReopen

/-- From here on the repository has to be reopened. -/
def poison (e : Err) : StoreM Unit := Op.modify fun s => { s with poisoned := some e }

/-- Fails and poisons the repository. -/
def poisonThrow {α : Type} (e : Err) : StoreM α := do
  poison e
  Op.throw e

/-- One call to the store, and whether it fails. -/
def call : StoreM Bool := fun s => (.ok (s.fails s.calls), { s with calls := s.calls + 1 })

/-- A write, which may be short or fail. -/
def writePart (data : Bytes) : StoreM Unit := do
  let n ← Op.gets Storage.calls
  if ← call then
    Op.modify fun s => { s with bytes := s.bytes ++ data.take (s.short n) }
    poisonThrow .write
  else Op.modify fun s => { s with bytes := s.bytes ++ data }

/-- `Sync`, which may fail. -/
def fileSync : StoreM Unit := do
  if ← call then poisonThrow .sync
  else Op.modify fun s => { s with synced := s.bytes.length }

/-- `f.Seek(0, io.SeekEnd)`, which asks the store for its length. -/
def seekEnd : StoreM Unit := do Op.failIf (← call) .write

/-- Reads from the file. -/
def Storage.readAt (s : Storage) (offset n : Nat) : Except Err Bytes :=
  if offset + n ≤ s.bytes.length then .ok (slice s.bytes offset n) else .error .shortRead

/-- The derived index at the end of the file is cut off before anything is appended. -/
def discardCheckpoint : StoreM Unit := do
  let start ← Op.gets Storage.checkpointStart
  Op.when (start ≠ 0) do
    let failed ← call
    Op.when failed (poisonThrow .truncate)
    Op.modify fun s => { s with bytes := s.bytes.take start, synced := min s.synced start }
    fileSync
    Op.modify fun s => { s with checkpointStart := 0 }

/-- The header of a record. -/
def header (kind : UInt8) (size : Nat) (k : Key) : Bytes := kind :: (BigEndian.put 8 size ++ k)

/-! ## Reading the persistent index -/

def appendFastRef (r : FastRef) : Bytes :=
  BigEndian.put 8 r.offset ++ BigEndian.put 4 r.size ++ r.hash

def decodeFastRef (b : Bytes) : FastRef :=
  ⟨BigEndian.get (slice b 0 8), BigEndian.get (slice b 8 4), slice b 12 32⟩

def fastPageEntries : Nat := 1024

def pagesFor (entries : Nat) : Nat := (entries + fastPageEntries - 1) / fastPageEntries

def pageCount (total page : Nat) : Nat := min fastPageEntries (total - page * fastPageEntries)

section

variable (env : Env)

/-- Reads a record of the index and checks its hash. -/
def readFast (s : Storage) (ref : FastRef) (kind : UInt8) : Except Err Bytes := do
  refuse (ref.offset < magic.length + headerSize ∨ ref.size > maxRecord ∨ ref.offset > s.bytes.length ∨
      ref.size > s.bytes.length - ref.offset) .indexReference
  let b ← s.readAt (ref.offset - headerSize) (headerSize + ref.size)
  let data := b.drop headerSize
  refuse (b.head? ≠ some kind ∨ BigEndian.get (slice b 1 8) ≠ ref.size ∨ slice b 9 32 ≠ ref.hash ∨
      digestKey env kind data ≠ ref.hash) .indexChecksum
  return data

/-- Whether a page with this first key may follow the previous one. -/
def ascends (previous : Option Bytes) (first : Bytes) : Bool :=
  match previous with
  | none => true
  | some before => decide (before < first)

/-- `count` page references; each lies before the directory, their first keys ascend. -/
def parsePages (directory : Nat) : Nat → Option Bytes → Bytes → Except Err (List FastPageRef × Bytes)
  | 0, _, b => .ok ([], b)
  | count + 1, previous, b => do
      let page : FastPageRef := ⟨slice b 0 33, decodeFastRef (slice b 33 44)⟩
      refuse (page.ref.offset ≥ directory ∨ page.ref.offset + page.ref.size > directory - headerSize ∨
        ¬ ascends previous page.first) .indexPageOrdering
      let (pages, rest) ← parsePages directory count (some page.first) (b.drop 77)
      return (page :: pages, rest)

/-- Reads the directory of a run. -/
def fastRun (s : Storage) (ref : FastRef) : Except Err FastRun := do
  let b ← readFast env s ref fastRunKind
  refuse (b.length < 25 ∨ b.head? ≠ some 1) .indexDirectory
  let objects := BigEndian.get (slice b 1 8)
  let git := BigEndian.get (slice b 9 8)
  refuse (objects > ref.offset / headerSize ∨ git > objects) .indexObjectCount
  let n := BigEndian.get (slice b 17 4)
  let g := BigEndian.get (slice b 21 4)
  let b := b.drop 25
  refuse (n ≠ pagesFor objects ∨ g ≠ pagesFor git ∨ n + g > maxRecord / 77 ∨ b.length ≠ (n + g) * 77) .indexPageCount
  let (nativePages, b) ← parsePages ref.offset n none b
  let (gitPages, _) ← parsePages ref.offset g none b
  return ⟨objects, git, nativePages, gitPages⟩

def decodeLocation (b : Bytes) : Location where
  offset := BigEndian.get (slice b 32 8)
  size := BigEndian.get (slice b 40 4)
  stored := BigEndian.get (slice b 44 4)
  kind := b.getD 48 0
  depth := (b.getD 49 0).toNat

/-- An entry of a page. -/
def encodeLocation (k : Key) (loc : Location) : Bytes :=
  k ++ BigEndian.put 8 loc.offset ++ BigEndian.put 4 loc.size ++ BigEndian.put 4 loc.stored ++
    [loc.kind, .ofNat loc.depth]

/-- The bounds of an indexed location, for a page at `page`. -/
def locationOk (page : Nat) (loc : Location) : Bool :=
  let physical := if loc.kind = bodyKind then loc.stored else loc.size
  decide (magic.length + headerSize ≤ loc.offset) && decide (loc.offset ≤ page) &&
    decide (physical ≤ page - loc.offset) &&
    decide (blockKind ≤ loc.kind) && decide (loc.kind ≤ bodyKind) && decide (loc.kind ≠ refsKind) &&
    decide (loc.depth ≤ maxBodyDepth) && decide (loc.size ≤ maxBody) &&
    (if loc.kind = bodyKind then decide (74 ≤ loc.stored) && decide (loc.stored ≤ maxStored)
      else decide (loc.size ≤ maxRecord) && loc.stored == 0 && loc.depth == 0)

/-- The width of an entry of a page and of its key: native pages have tag 0, Git
pages tag 1. -/
def pageWidth (tag : UInt8) : Nat := if tag = 1 then 41 else 50
def pageKey (tag : UInt8) : Nat := if tag = 1 then 33 else 32

def pageEntry (tag : UInt8) (b : Bytes) (i : Nat) : Bytes := slice b (i * pageWidth tag) (pageWidth tag)

def entryKey (tag : UInt8) (b : Bytes) (i : Nat) : Bytes := slice b (i * pageWidth tag) (pageKey tag)

/-- The keys of a page start with that of its reference and ascend. -/
def checkPageEntry (p : FastPageRef) (tag : UInt8) (b : Bytes) (i : Nat) : Except Err Unit := do
  refuse (if i = 0 then entryKey tag b 0 ≠ p.first.take (pageKey tag)
    else entryKey tag b i ≤ entryKey tag b (i - 1)) .indexUnsorted
  if tag = 0 then refuse (¬ locationOk p.ref.offset (decodeLocation (pageEntry tag b i))) .indexLocation
  else refuse (¬ gitValid (entryKey tag b i)) .indexGitIdentity

/-- Reads and checks a page. -/
def fastPage (s : Storage) (p : FastPageRef) (tag : UInt8) (count : Nat) : Except Err Bytes := do
  let stored ← readFast env s p.ref fastPageKind
  match env.decodeAll stored with
  | none => throw .decompress
  | some b =>
      refuse (count = 0 ∨ count > fastPageEntries ∨ b.length ≠ 1 + count * pageWidth tag ∨
          b.head? ≠ some tag) .indexPageSize
      let b := b.drop 1
      (List.range count).forM (checkPageEntry p tag b)
      return b

/-- The key and the location with the given number in a run. -/
def nativeAt (s : Storage) (run : FastRun) (ordinal : Nat) : Except Err (Key × Location) := do
  refuse (ordinal ≥ run.objects) .indexOrdinal
  let p := ordinal / fastPageEntries
  match run.nativePages[p]? with
  | none => throw .indexOrdinal
  | some page =>
      let b ← fastPage env s page 0 (pageCount run.objects p)
      let entry := pageEntry 0 b (ordinal % fastPageEntries)
      return (entry.take 32, decodeLocation entry)

/-- The page of a run that can hold a key (the last that does not start after it) and the place of the
key in it. -/
def searchPages (s : Storage) (pages : List FastPageRef) (tag : UInt8) (total : Nat) (k : Bytes) :
    Except Err (Option Bytes) :=
  match Search.search pages.length (fun i =>
      match pages[i]? with
      | none => true
      | some page => decide (k < page.first.take (pageKey tag))) with
  | 0 => .ok none
  | p + 1 =>
      match pages[p]? with
      | none => .ok none
      | some page => do
          let b ← fastPage env s page tag (pageCount total p)
          let n := b.length / pageWidth tag
          let i := Search.search n fun i => decide (k ≤ entryKey tag b i)
          if i < n && entryKey tag b i = k then return some (pageEntry tag b i) else return none

/-- The location of a key in the runs, newest first. -/
def findInRuns (s : Storage) (k : Key) : List FastRunRef → Except Err (Option Location)
  | [] => .ok none
  | rr :: runs => do
      let run ← fastRun env s rr.ref
      match ← searchPages env s run.nativePages 0 run.objects k with
      | some entry => return some (decodeLocation entry)
      | none => findInRuns s k runs

/-- An object in memory or in the runs. -/
def findObject (s : Storage) (k : Key) : Except Err (Option Location) :=
  match s.objects.find k with
  | some loc => .ok (some loc)
  | none =>
      match s.fast with
      | none => .ok none
      | some f => findInRuns env s k f.runs

/-- An index that cannot be read poisons the repository and reads as no object. -/
def lookupObject (k : Key) : StoreM (Option Location) := do
  match findObject env (← Op.get) k with
  | .ok found => return found
  | .error e => do
      poison e
      return none

/-- The child was written before its parent. -/
def earlierKey (child parent : Key) : StoreM Bool := do
  let c ← lookupObject env child
  let p ← lookupObject env parent
  match c, p with
  | some c, some p => return decide (c.offset < p.offset)
  | _, _ => return false

def earlier (child parent : ID) : StoreM Bool := earlierKey env (key child) (key parent)

end

/-! ## Appending -/

/-- Counts an object, or takes it back. -/
def addLocationStats (s : StorageStats) (loc : Location) (sign : Int) : StorageStats :=
  let s := if loc.kind = bodyKind then
      { s with
        nativeBodies := s.nativeBodies + sign
        nativeBodyBytes := s.nativeBodyBytes + sign * loc.size
        encodedBodyBytes := s.encodedBodyBytes + sign * loc.stored
        maxDeltaDepth := max s.maxDeltaDepth loc.depth }
    else s
  if loc.kind = blockKind then
    { s with
      uniqueBlocks := s.uniqueBlocks + sign
      uniqueBlockBytes := s.uniqueBlockBytes + sign * loc.size }
  else s

/-- Writes a header and its data. -/
def writeRecord (kind : UInt8) (k : Key) (data : Bytes) : StoreM Unit := do
  writePart (header kind data.length k)
  writePart data

section

variable (env : Env)

/-- The statistics with a location in the place of an old one. -/
def replaceStats (s : StorageStats) (old : Option Location) (loc : Location) : StorageStats :=
  addLocationStats
    (match old with
      | some old => addLocationStats s old (-1)
      | none => { s with contentObjects := s.contentObjects + 1 }) loc 1

/-- Notes a new location for the next run of the index. -/
def markDirty (k : Key) (loc : Location) : StoreM Unit := do
  let old ← lookupObject env k
  Op.failIf (← Op.gets Storage.poisoned).isSome .mustReopen
  Op.modify fun s => { s with fast := s.fast.map fun f =>
    { f with stats := replaceStats f.stats old loc, dirty := f.dirty.insert k loc } }

/-- Notes a new location in the maps of the session. -/
def recordLocation (k : Key) (loc : Location) : StoreM Unit := do
  Op.when (← Op.gets Storage.fast).isSome (markDirty env k loc)
  Op.modify fun s => { s with objects := s.objects.insert k loc }

def catalogName (data : Bytes) : Except Err Bytes := do getStr (← unmarshal data) "name"

/-- The roots that the next manifest has to name. -/
def noteRefs (data : Bytes) : StoreM Unit :=
  match unmarshalCatalog data with
  | .error e => poisonThrow e
  | .ok refs => Op.modify fun s => { s with fast := s.fast.map fun f => { f with pendingRefs := refs } }

/-- The catalog that the next manifest has to name. -/
def noteCatalog (id : ID) (data : Bytes) : StoreM Unit :=
  match catalogName data with
  | .error e => poisonThrow e
  | .ok name => Op.modify fun s => { s with fast := s.fast.map fun f => { f with pendingCatalog := some (name, id) } }

/-- Keeps the names for the next manifest. -/
def notePending (kind : UInt8) (id : ID) (data : Bytes) : StoreM Unit := do
  let indexed := (← Op.gets Storage.fast).isSome
  Op.when (indexed ∧ kind = refsKind) (noteRefs data)
  Op.when (indexed ∧ kind = gitCatalogKind) (noteCatalog id data)

/-- Appends a record and notes its location. -/
def appendEncoded (kind : UInt8) (id : ID) (data : Bytes) (logical depth : Nat) : StoreM ID := do
  ready
  discardCheckpoint
  Op.when (!(← Op.gets Storage.optimized)) seekEnd
  let offset := (← Op.gets Storage.bytes).length + headerSize
  writeRecord kind (key id) data
  let stored := if kind = bodyKind then data.length else 0
  Op.when (kind ≠ refsKind) (recordLocation env (key id) { offset, size := logical, kind, stored, depth })
  notePending kind id data
  return id

/-- Appends a record, unless it is there already. -/
def append (kind : UInt8) (data : Bytes) : StoreM ID := do
  ready
  Op.failIf (data.length > maxRecord) .recordLimit
  let id := digest env kind data
  let found ← lookupObject env (key id)
  if found.isSome && kind ≠ refsKind then return id
  appendEncoded env kind id data data.length 0

end

end Trex.Repo
