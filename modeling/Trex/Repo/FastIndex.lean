import Trex.Lib.Chunk
import Trex.Repo.Body

/-!
# The persistent index

`fast_index.go`: sorted runs of locations and Git identities, merged four at a time, a manifest, and a
locator of fixed size at the end of the file.  A map is the sorted list of its entries, the order in
which a run is written.
-/

namespace Trex.Repo

open Slice

/-! ## Git identities -/

/-- Identity, kind, size, and the raw keys of its blocks (version 1) or of its body (version 2). -/
def decodeGitDescriptor (data : Bytes) : Except Err (GitOID × UInt8 × Nat × Bytes) := do
  let kind := data.getD 1 0
  refuse (data.length < 31 ∨ (data.head? ≠ some 1 ∧ data.head? ≠ some 2) ∨ kind < 1 ∨ kind > 4)
    .gitDescriptor
  let n := (data.getD 2 0).toNat
  refuse ((n ≠ 20 ∧ n ≠ 32) ∨ data.length < 3 + n + 8) .gitDescriptor
  let oid ← gitOIDFromBytes (slice data 3 n)
  let size := BigEndian.get (slice data (3 + n) 8)
  refuse (size ≥ 2 ^ 63) .gitDescriptor
  let ids := data.drop (3 + n + 8)
  refuse (if data.head? = some 2 then ids.length ≠ 32
    else ids.length % 32 ≠ 0 ∨ ids.length / 32 ≠ (size + blockSize - 1) / blockSize) .gitDescriptor
  return (oid, kind, size, ids)

/-- The size of block `i` of `count` of a file of the given size. -/
def expectedBlock (count size i : Nat) : Nat :=
  if i + 1 = count && size % blockSize ≠ 0 then size % blockSize else blockSize

section

variable (env : Env)

/-- A block list of an earlier record: every block is there, has its size and comes before
the record. -/
def checkBlocks (blocks : List Key) (size : Nat) (parent : Key) (e : Err) : StoreM Unit :=
  (List.range blocks.length).forM fun i => do
    let block := blocks.getD i []
    match ← lookupObject env block with
    | none => Op.throw e
    | some loc => do
        Op.failIf (loc.kind ≠ blockKind ∨ loc.size ≠ expectedBlock blocks.length size i) e
        Op.failIf (!(← earlierKey env block parent)) e

/-- The body is there with its size and was written before the parent. -/
def checkBody (body : Key) (size : Nat) (parent : Key) (e : Err) : StoreM Unit := do
  match ← lookupObject env body with
  | none => Op.throw e
  | some loc => do
      Op.failIf (loc.kind ≠ bodyKind ∨ loc.size ≠ size) e
      Op.failIf (!(← earlierKey env body parent)) e

/-- The native object behind an entry of a Git page, checked against the identity in
its own record. -/
def resolveGit (oid : GitOID) (id : Key) (loc : Location) : StoreM GitLocation := do
  if loc.kind = bodyKind then
    let data ← Op.ofExcept ((← Op.get).readAt loc.offset loc.stored)
    let _ ← inspectBody env data loc.offset
    let (got, kind, _) ← Op.ofExcept (bodyIdentity data)
    Op.failIf (got ≠ oid) .indexGitIdentity
    return { id, body := id, size := loc.size, kind }
  else if loc.kind = gitObjectKind then
    let data ← getRaw env id gitObjectKind
    let (got, kind, size, raw) ← Op.ofExcept (decodeGitDescriptor data)
    Op.failIf (got ≠ oid) .indexGitIdentity
    if data.head? = some 2 then
      checkBody env raw size id .gitReference
      return { id, body := raw, size, kind }
    else
      checkBlocks env (Chunk.chunks 32 raw) size id .gitReference
      return { id, body := zeroKey, size, kind }
  else Op.throw .indexGitIdentity

/-- The native object of an identity in the runs, newest first. -/
def gitInRuns (s : Storage) (oid : GitOID) : List FastRunRef → Except Err (Option (Key × Location))
  | [] => .ok none
  | rr :: runs => do
      let run ← fastRun env s rr.ref
      match ← searchPages env s run.gitPages 1 run.git oid with
      | some entry => return some (← nativeAt env s run (BigEndian.get (slice entry 33 8)))
      | none => gitInRuns s oid runs

/-- An object by its Git identity, in memory or in the runs. -/
def lookupGit (oid : GitOID) : StoreM (Option GitLocation) := do
  let s ← Op.get
  match s.gitObjects.find oid with
  | some v => return some v
  | none =>
      match s.fast with
      | none => return none
      | some f =>
          match gitInRuns env s oid f.runs with
          | .error e => do
              poison e
              return none
          | .ok none => return none
          | .ok (some (id, loc)) => do
              match ← (resolveGit env oid id loc).attempt with
              | .ok v => return some v
              | .error e => do
                  poison e
                  return none

/-! ## Writing runs -/

/-- Writes a record of the index. -/
def appendCheckpointRecord (kind : UInt8) (data : Bytes) : StoreM ID := do
  let id := digest env kind data
  writeRecord kind (key id) data
  return id

/-- Writes a record and returns where it lies. -/
def writeFast (kind : UInt8) (data : Bytes) : StoreM FastRef := do
  let offset := (← Op.gets Storage.bytes).length + headerSize
  let id ← appendCheckpointRecord env kind data
  return ⟨offset, data.length % 2 ^ 32, key id⟩

/-- Writes a page of the index. -/
def emitPage (data first : Bytes) : StoreM FastPageRef := do
  let ref ← writeFast env fastPageKind (env.encodeAll data)
  return ⟨first, ref⟩

def nativePage (entries : List (Key × Location)) : Bytes :=
  0 :: entries.flatMap fun e => encodeLocation e.1 e.2

def writeNativePage (entries : List (Key × Location)) : StoreM FastPageRef :=
  emitPage env (nativePage entries) ((entries.head?.map Prod.fst).getD [] ++ [0])

/-- The place of a key among the keys of a run. -/
def ordinal (objects : SortedMap Key Location) (k : Key) : Option Nat :=
  objects.entries.findIdx? fun e => e.1 == k

/-- A Git identity and the place of its object. -/
def gitPageEntry (objects : SortedMap Key Location) (e : GitOID × Key) : Except Err Bytes :=
  match ordinal objects e.2 with
  | none => .error .gitRunMissing
  | some i => .ok (e.1 ++ BigEndian.put 8 i)

def writeGitPage (objects : SortedMap Key Location) (entries : List (GitOID × Key)) :
    StoreM FastPageRef := do
  let parts ← Op.ofExcept (entries.mapM (gitPageEntry objects))
  emitPage env (1 :: parts.flatten) ((entries.head?.map Prod.fst).getD [])

def pageRefBytes (p : FastPageRef) : Bytes := p.first ++ appendFastRef p.ref

/-- The directory of a run: counts and pages. -/
def directory (run : FastRun) : Bytes :=
  1 :: (BigEndian.put 8 run.objects ++ BigEndian.put 8 run.git ++
    BigEndian.put 4 run.nativePages.length ++ BigEndian.put 4 run.gitPages.length ++
    (run.nativePages ++ run.gitPages).flatMap pageRefBytes)

/-- Writes a run: pages of both kinds and the directory. -/
def writeRun (objects : SortedMap Key Location) (git : SortedMap GitOID Key) : StoreM FastRunRef := do
  let nativePages ← (Chunk.chunks fastPageEntries objects.entries).mapM (writeNativePage env)
  let gitPages ← (Chunk.chunks fastPageEntries git.entries).mapM (writeGitPage env objects)
  let run : FastRun := ⟨objects.entries.length, git.entries.length, nativePages, gitPages⟩
  let ref ← writeFast env fastRunKind (directory run)
  return ⟨ref, 0⟩

/-- The entries of a page. -/
def pageEntries (tag : UInt8) (b : Bytes) : List Bytes := Chunk.chunks (pageWidth tag) b

/-- What a run holds replaces what the maps have. -/
def readRunEntries (s : Storage) (rr : FastRunRef) (objects : SortedMap Key Location)
    (git : SortedMap GitOID Key) : Except Err (SortedMap Key Location × SortedMap GitOID Key) := do
  let run ← fastRun env s rr.ref
  let objects ← run.nativePages.zipIdx.foldlM (fun m (page, p) => do
    let b ← fastPage env s page 0 (pageCount run.objects p)
    return (pageEntries 0 b).foldl (fun m entry => m.insert (entry.take 32) (decodeLocation entry)) m)
    objects
  let git ← run.gitPages.zipIdx.foldlM (fun m (page, p) => do
    let b ← fastPage env s page 1 (pageCount run.git p)
    (pageEntries 1 b).foldlM (fun m entry => do
      let (id, _) ← nativeAt env s run (BigEndian.get (slice entry 33 8))
      return m.insert (entry.take 33) id) m)
    git
  return (objects, git)

/-- The place of the first four neighbours of one level; level 255 is the base, which
is never rewritten. -/
def tier : List FastRunRef → Option Nat
  | a :: b :: c :: d :: runs =>
      if a.level < 254 ∧ b.level = a.level ∧ c.level = a.level ∧ d.level = a.level then some 0
      else (tier (b :: c :: d :: runs)).map (· + 1)
  | _ => none

def setRuns (runs : List FastRunRef) : StoreM Unit :=
  Op.modify fun s => { s with fast := s.fast.map fun f => { f with runs } }

/-- One merge of four runs, oldest first so that the newer entries stay. -/
def mergeTier (runs : List FastRunRef) (i : Nat) : StoreM (List FastRunRef) := do
  let s ← Op.get
  let (objects, git) ← Op.ofExcept ((slice runs i 4).reverse.foldlM
    (fun (m : SortedMap Key Location × SortedMap GitOID Key) rr => readRunEntries env s rr m.1 m.2) (∅, ∅))
  let rr ← writeRun env objects git
  let level := (runs.getD i ⟨⟨0, 0, []⟩, 0⟩).level
  return runs.take i ++ { rr with level := level + 1 } :: runs.drop (i + 4)

/-- The loop of `mergeFastRuns`; every turn leaves three runs fewer. -/
def mergeLoop : Nat → List FastRunRef → StoreM Unit
  | 0, _ => return ()
  | turns + 1, runs =>
      match tier runs with
      | none => return ()
      | some i => do
          let next ← mergeTier env runs i
          setRuns next
          mergeLoop turns next

/-- Merges four neighbouring runs of one level as long as there are any. -/
def mergeFastRuns (runs : List FastRunRef) : StoreM Unit := mergeLoop env runs.length runs

/-! ## Sealing -/

def newFast (version : Nat) (runs : List FastRunRef) (stats : StorageStats) (sealed : Nat) : FastState where
  version
  runs
  stats
  sealed

/-- The manifest of the present state. -/
def manifestOf (s : Storage) (f : FastState) (roots : Roots) : FastManifest where
  version := f.version
  runs := f.runs
  refs := f.pendingRefs.getD roots.refs
  catalogs :=
    match f.pendingCatalog with
    | none => roots.gitCatalogs
    | some (name, id) => roots.gitCatalogs.insert name id
  gitStats := s.gitStats
  stats := f.stats

/-- Writes what is new as a run and merges. -/
def writeDirty (f : FastState) : StoreM Unit :=
  Op.when (f.dirty.entries ≠ []) do
    let rr ← writeRun env f.dirty f.dirtyGit
    setRuns (rr :: f.runs)
    mergeFastRuns env (rr :: f.runs)

/-- Writes the manifest and the end record. -/
def writeManifest (roots : Roots) : StoreM Unit := do
  let s ← Op.get
  match s.fast with
  | none => return ()
  | some f => do
      let ref ← writeFast env fastRootKind (manifestOf s f roots).marshal
      let _ ← writeFast env fastEndKind (appendFastRef ref)
      Op.modify fun s => { s with fast := some (newFast f.version f.runs f.stats s.bytes.length) }

/-- Brings the index up to date. -/
def sealFast (roots : Roots) : StoreM Unit := do
  let s ← Op.get
  match s.fast with
  | none => return ()
  | some f =>
      if f.sealed = s.bytes.length then return ()
      else do
        ready
        writeDirty env f
        writeManifest env roots

/-- Seals the index and syncs the file. -/
def sync (roots : Roots) : StoreM Unit := do
  match ← (sealFast env roots).attempt with
  | .error e => poisonThrow e
  | .ok _ => fileSync

def objectStats (objects : SortedMap Key Location) : StorageStats :=
  objects.entries.foldl (fun s e => addLocationStats s e.2 1)
    { contentObjects := objects.entries.length }

def gitKeys (git : SortedMap GitOID GitLocation) : SortedMap GitOID Key :=
  .ofList (git.entries.map fun e => (e.1, e.2.id))

/-- Makes the index of a repository that has none. -/
def buildFastIndex (roots : Roots) : StoreM Unit := do
  if (← Op.gets Storage.fast).isSome then sync env roots
  else do
    sync env roots
    discardCheckpoint
    let s ← Op.get
    let rr ← writeRun env s.objects (gitKeys s.gitObjects)
    Op.modify fun s' => { s' with fast := some (newFast 1 [{ rr with level := 255 }] (objectStats s.objects) 0) }
    sync env roots
    -- the maps now hold what the session adds
    Op.modify fun s => { s with objects := ∅, gitObjects := ∅ }

/-- `Checkpoint`. -/
def checkpoint (roots : Roots) : StoreM Unit := do
  ready
  if ← Op.gets Storage.optimized then buildFastIndex env roots else sync env roots

/-- Seals the index before the file is closed. -/
def closeIndex (roots : Roots) : StoreM Unit := do
  let s ← Op.get
  Op.failIf s.poisoned.isSome .mustReopen
  Op.when (s.fast.any fun f => f.sealed ≠ s.bytes.length) (sync env roots)

/-- `Close`, which happens once. -/
def close (roots : Roots) : StoreM Unit := do
  let s ← Op.get
  Op.when (!s.closed) do
    let result ← (closeIndex env roots).attempt
    Op.modify fun s => { s with closed := true }
    Op.ofExcept result

end

end Trex.Repo
