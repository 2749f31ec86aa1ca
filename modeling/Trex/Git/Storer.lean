import Trex.Git.Links

/-!
# The repository as the import sees it, and `nativeStorer`

`native.go` and the accounting half of `extents.go`.  The repository is a finite map from Git identities
to typed bodies.  Every call takes one element of `faults` and may fail: a failed lookup finds nothing
and poisons the repository, as `lookupGit` does.
-/

namespace Trex.GitStore

open Slice
open Trex.Repo (GitOID Env Extent gitCommit gitTree gitBlob gitTag gitLength gitValid zeroOID gitPreimage
  applyExtents maxBody)

/-! ## The repository -/

/-- A stored object. -/
structure Object where
  kind : UInt8
  body : Bytes
  /-- Kept as one body, not as a list of blocks. -/
  native : Bool
  deriving DecidableEq, Repr

/-- The repository as the import sees it; any call may fail. -/
structure Repository where
  objects : SortedMap GitOID Object
  optimized : Bool
  poisoned : Bool
  /-- Which of the next calls fail. -/
  faults : List Bool

abbrev RepoM := Op Repository Err

/-- Whether the next call fails. -/
def fault : RepoM Bool := fun r => (.ok (r.faults.headD false), { r with faults := r.faults.tail })

/-- A call that may fail. -/
def call (e : Err) : RepoM Unit := do
  Op.failIf (← fault) e

/-- A poisoned repository refuses everything. -/
def ready : RepoM Unit := do
  Op.failIf (← Op.gets Repository.poisoned) .poisoned

/-- A failing lookup poisons the repository and finds nothing. -/
def lookupGit (oid : GitOID) : RepoM (Option Object) := do
  if ← fault then
    Op.modify fun r => { r with poisoned := true }
    return none
  else Op.gets fun r => r.objects.find oid

/-- The kind and the size of an object. -/
def gitObjectHeader (oid : GitOID) : RepoM (Option (UInt8 × Nat)) := do
  return (← lookupGit oid).map fun o => (o.kind, o.body.length)

section

variable (env : Env)

/-- The identity of an object. -/
def oidOf (kind : UInt8) (body : Bytes) : GitOID := gitOID (env.sha1 (gitPreimage kind body))

/-- The bytes of an object given in full or as extents over a base. -/
def gitBytes (kind : UInt8) (full : Bytes) (base : GitOID) (extents : List Extent) (size : Nat) :
    RepoM Bytes := do
  if gitValid base then
    match ← lookupGit base with
    | none => Op.throw .gitBase
    | some v => do
        Op.failIf (v.kind ≠ kind ∨ !v.native) .gitBase
        call .failed
        match applyExtents v.body extents size with
        | .ok body => return body
        | .error e => Op.throw (.repo e)
  else do
    Op.failIf (full.length ≠ size) .gitBody
    return full

/-- The first half of `Ingest`: the object and its identity. -/
def ingestRead (kind : UInt8) (full : Bytes) (base : GitOID) (extents : List Extent) (size : Nat) :
    RepoM (GitOID × Bytes) := do
  call .canceled
  Op.failIf (!(← Op.gets Repository.optimized) ∨ kind < gitCommit ∨ kind > gitTag ∨ size > maxBody)
    .gitBody
  ready
  let body ← gitBytes kind full base extents size
  return (oidOf env kind body, body)

/-- The second half of `Ingest`: an identity that is there is left alone. -/
def ingestStore (oid : GitOID) (kind : UInt8) (body : Bytes) : RepoM Unit := do
  call .canceled
  ready
  match ← lookupGit oid with
  | some _ => return ()
  | none => do
      -- the record is appended, which looks at the poison again
      ready
      call .failed
      Op.modify fun r => { r with objects := r.objects.insert oid ⟨kind, body, true⟩ }

/-- `IngestGitBody`, which holds the lock all the time. -/
def ingestGitBody (kind : UInt8) (full : Bytes) (base : GitOID) (extents : List Extent)
    (size : Nat) : RepoM (GitOID × Bytes) := do
  let (oid, body) ← ingestRead env kind full base extents size
  ingestStore oid kind body
  return (oid, body)

/-- Stores an object after the check of its identity. -/
def putGitObject (oid : GitOID) (kind : UInt8) (body : Bytes) : RepoM Unit := do
  call .canceled
  Op.failIf (!gitValid oid ∨ kind < gitCommit ∨ kind > gitTag) .gitBody
  ready
  call .failed
  Op.failIf (oidOf env kind body ≠ oid) .checksum
  let optimized ← Op.gets Repository.optimized
  Op.modify fun r => { r with objects := r.objects.insert oid ⟨kind, body, optimized⟩ }

end

/-! ## `nativeStorer` -/

/-- An object whose kind has been checked before. -/
structure EdgeHint where
  id : GitOID
  kind : UInt8
  deriving DecidableEq, Repr

/-- The storer: hints, required objects and the count. -/
structure NativeStorer where
  /-- The table of 65536 slots; an absent slot has kind zero. -/
  edgeHints : SortedMap Nat EdgeHint := ∅
  required : SortedMap GitOID UInt8 := ∅
  inserted : Nat := 0

/-- The repository and the storer over it. -/
structure Session where
  repo : Repository
  storer : NativeStorer := {}

abbrev ImportM := Op Session Err

def onRepo {α : Type} (m : RepoM α) : ImportM α :=
  m.zoom Session.repo fun r s => { s with repo := r }

def modifyStorer (f : NativeStorer → NativeStorer) : ImportM Unit :=
  Op.modify fun s => { s with storer := f s.storer }

/-- The slot of an identity. -/
def hintSlot (id : GitOID) : Nat := (id.getD 0 0).toNat + 256 * (id.getD 1 0).toNat

/-- Checks a reference without the hints; an object that is not there becomes required. -/
def requireSlow (id : GitOID) (kind : UInt8) : ImportM Unit := do
  match ← onRepo (gitObjectHeader id) with
  | some (got, _) => Op.failIf (got ≠ kind) .edgeMismatch
  | none => do
      let old ← Op.gets fun s => s.storer.required.find id
      Op.failIf (old.isSome ∧ old ≠ some kind) .edgeConflict
      modifyStorer fun n => { n with required := n.required.insert id kind }

/-- Checks a reference, with the hint of its slot first. -/
def require (id : GitOID) (kind : UInt8) : ImportM Unit := do
  let slot := hintSlot id
  let hint ← Op.gets fun s => (s.storer.edgeHints.find slot).getD ⟨zeroOID, 0⟩
  if hint.kind ≠ 0 ∧ hint.id = id then Op.failIf (hint.kind ≠ kind) .edgeConflict
  else do
    requireSlow id kind
    modifyStorer fun n => { n with edgeHints := n.edgeHints.insert slot ⟨id, kind⟩ }

/-- Checks references one after the other. -/
def requireAll (edges : List (GitOID × UInt8)) : ImportM Unit :=
  edges.forM fun edge => require edge.1 edge.2

/-- Checks the references in a body. -/
def requireLinks (kind : UInt8) (body : Bytes) : ImportM Unit := do
  let (edges, err) := gitLinks kind body 20
  requireAll edges
  match err with
  | none => return ()
  | some e => Op.throw e

/-- The check of the storage size, at the times that the clock and the count give. -/
def checkStorage : ImportM Unit := onRepo (call .storageLimit)

/-- The half of `accountLinks` that checks. -/
def checkLinks (oid : GitOID) (kind : UInt8) (links : ImportM Unit) : ImportM Unit := do
  let want ← Op.gets fun s => s.storer.required.find oid
  Op.failIf (want.isSome ∧ want ≠ some kind) .edgeMismatch
  Op.when (kind ≠ gitBlob) links

/-- Checks the links of an object and counts it. -/
def accountLinks (oid : GitOID) (kind : UInt8) (links : ImportM Unit) : ImportM Unit := do
  checkLinks oid kind links
  modifyStorer fun n => { n with required := n.required.erase oid, inserted := n.inserted + 1 }
  checkStorage

def accountBody (oid : GitOID) (kind : UInt8) (body : Bytes) : ImportM Unit :=
  accountLinks oid kind (requireLinks kind body)

structure EncodedObject where
  kind : UInt8
  body : Bytes
  deriving DecidableEq, Repr

section

variable (env : Env)

/-- The half of `SetEncodedObject` that stores; an object that is there is left alone. -/
def insertObject (id : GitOID) (obj : EncodedObject) : ImportM Unit := do
  match ← onRepo (gitObjectHeader id) with
  | some _ => modifyStorer fun n => { n with required := n.required.erase id }
  | none => do
      onRepo (putGitObject env id obj.kind obj.body)
      modifyStorer fun n => { n with required := n.required.erase id, inserted := n.inserted + 1 }

/-- `SetEncodedObject`: checks the links, stores, counts. -/
def setEncodedObject (obj : EncodedObject) : ImportM Unit := do
  onRepo (call .canceled)
  Op.failIf (obj.kind < gitCommit ∨ obj.kind > gitTag) .reconstructedType
  let id := oidOf env obj.kind obj.body
  let want ← Op.gets fun s => s.storer.required.find id
  Op.failIf (want.isSome ∧ want ≠ some obj.kind) .referencedType
  Op.failIf (obj.body.length > 2 ^ 30) .importLimit
  Op.when (obj.kind ≠ gitBlob) (requireLinks obj.kind obj.body)
  insertObject env id obj
  checkStorage

end

end Trex.GitStore
