import Trex.Repo.Workspace

/-!
# Runs of a repository

A new repository and the operations that its clients call, in any order, on any of its
workspaces.  An operation that fails leaves the state it stopped in.
-/

namespace Trex.Repo

def newStorage (optimized : Bool) (fails : Nat → Bool) (short : Nat → Nat) : Storage where
  bytes := []
  synced := 0
  calls := 0
  fails
  short
  optimized
  objects := ∅
  fast := none
  checkpointStart := 0
  poisoned := none
  closed := false
  gitObjects := ∅
  gitStats := .empty

/-- A new repository, with any failures of the file. -/
def create (optimized : Bool) (fails : Nat → Bool) (short : Nat → Nat) : Except Err World :=
  let format : StoreM Unit := do
    writePart (if optimized then magic3 else magic)
    fileSync
  match format (newStorage optimized fails short) with
  | (.error e, _) => .error e
  | (.ok _, store) => .ok ⟨⟨⟨store, .empty⟩, [], []⟩, ⟨∅, ∅⟩, fun _ => {}⟩

/-- The calls of a client. -/
inductive Action where
  | empty
  | checkout (name : Bytes)
  | forkID (id : ID)
  | fork (w : Workspace)
  | view (w : Workspace)
  | checkoutTree (oid : GitOID) (source : Bytes)
  | stat (w : Workspace) (p : Bytes)
  | listDir (w : Workspace) (p : Bytes)
  | paths (w : Workspace)
  | readFile (w : Workspace) (p : Bytes)
  | readlink (w : Workspace) (p : Bytes)
  | openReader (w : Workspace) (p : Bytes)
  | openGitObject (oid : GitOID)
  | closeReader (r : Nat)
  | writeFile (w : Workspace) (p data : Bytes)
  | symlink (w : Workspace) (p target : Bytes)
  | replace (w : Workspace) (p old new : Bytes)
  | mkdir (w : Workspace) (p : Bytes)
  | delete (w : Workspace) (p : Bytes)
  | rename (w : Workspace) (old new : Bytes)
  | renameReplace (w : Workspace) (old new : Bytes) (noReplace : Bool)
  | chmod (w : Workspace) (p : Bytes) (mode : Nat)
  | setTimes (w : Workspace) (p : Bytes) (times : Times)
  | writePages (w : Workspace) (p : Bytes) (reader size baseLimit : Nat) (pages : SortedMap Nat Bytes)
  | writeReader (w : Workspace) (p : Bytes) (source : Source)
  | linkGitBlob (w : Workspace) (p : Bytes) (oid : GitOID) (mode : Nat)
  | linkGit (w : Workspace) (p : Bytes) (oid : GitOID)
  | snapshot (w : Workspace)
  | publish (w : Workspace) (name : Bytes)
  | drop (name : Bytes) (expected : ID)
  | checkpoint
  | close
  | putGitObject (oid : GitOID) (kind : UInt8) (size : Nat) (input : Bytes)
  | ingestGitBody (kind : UInt8) (full : Bytes) (base : GitOID) (extents : List Extent) (size : Nat)
  | publishGit (c : GitCatalog)

/-- What a call gives back, as far as a client can use it in another call. -/
inductive Reply where
  | none
  | workspace (w : Workspace)
  | reader (r : Nat)
  | id (id : ID)

section

variable (env : Env)

/-- A call that gives back nothing that is used. -/
def plain {α : Type} (m : WorkM α) : WorldM Reply := do
  let _ ← onShared m
  return .none

def opened (m : WorkM Workspace) : WorldM Reply := return .workspace (← onShared m)

/-- A call that passes the roots to a sync. -/
def withRoots {α : Type} (m : Roots → WorkM α) : WorldM α := do
  let roots ← Op.gets World.roots
  onShared (m roots)

/-- A call. -/
def Action.run : Action → WorldM Reply
  | .empty => opened Repo.empty
  | .checkout name => return .workspace (← Repo.checkout env name)
  | .forkID id => opened (Repo.forkID env id)
  | .fork w => return .workspace (← withRoots fun roots => Repo.fork env roots w)
  | .view w => opened (Repo.view w)
  | .checkoutTree oid source => opened (Repo.checkoutTree oid source)
  | .stat w p => plain (Repo.stat env w p)
  | .listDir w p => plain (Repo.listDir env w p)
  | .paths w => plain (Repo.paths env w)
  | .readFile w p => plain (Repo.readFile env w p)
  | .readlink w p => plain (Repo.readlink env w p)
  | .openReader w p => return .reader (← onShared (Repo.openReader env w p))
  | .openGitObject oid => return .reader (← onShared (Repo.openGitObject env oid))
  | .closeReader r => plain (Repo.closeReader r)
  | .writeFile w p data => plain (Repo.writeFile env w p data)
  | .symlink w p target => plain (Repo.symlink env w p target)
  | .replace w p old new => plain (Repo.replace env w p old new)
  | .mkdir w p => plain (Repo.mkdir env w p)
  | .delete w p => plain (Repo.delete env w p)
  | .rename w old new => plain (Repo.rename env w old new)
  | .renameReplace w old new noReplace => plain (Repo.renameReplace env w old new noReplace)
  | .chmod w p mode => plain (Repo.chmod env w p mode)
  | .setTimes w p times => plain (Repo.setTimes env w p times)
  | .writePages w p reader size baseLimit pages => plain (Repo.writePages env w p reader size baseLimit pages)
  | .writeReader w p source => plain (Repo.writeReader env w p source)
  | .linkGitBlob w p oid mode => plain (Repo.linkGitBlob env w p oid mode)
  | .linkGit w p oid => plain (Repo.linkGit env w p oid)
  | .snapshot w => return .id (← withRoots fun roots => Repo.snapshot env roots w)
  | .publish w name => return .id (← Repo.publish env w name)
  | .drop name expected => do
      Repo.drop env name expected
      return .none
  | .checkpoint => do
      withRoots fun roots => onRepo (Repo.checkpoint env roots)
      return .none
  | .close => do
      withRoots fun roots => onRepo (Repo.close env roots)
      return .none
  | .putGitObject oid kind size input => plain (onRepo (Repo.putGitObject env oid kind size input))
  | .ingestGitBody kind full base extents size => plain (onRepo (ingestBody env kind full base extents size zeroOID))
  | .publishGit c => do
      Repo.publishGit env c
      return .none

end

/-! ## A sample -/

/-- A stand-in for a hash, for runs of the model. -/
def checksum (data : Bytes) : Nat :=
  data.foldl (fun v b => (v * 1103515245 + b.toNat + 12345) % (2 ^ 255 - 19)) 1

/-- Checksums in the place of the hashes, and nothing compressed. -/
def sampleEnv : Env where
  sha256 data := BigEndian.put 32 (checksum data)
  length_sha256 data := BigEndian.length_put _ _
  sha1 data := BigEndian.put 20 (checksum data)
  length_sha1 data := BigEndian.length_put _ _
  encodeAll data := data
  decodeAll data := some data
  decodeAll_encodeAll _ := rfl
  length_encodeAll data := by omega

def sampleWorld (optimized : Bool) : World where
  shared := {
    live := {
      store := { newStorage optimized (fun _ => false) (fun _ => 0) with
        bytes := if optimized then magic3 else magic
        synced := 8
        calls := 2 }
      heap := .empty }
    states := []
    readers := [] }
  roots := ⟨∅, ∅⟩
  tags := fun _ => {}

lemma create_sample (optimized : Bool) :
    create optimized (fun _ => false) (fun _ => 0) = .ok (sampleWorld optimized) := by
  cases optimized <;> rfl

end Trex.Repo
