import Trex.Repo.FastIndex

/-!
# Bodies and Git objects going in

The write half of `body.go`, `body_identity.go`, `git.go` and `git_body.go`: native
bodies, Git objects as typed bodies or block lists, and Git catalogs.
-/

namespace Trex.Repo

open Bytes (ascii)

open Slice

def gitCommit : UInt8 := 1
def gitTree : UInt8 := 2
def gitBlob : UInt8 := 3
def gitTag : UInt8 := 4

def gitTypeName (kind : UInt8) : Bytes :=
  if kind = gitCommit then ascii "commit"
  else if kind = gitTree then ascii "tree"
  else if kind = gitBlob then ascii "blob"
  else if kind = gitTag then ascii "tag"
  else ascii "invalid"

/-- The text of an identity. -/
def gitText (oid : GitOID) : Bytes :=
  if gitValid oid then Hex.encode (oid.take (gitLength oid)) else []

/-- What Git hashes: type, size, a zero byte, body. -/
def gitPreimage (kind : UInt8) (body : Bytes) : Bytes :=
  gitTypeName kind ++ ascii " " ++ Json.printNat body.length ++ 0 :: body

/-- Counts an object. -/
def addGitStats (s : GitStats) (kind : UInt8) (size : Nat) : GitStats :=
  let t := (s.types.find (gitTypeName kind)).getD ⟨0, 0⟩
  ⟨s.objects + 1, s.bytes + size, s.types.insert (gitTypeName kind) ⟨t.objects + 1, t.bytes + size⟩⟩

/-- Notes a new Git identity in the maps of the session. -/
def recordGit (oid : GitOID) (v : GitLocation) : StoreM Unit :=
  Op.modify fun s =>
    { s with
      gitObjects := s.gitObjects.insert oid v
      fast := s.fast.map fun f => { f with dirtyGit := f.dirtyGit.insert oid v.id }
      gitStats := addGitStats s.gitStats v.kind v.size }

section

variable (env : Env)

/-- Records the location of an identity; another location is a collision. -/
def registerGitLocation (oid : GitOID) (v : GitLocation) : StoreM Unit := do
  match ← lookupGit env oid with
  | some old => Op.failIf (old ≠ v) .gitCollision
  | none => recordGit oid v

/-- The Git identity that a body record carries. -/
def registerBodyGit (id : ID) (data : Bytes) : StoreM Unit := do
  let (oid, kind, _) ← Op.ofExcept (bodyIdentity data)
  Op.when (gitValid oid) (registerGitLocation env oid
    { id := key id, body := key id, kind, size := BigEndian.get (slice data 2 8) })

/-- The Git identity that a descriptor carries. -/
def registerGit (id : ID) (data : Bytes) (validate : Bool) : StoreM Unit := do
  let (oid, kind, size, raw) ← Op.ofExcept (decodeGitDescriptor data)
  match ← lookupGit env oid with
  | some old => Op.failIf (old.id ≠ key id) .gitCollision
  | none => do
      if data.head? = some 2 then
        checkBody env raw size (key id) .gitReference
        recordGit oid { id := key id, body := raw, size, kind }
      else do
        Op.when validate (checkBlocks env (Chunk.chunks 32 raw) size (key id) .gitReference)
        recordGit oid { id := key id, body := zeroKey, size, kind }

/-! ## Bodies -/

/-- A literal, or the extents over the base when they are shorter and the chain stays in its limit. -/
def chooseOps (body : Bytes) (extents : List Extent) : Option Location → Bytes × Nat
  | none => (nativeOps [{ length := body.length, data := some body }], 0)
  | some base =>
      let literal := nativeOps [{ length := body.length, data := some body }]
      let candidate := nativeOps extents
      if base.depth < maxBodyDepth ∧ candidate.length < literal.length then (candidate, base.depth + 1)
      else (literal, 0)

/-- The bytes of a body record. -/
def bodyRecord (size : Nat) (base : Key) (ops : Bytes) (depth : Nat) (oid : GitOID) (kind : UInt8) :
    Bytes :=
  let typed := gitValid oid
  let head := (if typed then 2 else 1) :: .ofNat depth :: BigEndian.put 8 size ++
    (if depth = 0 then zeroKey else base)
  let identity := if typed then kind :: .ofNat (gitLength oid) :: oid.take (gitLength oid) else []
  let data := head ++ identity ++ env.encodeAll ops
  data ++ env.sha256 data

/-- The location of the base, if one is named. -/
def findBase (base : ID) : StoreM (Option Location) := do
  if base = [] then return none
  match ← lookupObject env (key base) with
  | none => Op.throw .bodyBase
  | some loc => do
      Op.failIf (loc.kind ≠ bodyKind) .bodyBase
      return some loc

/-- Stores a body, unless it is there already. -/
def putBodyIdentity (body : Bytes) (base : ID) (extents : List Extent) (oid : GitOID) (kind : UInt8) :
    StoreM ID := do
  Op.failIf (body.length > maxBody) .bodyLimit
  let id := digest env bodyKind body
  if (← lookupObject env (key id)).isSome then return id
  let baseLoc ← findBase env base
  let (ops, depth) := chooseOps body extents baseLoc
  let data := bodyRecord env body.length (key base) ops depth oid kind
  let _ ← appendEncoded env bodyKind id data body.length depth
  Op.when (gitValid oid) (registerBodyGit env id data)
  return id

def putBody (body : Bytes) (base : ID) (extents : List Extent) : StoreM ID :=
  putBodyIdentity env body base extents zeroOID 0

/-! ## Git objects -/

/-- The bytes of an object given in full or as extents over a base, and the native base. -/
def gitBody (kind : UInt8) (full : Bytes) (base : GitOID) (extents : List Extent) (size : Nat) :
    StoreM (Bytes × ID) := do
  if gitValid base then
    match ← lookupGit env base with
    | none => Op.throw .gitBase
    | some v => do
        Op.failIf (v.kind ≠ kind ∨ v.body = zeroKey) .gitBase
        let b ← getRaw env v.body bodyKind
        let body ← Op.ofExcept (applyExtents b extents size)
        return (body, keyID v.body)
  else do
    Op.failIf (full.length ≠ size) .gitSize
    return (full, [])

/-- Stores a Git object that is given whole or as extents over a base. -/
def ingestBody (kind : UInt8) (full : Bytes) (base : GitOID) (extents : List Extent) (size : Nat)
    (expected : GitOID) : StoreM (GitOID × ID) := do
  ready
  Op.failIf (!(← Op.gets Storage.optimized) ∨ kind < gitCommit ∨ kind > gitTag ∨ size > maxBody)
    .gitHeader
  let (body, nativeBase) ← gitBody env kind full base extents size
  let hash := if gitLength expected = 32 then env.sha256 else env.sha1
  let oid ← Op.ofExcept (gitOIDFromBytes (hash (gitPreimage kind body)))
  Op.failIf (gitValid expected ∧ oid ≠ expected) .gitChecksum
  match ← lookupGit env oid with
  | some old => return (oid, keyID old.id)
  | none => do
      let native ← putBodyIdentity env body nativeBase extents oid kind
      match ← lookupGit env oid with
      | some v => return (oid, keyID v.id)
      | none => do
          -- the body was there without this identity
          let data := [2, kind, .ofNat (gitLength oid)] ++ oid.take (gitLength oid) ++
            BigEndian.put 8 body.length ++ key native
          let id ← append env gitObjectKind data
          registerGit env id data false
          return (oid, id)

/-- Stores the blocks of an object. -/
def gitBlocks : Nat → Nat → Bytes → StoreM (List ID)
  | 0, _, _ => return []
  | turns + 1, remaining, input =>
      if remaining = 0 then return []
      else do
        let n := min remaining blockSize
        Op.failIf (input.length < n) .unexpectedEOF
        let id ← append env blockKind (input.take n)
        let rest ← gitBlocks turns (remaining - n) (input.drop n)
        return id :: rest

/-- Stores a Git object from a stream, with checks of its size and identity. -/
def putGitObject (oid : GitOID) (kind : UInt8) (size : Nat) (input : Bytes) : StoreM ID := do
  Op.failIf (!gitValid oid ∨ kind < gitCommit ∨ kind > gitTag) .gitHeader
  if ← Op.gets Storage.optimized then
    Op.failIf (size > maxBody) .bodyLimit
    Op.failIf ((input.take (size + 1)).length ≠ size) .gitSize
    let (_, id) ← ingestBody env kind (input.take (size + 1)) zeroOID [] size oid
    return id
  else do
    Op.failIf ((size + blockSize - 1) / blockSize > (maxRecord - 43) / 32) .gitHeader
    ready
    let ids ← gitBlocks env (size + 1) size input
    Op.failIf (input.length ≠ size) .gitSize
    let hash := if gitLength oid = 20 then env.sha1 else env.sha256
    Op.failIf (hash (gitPreimage kind input) ≠ oid.take (gitLength oid)) .gitChecksum
    let data := [1, kind, .ofNat (gitLength oid)] ++ oid.take (gitLength oid) ++
      BigEndian.put 8 size ++ ids.flatMap key
    let id ← append env gitObjectKind data
    registerGit env id data false
    return id

/-- A stored Git object. -/
structure GitObject where
  body : ID := []
  id : ID
  kind : UInt8
  size : Nat
  blocks : List ID := []

/-- The object with an identity. -/
def gitObject (oid : GitOID) : StoreM GitObject := do
  match ← lookupGit env oid with
  | none => Op.throw .gitNotFound
  | some v =>
      if v.id = v.body ∧ v.body ≠ zeroKey then
        return { id := keyID v.id, body := keyID v.body, kind := v.kind, size := v.size }
      else do
        let data ← getRaw env v.id gitObjectKind
        let (got, kind, size, raw) ← Op.ofExcept (decodeGitDescriptor data)
        Op.failIf (got ≠ oid) .indexGitIdentity
        if data.head? = some 2 then
          return { id := keyID v.id, kind, size, body := keyID v.body }
        else return { id := keyID v.id, kind, size, blocks := (Chunk.chunks 32 raw).map Hex.encode }

/-! ## Git catalogs -/

/-- The references of an imported Git repository; `none` is a nil map. -/
structure GitCatalog where
  name : Bytes
  remote : Bytes
  head : Bytes
  refs : Option (SortedMap Bytes Bytes)
  symbolicRefs : Option (SortedMap Bytes Bytes)
  peeled : Option (SortedMap Bytes Bytes)
  packBytes : Int
  packHash : Bytes
  objects : Nat

def optionMapJson (m : Option (SortedMap Bytes Bytes)) : Json :=
  match m with
  | none => .null
  | some m => mapJson .str m

def GitCatalog.json (c : GitCatalog) : Json :=
  .obj [(ascii "name", .str c.name), (ascii "remote", .str c.remote), (ascii "head", .str c.head),
    (ascii "refs", optionMapJson c.refs), (ascii "symbolic_refs", optionMapJson c.symbolicRefs),
    (ascii "peeled", optionMapJson c.peeled), (ascii "transport_bytes", .num c.packBytes),
    (ascii "transport_hash", .str c.packHash), (ascii "objects", .num c.objects)]

def GitCatalog.marshal (c : GitCatalog) : Bytes := c.json.print

/-- The identities that a catalogue names. -/
def GitCatalog.targets (c : GitCatalog) : List Bytes :=
  ((c.refs.getD ∅).entries.map Prod.snd) ++ ((c.peeled.getD ∅).entries.map Prod.snd) ++
    (if c.head = [] then [] else [c.head])

/-- Every identity of a catalogue is there. -/
def validateGitCatalog (c : GitCatalog) : StoreM Unit := do
  Op.failIf (!validName c.name ∨ c.refs.isNone) .gitCatalog
  c.targets.forM fun text => do
    let oid ← Op.ofExcept (parseGitOID text)
    Op.failIf (← lookupGit env oid).isNone .gitNotFound

end

end Trex.Repo
