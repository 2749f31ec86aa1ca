import Trex.Lib.Uvarint
import Trex.Repo.Store

/-!
# Bodies and reads

`body.go`, `body_identity.go`, `edit_extents.go` and the read half of `store.go`.  A body is stored as
compressed instructions that copy from a base or give literal bytes.
-/

namespace Trex.Repo

open Slice

/-! ## Extents -/

/-- A slice of a base, or literal bytes. -/
structure Extent where
  offset : Nat := 0
  length : Nat
  data : Option Bytes := none

/-- An extent as it is stored. -/
def nativeOp (e : Extent) : Bytes :=
  if e.length = 0 then []
  else
    match e.data with
    | some data => Uvarint.encode (2 * e.length) ++ data
    | none => Uvarint.encode (2 * e.length + 1) ++ Uvarint.encode e.offset

def nativeOps (extents : List Extent) : Bytes := extents.flatMap nativeOp

/-- One extent: literal bytes, or a range of the base. -/
def applyExtent (base : Bytes) (size : Nat) (out : Bytes) (e : Extent) : Except Err Bytes := do
  refuse (e.length > size - out.length) .extentOutput
  match e.data with
  | some data => do
      refuse (data.length ≠ e.length) .extentLiteral
      return out ++ data
  | none => do
      refuse (e.offset > base.length ∨ e.length > base.length - e.offset) .extentOutside
      return out ++ slice base e.offset e.length

/-- The body that the extents describe. -/
def applyExtents (base : Bytes) (extents : List Extent) (size : Nat) : Except Err Bytes := do
  refuse (size > maxBody) .bodyLimit
  let out ← extents.foldlM (applyExtent base size) []
  refuse (out.length ≠ size) .extentSize
  return out

/-- The length of the common start. -/
def commonPrefix : Bytes → Bytes → Nat
  | a :: old, b :: next => if a = b then commonPrefix old next + 1 else 0
  | _, _ => 0

/-- Shares the unchanged prefix and suffix. -/
def editExtents (old next : Bytes) : List Extent :=
  let pre := commonPrefix old next
  -- the suffix is looked for in what the prefix leaves of both
  let suf := commonPrefix (old.drop pre).reverse (next.drop pre).reverse
  let middle := next.length - pre - suf
  (if pre > 0 then [{ length := pre }] else []) ++
    (if middle > 0 then [{ length := middle, data := some (slice next pre middle) }] else []) ++
    (if suf > 0 then [{ offset := old.length - suf, length := suf }] else [])

/-! ## Body records -/

/-- The Git identity and kind in a body record and where its instructions start. -/
def bodyIdentity (data : Bytes) : Except Err (GitOID × UInt8 × Nat) := do
  refuse (data.length < 74) .bodyIdentity
  if data.head? = some 1 then return (zeroOID, 0, 42)
  refuse (data.head? ≠ some 2 ∨ data.length < 76) .bodyIdentity
  let kind := data.getD 42 0
  let n := (data.getD 43 0).toNat
  refuse (kind < 1 ∨ kind > 4 ∨ (n ≠ 20 ∧ n ≠ 32) ∨ data.length < 44 + n + 32) .bodyIdentity
  let oid ← gitOIDFromBytes (slice data 44 n)
  return (oid, kind, 44 + n)

section

variable (env : Env)

/-- A body with a base has one that lies before it and is one step shorter. -/
def inspectBase (base : Key) (depth offset : Nat) : StoreM Unit :=
  if depth = 0 then Op.failIf (base ≠ zeroKey) .bodyBase
  else do
    match ← lookupObject env base with
    | none => Op.throw .bodyBase
    | some loc => Op.failIf (loc.kind ≠ bodyKind ∨ loc.offset ≥ offset ∨ loc.depth + 1 ≠ depth) .bodyBase

/-- The location of a body record, after the checks of its header and checksum. -/
def inspectBody (data : Bytes) (offset : Nat) : StoreM Location := do
  let depth := (data.getD 1 0).toNat
  Op.failIf (data.length < 74 ∨ (data.head? ≠ some 1 ∧ data.head? ≠ some 2) ∨ depth > maxBodyDepth)
    .bodyHeader
  Op.failIf (env.sha256 (data.take (data.length - 32)) ≠ data.drop (data.length - 32)) .bodyChecksum
  let _ ← Op.ofExcept (bodyIdentity data)
  let n := BigEndian.get (slice data 2 8)
  Op.failIf (n > maxBody) .bodyLimit
  inspectBase env (slice data 10 32) depth offset
  return { offset, size := n, kind := bodyKind, stored := data.length, depth }

/-- The loop that runs the instructions; each takes at least one byte. -/
def runOps (base : Bytes) (size : Nat) : Nat → Bytes → Bytes → Except Err Bytes
  | 0, _, out => .ok out
  | turns + 1, ops, out =>
      if ops = [] then .ok out
      else
        match Uvarint.decode ops with
        | none => .error .bodyExtent
        | some (v, n) =>
            let ops := ops.drop n
            let length := v / 2
            if length = 0 ∨ length > size - out.length then .error .bodyExtent
            else if v % 2 = 0 then
              if length > ops.length then .error .bodyExtent
              else runOps base size turns (ops.drop length) (out ++ ops.take length)
            else
              match Uvarint.decode ops with
              | none => .error .bodyExtent
              | some (offset, n) =>
                  if offset > base.length ∨ length > base.length - offset then .error .bodyExtent
                  else runOps base size turns (ops.drop n) (out ++ slice base offset length)

/-- The bytes of a body; `turns` bounds the chain of bases, which `inspectBody` keeps
below `maxBodyDepth`. -/
def readBodyShared : Nat → Key → Location → StoreM Bytes
  | 0, _, _ => Op.throw .bodyBase
  | turns + 1, id, loc => do
      let data ← Op.ofExcept ((← Op.get).readAt loc.offset loc.stored)
      let checked ← inspectBody env data loc.offset
      Op.failIf (checked.size ≠ loc.size ∨ checked.depth ≠ loc.depth) .bodyMismatch
      let (_, _, opsStart) ← Op.ofExcept (bodyIdentity data)
      match env.decodeAll (slice data opsStart (data.length - 32 - opsStart)) with
      | none => Op.throw .decompress
      | some ops => do
          let base ← (if loc.depth = 0 then return [] else do
            let baseID := slice data 10 32
            match ← lookupObject env baseID with
            | none => Op.throw .bodyBase
            | some baseLoc => do
                Op.failIf (baseLoc.kind ≠ bodyKind) .bodyBase
                readBodyShared turns baseID baseLoc)
          let out ← Op.ofExcept (runOps base loc.size (ops.length + 1) ops [])
          Op.failIf (out.length ≠ loc.size ∨ digestKey env bodyKind out ≠ id) .bodyCanonical
          return out

def readBody (id : Key) (loc : Location) : StoreM Bytes :=
  readBodyShared env (maxBodyDepth + 1) id loc

/-- The bytes of a body. -/
def borrowBody (id : ID) : StoreM Bytes := do
  ready
  Op.failIf (!validID id) .invalidID
  match ← lookupObject env (key id) with
  | none => Op.throw .missingObject
  | some loc => do
      Op.failIf (loc.kind ≠ bodyKind) .missingObject
      readBody env (key id) loc

/-! ## Reading records -/

/-- A record of a kind. -/
def getRaw (id : Key) (kind : UInt8) : StoreM Bytes := do
  ready
  match ← lookupObject env id with
  | none => Op.throw .missingObject
  | some loc => do
      Op.failIf (loc.kind ≠ kind) .missingObject
      if kind = bodyKind then readBody env id loc
      else do
        let b ← Op.ofExcept ((← Op.get).readAt loc.offset loc.size)
        Op.failIf (digestKey env kind b ≠ id) .corruptObject
        return b

def get (id : ID) (kind : UInt8) : StoreM Bytes := do
  Op.failIf (!validID id) .invalidID
  getRaw env (key id) kind

/-- A record that holds JSON. -/
def getJSON {α : Type} (id : ID) (kind : UInt8) (read : Bytes → Except Err α) : StoreM α := do
  let b ← get env id kind
  Op.ofExcept (read b)

end

end Trex.Repo
