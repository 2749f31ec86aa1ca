import Trex.Git.Storer

/-!
# Packs and the sequential import

`translateDelta` and `importExtents` of `extents.go`.  A pack is a list of entries with increasing
offsets, each with its header and its inflated bytes.  Reading an entry may fail, as `faults` decides.
-/

namespace Trex.GitStore

open Slice
open Trex.Repo (GitOID Env Extent gitValid zeroOID)

/-! ## Deltas -/

/-- A size field of a delta. -/
def deltaSize (data : Bytes) : Option (Nat × Bytes) :=
  (Uvarint.decode data).map fun (n, taken) => (n, data.drop taken)

/-- The bytes of a copy instruction that its bit mask announces: offset and length. -/
def deltaCopy (op : Nat) : List Nat → Nat → Nat → Bytes → Except Err (Nat × Nat × Bytes)
  | [], offset, length, data => .ok (offset, length, data)
  | bit :: bits, offset, length, data =>
      if op / 2 ^ bit % 2 = 0 then deltaCopy op bits offset length data
      else
        match data with
        | [] => .error .unexpectedEOF
        | b :: data =>
            if bit < 4 then deltaCopy op bits (offset + b.toNat * 256 ^ bit) length data
            else deltaCopy op bits offset (length + b.toNat * 256 ^ (bit - 4)) data

/-- One instruction as an extent, and what follows it. -/
def deltaExtent (baseSize : Nat) : Bytes → Except Err (Extent × Bytes)
  | [] => .error .unexpectedEOF
  | op :: data =>
      if op.toNat < 128 then
        if op = 0 ∨ op.toNat > data.length then .error .deltaLiteral
        else .ok (⟨0, op.toNat, some (data.take op.toNat)⟩, data.drop op.toNat)
      else
        match deltaCopy op.toNat [0, 1, 2, 3, 4, 5, 6] 0 0 data with
        | .error e => .error e
        | .ok (offset, length, data) =>
            let length := if length = 0 then 65536 else length
            if offset > baseSize ∨ length > baseSize - offset then .error .deltaOutside
            else .ok (⟨offset, length, none⟩, data)

/-- The loop over the instructions; every turn takes bytes off the data. -/
def deltaExtents (baseSize size : Nat) : Nat → Bytes → Nat → List Extent →
    Except Err (List Extent × Nat)
  | 0, _, produced, out => .ok (out, produced)
  | turns + 1, data, produced, out =>
      if data = [] then .ok (out, produced)
      else
        match deltaExtent baseSize data with
        | .error e => .error e
        | .ok (extent, rest) =>
            if extent.length > size - produced then .error .deltaOverflow
            else if out.length ≥ 2 ^ 20 then .error .deltaExtentLimit
            else deltaExtents baseSize size turns rest (produced + extent.length) (out ++ [extent])

/-- The extents of a delta over its base, and the size of the output. -/
def translateDelta (data : Bytes) (baseSize : Nat) : Except Err (List Extent × Nat) :=
  match deltaSize data with
  | none => .error .deltaBaseSize
  | some (n, data) =>
      if n ≠ baseSize then .error .deltaBaseSize
      else
        match deltaSize data with
        | none => .error .deltaOutputLimit
        | some (size, data) =>
            if size > 2 ^ 30 then .error .deltaOutputLimit
            else
              match deltaExtents baseSize size data.length data 0 [] with
              | .error e => .error e
              | .ok (out, produced) =>
                  if produced ≠ size then .error .deltaOutputSize else .ok (out, size)

/-! ## Packs -/

inductive ObjectType where
  | invalid
  | commit
  | tree
  | blob
  | tag
  | ofsDelta
  | refDelta
  deriving DecidableEq, Repr

def ObjectType.byte : ObjectType → UInt8
  | .invalid => 0
  | .commit => 1
  | .tree => 2
  | .blob => 3
  | .tag => 4
  | .ofsDelta => 6
  | .refDelta => 7

def ObjectType.isDelta (t : ObjectType) : Bool := t == .ofsDelta || t == .refDelta

/-- `packfile.ObjectHeader` with the inflated bytes behind it. -/
structure PackEntry where
  type : ObjectType
  offset : Nat
  length : Int
  offsetReference : Int := 0
  reference : Bytes := List.replicate 20 0
  data : Bytes
  length_reference : reference.length = 20

lemma length_noReference : (List.replicate 20 (0 : UInt8)).length = 20 := rfl

def blobEntry (offset : Nat) : PackEntry :=
  { type := .blob, offset, length := 1, data := [65], length_reference := length_noReference }

/-- A pack: its entries by offset, and the checksum behind them. -/
structure Pack where
  entries : List PackEntry
  increasing : entries.Pairwise fun a b => a.offset < b.offset
  checksum : Bytes

/-- The entry at an offset. -/
def Pack.seek (pack : Pack) (offset : Nat) : Option PackEntry :=
  pack.entries.find? fun h => h.offset == offset

/-- The limits of the inflated data. -/
def PackEntry.check (h : PackEntry) : Except Err Unit :=
  if h.length < 0 ∨ h.length > 2 ^ 30 then .error .inflatedLimit
  else if (h.data.length : Int) ≠ h.length then .error .inflatedLength
  else .ok ()

/-! ## The sequential import -/

/-- The local variables of `importExtents`, and as a ghost the objects ingested so far. -/
structure Extents where
  session : Session
  offsets : SortedMap Int GitOID := ∅
  ingested : List EncodedObject := []

abbrev ExtentsM := Op Extents Err

/-- A step of the storer inside the import. -/
def onSession {α : Type} (m : ImportM α) : ExtentsM α :=
  m.zoom Extents.session fun t s => { s with session := t }

/-- The base of a delta, zero for none. -/
def entryBase (h : PackEntry) : ExtentsM GitOID :=
  match h.type with
  | .ofsDelta => Op.gets fun s => (s.offsets.find h.offsetReference).getD zeroOID
  | .refDelta => pure (gitOID h.reference)
  | _ => pure zeroOID

section

variable (env : Env) (pack : Pack)

/-- Stores an object and accounts for its links. -/
def ingestEntry (offset : Nat) (kind : UInt8) (full : Bytes) (base : GitOID)
    (extents : List Extent) (size : Nat) : ExtentsM Unit := do
  let (oid, body) ← onSession (onRepo (ingestGitBody env kind full base extents size))
  Op.modify fun s => { s with ingested := s.ingested ++ [⟨kind, body⟩] }
  onSession (accountBody oid kind body)
  Op.modify fun s => { s with offsets := s.offsets.insert offset oid }

/-- The part of `process` behind the lookup of the base. -/
def processBody (h : PackEntry) (kind : UInt8) (base : GitOID) (baseSize : Nat) :
    ExtentsM Unit := do
  onSession (onRepo (call .failed))
  Op.ofExcept h.check
  if gitValid base then do
    let (extents, size) ← Op.ofExcept (translateDelta h.data baseSize)
    ingestEntry env h.offset kind [] base extents size
  else ingestEntry env h.offset kind h.data base [] h.data.length

/-- One entry; a delta whose base is missing waits for the next pass. -/
def process (h : PackEntry) : ExtentsM Bool := do
  onSession (onRepo (call .canceled))
  Op.failIf (h.length < 0 ∨ h.length > 2 ^ 30) .inflatedLimit
  let base ← entryBase h
  if h.type.isDelta then
    match ← onSession (onRepo (gitObjectHeader base)) with
    | none => do
        onSession (onRepo (call .failed))
        return false
    | some (kind, baseSize) => do
        processBody env h kind base baseSize
        return true
  else do
    processBody env h h.type.byte base 0
    return true

/-- One pass over the entries; what waits is left. -/
def processAll : List PackEntry → ExtentsM (List PackEntry)
  | [] => pure []
  | h :: rest => do
      onSession (onRepo (call .failed))
      let done ← process env h
      let pending ← processAll rest
      return if done then pending else h :: pending

/-- The passes over the entries that wait; at most 128. -/
def passes : Nat → List PackEntry → ExtentsM Unit
  | 0, pending => Op.failIf (pending ≠ []) .dependencyLimit
  | left + 1, pending =>
      if pending = [] then pure ()
      else do
        let next ← processAll env pending
        Op.failIf (next.length = pending.length) .missingOrCyclic
        passes left next

/-- The sequential import. -/
def importExtents (expected : Nat) : ExtentsM Bytes := do
  onSession (onRepo (call .failed))
  Op.failIf (pack.entries.length ≠ expected) .packCount
  let pending ← processAll env pack.entries
  onSession (onRepo (call .failed))
  passes env 128 pending
  return pack.checksum

end

end Trex.GitStore
