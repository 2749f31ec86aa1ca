import Trex.Lib.Memory
import Trex.Block.Device

/-!
# The sparse overlay (`block/sparse.go`)

Changed chunks are kept in a caller's store at their offsets, only their set in memory.  Every operation
of the base and of the store may fail; a failed write leaves the store in any state, and the overlay
then refuses every later call.
-/

namespace Trex.Block

open Slice Memory

/-- What the store holds at each offset. -/
abbrev Store := Nat → UInt8

/-- The outcome of a write to the store. -/
structure WriteResult where
  n : Nat
  err : Option BlockError
  after : Store

/-- The base and the store behind one call, which may fail or be short. -/
structure SparseIO (b : Base) where
  base : BaseRead b
  readAt : Store → Nat → Nat → List UInt8 × Option BlockError
  /-- a read of the store delivers some prefix of the requested window -/
  faithful : ∀ s off n, ∃ k, k ≤ n ∧ (readAt s off n).1 = window s off k
  writeAt : Store → Nat → List UInt8 → WriteResult
  /-- a full write without an error has stored the bytes; any other may have done anything -/
  stored : ∀ s off data, (writeAt s off data).n = data.length → (writeAt s off data).err = none →
    (writeAt s off data).after = put s off data

def sparseChunkSize : Nat := 4096

/-- Chunks that have been written live in the store; the first failure stays. -/
structure SparseOverlay where
  dirty : List Nat
  store : Store
  failure : Option BlockError

namespace SparseOverlay

/-- Keeps the first failure. -/
def fail (d : SparseOverlay) (err : BlockError) : SparseOverlay :=
  match d.failure with
  | some _ => d
  | none => { d with failure := some err }

/-- The length of the read at `pos`: as far as the chunks are all dirty or all clean. -/
def coalesce (chunk : Nat) (d : SparseOverlay) (pos left : Nat) (dirty : Bool) : Nat → Nat → Nat
  | 0, size => size
  | turns + 1, size =>
    if size < left then
      if decide ((pos + size) / chunk ∈ d.dirty) ≠ dirty then size
      else coalesce chunk d pos left dirty turns (size + min (left - size) chunk)
    else size

/-- Reads from the store or the base, a run of like chunks at a time. -/
def readLoop (chunk : Nat) {b : Base} (io : SparseIO b) (d : SparseOverlay) (off length : Nat) :
    Nat → List UInt8 → List UInt8 × Option BlockError
  | 0, p => (p, none)
  | turns + 1, p =>
    if p.length < length then
      let pos := off + p.length
      let dirty := decide (pos / chunk ∈ d.dirty)
      let size := coalesce chunk d pos (length - p.length) dirty (length - p.length)
        (min (length - p.length) (chunk - pos % chunk))
      let (got, err) := readFullAt (if dirty then io.readAt d.store else io.base.readAt) pos size
      match err with
      | some err => (p ++ got, some err)
      | none => readLoop chunk io d off length turns (p ++ got)
    else (p, none)

/-- `backing.WriteAt` of a whole chunk or of a part of a dirty one. -/
def storeChunk {b : Base} (io : SparseIO b) (d : SparseOverlay) (index pos : Nat) (data : List UInt8) :
    SparseOverlay × Option BlockError :=
  let r := io.writeAt d.store pos data
  match r.err with
  | some err => ({ d.fail err with store := r.after }, some err)
  | none =>
    if r.n ≠ data.length then
      ({ d.fail (.other "short write") with store := r.after }, some (.other "short write"))
    else ({ d with store := r.after, dirty := if index ∈ d.dirty then d.dirty else index :: d.dirty }, none)

/-- One turn of the loop of `WriteAt`: the part of the data that lies in one chunk. -/
def writeChunk (chunk : Nat) {b : Base} (io : SparseIO b) (d : SparseOverlay) (pos : Nat)
    (data : List UInt8) : SparseOverlay × Option BlockError :=
  let index := pos / chunk
  if index ∈ d.dirty then d.storeChunk io index pos data
  else
    let start := index * chunk
    -- `changed` leaves the chunk of the base in the scratch buffer
    let (scratch, err) := readFullAt io.base.readAt start (min chunk (b.data.length - start))
    match err with
    | some err => (d.fail err, some err)
    | none =>
      if slice scratch (pos - start) data.length = data then (d, none)
      else d.storeChunk io index start (overwrite scratch (pos - start) data)

/-- Writes chunk by chunk; a chunk that is not in the store is copied there first. -/
def writeLoop (chunk : Nat) {b : Base} (io : SparseIO b) (off : Nat) (p : List UInt8) :
    Nat → Nat → SparseOverlay → Nat × Option BlockError × SparseOverlay
  | 0, done, d => (done, none, d)
  | turns + 1, done, d =>
    if done < p.length then
      let pos := off + done
      let size := min (p.length - done) (chunk - pos % chunk)
      let (d, err) := d.writeChunk chunk io pos (slice p done size)
      match err with
      | some err => (done, some err, d)
      | none => writeLoop chunk io off p turns (done + size) d
    else (done, none, d)

end SparseOverlay

/-! ## Calls -/

inductive SparseCall (b : Base) where
  | readAt (off : Int) (length : Nat) (io : SparseIO b)
  | writeAt (off : Int) (p : List UInt8) (io : SparseIO b)

/-- What a call returns; `fault` tells that the storage failed in it. -/
structure SparseAnswer where
  bytes : List UInt8
  n : Nat
  err : Option BlockError
  fault : Bool

namespace SparseOverlay

def readAt (chunk : Nat) {b : Base} (d : SparseOverlay) (off : Int) (length : Nat) (io : SparseIO b) :
    SparseAnswer × SparseOverlay :=
  match d.failure with
  | some err => (⟨[], 0, some err, false⟩, d)
  | none =>
    match validateRange b.data.length off length with
    | .error err => (⟨[], 0, some err, false⟩, d)
    | .ok () =>
      match d.readLoop chunk io off.toNat length length [] with
      | (p, some err) => (⟨p, p.length, some err, true⟩, d.fail err)
      | (p, none) => (⟨p, p.length, none, false⟩, d)

def writeAt (chunk : Nat) {b : Base} (d : SparseOverlay) (off : Int) (p : List UInt8)
    (io : SparseIO b) : SparseAnswer × SparseOverlay :=
  match d.failure with
  | some err => (⟨[], 0, some err, false⟩, d)
  | none =>
    match validateRange b.data.length off p.length with
    | .error err => (⟨[], 0, some err, false⟩, d)
    | .ok () =>
      match writeLoop chunk io off.toNat p p.length 0 d with
      | (done, some err, d) => (⟨[], done, some err, true⟩, d)
      | (done, none, d) => (⟨[], done, none, false⟩, d)

def step (chunk : Nat) {b : Base} (d : SparseOverlay) : SparseCall b → SparseAnswer × SparseOverlay
  | .readAt off length io => d.readAt chunk off length io
  | .writeAt off p io => d.writeAt chunk off p io

/-- The answers of a sequence of calls. -/
def run (chunk : Nat) {b : Base} (d : SparseOverlay) :
    List (SparseCall b) → List SparseAnswer × SparseOverlay
  | [] => ([], d)
  | call :: calls =>
    let (answer, d) := d.step chunk call
    let (answers, d) := d.run chunk calls
    (answer :: answers, d)

end SparseOverlay

def newSparseOverlay (store : Store) : SparseOverlay := ⟨[], store, none⟩

end Trex.Block
