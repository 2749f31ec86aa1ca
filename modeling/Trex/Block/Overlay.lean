import Mathlib.Data.List.AList
import Trex.Lib.Heap
import Trex.Block.Device

/-!
# The copy-on-write overlay device (`block/star/overlay.go`)

`OverlayBlockDevice` keeps the chunks that differ from an immutable base.  Their buffers are shared with
snapshots, so they live in a heap.  `Sys` is a device with its heap and its snapshots, `Flat` what it is
for: one flat disk and those the snapshots remember.
-/

namespace Trex.Block

open Slice

/-! ## The device -/

/-- A stored chunk: the address of its buffer and the generation that made it. -/
structure OverlayChunk where
  data : Nat
  generation : UInt64
  deriving DecidableEq

/-- A staged chunk: `none` means that the overlay drops the chunk. -/
structure Update where
  chunk : Option OverlayChunk
  cloned : Bool

inductive OperationKind where
  | read | write | zero
  deriving DecidableEq, Repr

/-- An entry of the trace. -/
structure BlockOverlayOperation where
  sequence : UInt64
  kind : OperationKind
  offset : Int
  length : Int
  deriving DecidableEq

/-- A writable device over a base: chunks that differ, and counters. -/
structure OverlayBlockDevice (b : Base) where
  maxDirty : Int
  chunkSize : Nat
  chunks : AList fun _ : Nat => OverlayChunk
  dirtyBytes : Int
  generation : UInt64
  committed : Bool
  leases : Int
  reads : UInt64
  writes : UInt64
  readBytes : UInt64
  writeBytes : UInt64
  snapshots : UInt64
  cowBytes : UInt64
  traceLimit : Nat
  traceNext : UInt64
  trace : List BlockOverlayOperation

/-- `newOverlayBlockDevice`, with the trace limit its Starlark builtin sets. -/
def newOverlayBlockDevice (b : Base) (maxDirty chunkSize : Int) (traceLimit : Nat) :
    Except BlockError (OverlayBlockDevice b) :=
  if maxDirty ≤ 0 ∨ chunkSize ≤ 0 then .error .overlaySizes
  else if chunkSize > maxDirty then .error .overlayChunkLimit
  else if chunkSize % b.logicalBlockSize ≠ 0 then .error .overlayChunkAlign
  else .ok
    { maxDirty, chunkSize := chunkSize.toNat, chunks := ∅, dirtyBytes := 0, generation := 1,
      committed := false, leases := 0, reads := 0, writes := 0, readBytes := 0, writeBytes := 0,
      snapshots := 0, cowBytes := 0, traceLimit, traceNext := 0, trace := [] }

/-- The bytes behind an address. -/
def buffer (m : Heap (List UInt8)) (a : Nat) : List UInt8 := (m.read a).getD []

/-- The part of a read inside one chunk: from the chunk's buffer when there is
one, else from the base. -/
def fetch {b : Base} (m : Heap (List UInt8)) (rd : BaseRead b) (chunk : Option Nat)
    (absolute within count : Nat) : List UInt8 × Option BlockError :=
  match chunk with
  | some a => (slice (buffer m a) within count, none)
  | none => readFullAt rd.readAt absolute count

namespace OverlayBlockDevice

variable {b : Base}

/-- The length of a chunk; the last one may be short. -/
def chunkLength (d : OverlayBlockDevice b) (index : Nat) : Nat :=
  min d.chunkSize (b.data.length - index * d.chunkSize)

/-- The buffer of a chunk, if the overlay has one. -/
def look (d : OverlayBlockDevice b) (index : Nat) : Option Nat :=
  (d.chunks.lookup index).map (·.data)

/-- Appends to the trace, which keeps the last `traceLimit` operations. -/
def recordOperation (d : OverlayBlockDevice b) (kind : OperationKind) (offset length : Int) :
    OverlayBlockDevice b :=
  if d.traceLimit = 0 then d
  else
    let operation := ⟨d.traceNext + 1, kind, offset, length⟩
    { d with
      traceNext := d.traceNext + 1
      trace := if d.trace.length < d.traceLimit then d.trace ++ [operation]
        else d.trace.tail ++ [operation] }

/-- The read loop: one chunk a turn, from the overlay or from the base. -/
def readLoop (m : Heap (List UInt8)) (d : OverlayBlockDevice b) (rd : BaseRead b) :
    Nat → Nat → Nat → List UInt8 × Option BlockError
  | _, _, 0 => ([], none)
  | 0, _, _ + 1 => ([], some .unexpectedEOF)
  | turns + 1, absolute, n + 1 =>
      let index := absolute / d.chunkSize
      let within := absolute % d.chunkSize
      let count := min (n + 1) (d.chunkLength index - within)
      if count = 0 then ([], some .unexpectedEOF)
      else
        match fetch m rd (d.look index) absolute within count with
        | (_, some e) => ([], some e)
        | (got, none) =>
          let rest := readLoop m d rd turns (absolute + count) (n + 1 - count)
          (got ++ rest.1, rest.2)

/-- A read, chunk by chunk from the overlay or from the base. -/
def readAt (m : Heap (List UInt8)) (d : OverlayBlockDevice b) (rd : BaseRead b)
    (off : Int) (n : Nat) : OverlayBlockDevice b × List UInt8 × Option BlockError :=
  match validateRange b.data.length off n with
  | .error e => (d, [], some e)
  | .ok () =>
    if n = 0 then (d, [], none)
    else
      match readLoop m d rd n off.toNat n with
      | (p, some e) => (d, p, some e)
      | (p, none) =>
        ({ d with reads := d.reads + 1, readBytes := d.readBytes + p.length.toUInt64
          }.recordOperation .read off p.length, p, none)

/-- What an update puts into a chunk: zeros, or the caller's data from where the chunk begins. -/
def patchOf (off length : Nat) (data : List UInt8) (zero : Bool) (chunkStart chunkLength : Nat) :
    List UInt8 :=
  let start := max off chunkStart
  let count := min (off + length) (chunkStart + chunkLength) - start
  if zero then List.replicate count 0 else slice data (start - off) count

/-- One turn of `updateLocked`'s staging loop.  The candidate is a fresh buffer; the stored one, which a
snapshot may share, is only read. -/
def stageChunk (m : Heap (List UInt8)) (d : OverlayBlockDevice b) (rd : BaseRead b)
    (off length : Nat) (data : List UInt8) (zero : Bool) (dirtyBytes : Int) (index : Nat) :
    Heap (List UInt8) × Except BlockError (Update × Int) :=
  let chunkStart := index * d.chunkSize
  let chunkLength := d.chunkLength index
  let start := max off chunkStart
  let finish := min (off + length) (chunkStart + chunkLength)
  let within := start - chunkStart
  let count := finish - start
  let patch := patchOf off length data zero chunkStart chunkLength
  let candidate := m.size
  let m := m.alloc (List.replicate chunkLength 0)
  match d.chunks.lookup index with
  | none =>
    match readFullAt rd.readAt chunkStart chunkLength with
    | (_, some e) => (m, .error e)
    | (base, none) =>
      let m := m.modify candidate (overwrite · 0 base)
      let m := m.modify candidate (overwrite · within patch)
      if buffer m candidate = base then (m, .ok (⟨none, false⟩, dirtyBytes))
      else (m, .ok (⟨some ⟨candidate, d.generation⟩, false⟩, dirtyBytes + chunkLength))
  | some current =>
    let m := m.modify candidate (overwrite · 0 (buffer m current.data))
    let m := m.modify candidate (overwrite · within patch)
    let keep := ⟨some ⟨candidate, d.generation⟩, current.generation != d.generation⟩
    -- only a chunk rewritten as a whole is compared with the base again
    if count = chunkLength then
      match readFullAt rd.readAt chunkStart chunkLength with
      | (_, some e) => (m, .error e)
      | (base, none) =>
        if buffer m candidate = base then (m, .ok (⟨none, false⟩, dirtyBytes - chunkLength))
        else (m, .ok (keep, dirtyBytes))
    else (m, .ok (keep, dirtyBytes))

/-- Stages the chunks one after the other, and counts the bytes that they will take. -/
def stage (d : OverlayBlockDevice b) (rd : BaseRead b) (off length : Nat) (data : List UInt8)
    (zero : Bool) : List Nat → Heap (List UInt8) → Int →
      Heap (List UInt8) × Except BlockError (List (Nat × Update) × Int)
  | [], m, dirtyBytes => (m, .ok ([], dirtyBytes))
  | index :: rest, m, dirtyBytes =>
    match stageChunk m d rd off length data zero dirtyBytes index with
    | (m, .error e) => (m, .error e)
    | (m, .ok (u, dirtyBytes)) =>
      match stage d rd off length data zero rest m dirtyBytes with
      | (m, .error e) => (m, .error e)
      | (m, .ok (us, dirtyBytes)) => (m, .ok ((index, u) :: us, dirtyBytes))

/-- Puts a staged chunk in its place. -/
def applyUpdate (m : Heap (List UInt8)) (d : OverlayBlockDevice b) (u : Nat × Update) :
    OverlayBlockDevice b :=
  match u.2.chunk with
  | none => { d with chunks := d.chunks.erase u.1 }
  | some chunk =>
    { d with
      chunks := d.chunks.insert u.1 chunk
      cowBytes := if u.2.cloned then d.cowBytes + (buffer m chunk.data).length.toUInt64
        else d.cowBytes }

/-- The chunks that a range meets. -/
def touched (d : OverlayBlockDevice b) (off length : Nat) : List Nat :=
  List.range' (off / d.chunkSize) ((off + length - 1) / d.chunkSize + 1 - off / d.chunkSize)

/-- Stages a complete range before committing it.  Chunks equal to the base are
omitted. -/
def updateLocked (m : Heap (List UInt8)) (d : OverlayBlockDevice b) (rd : BaseRead b)
    (off length : Nat) (data : List UInt8) (zero : Bool) :
    Heap (List UInt8) × Except BlockError (OverlayBlockDevice b) :=
  match stage d rd off length data zero (d.touched off length) m d.dirtyBytes with
  | (m, .error e) => (m, .error e)
  | (m, .ok (updates, dirtyBytes)) =>
    if dirtyBytes > d.maxDirty then
      (m, .error (.capacity d.maxDirty d.dirtyBytes (dirtyBytes - d.dirtyBytes)))
    else (m, .ok { updates.foldl (applyUpdate m) d with dirtyBytes })

def writeAt (m : Heap (List UInt8)) (d : OverlayBlockDevice b) (rd : BaseRead b)
    (p : List UInt8) (off : Int) : Heap (List UInt8) × OverlayBlockDevice b × Option BlockError :=
  match validateRange b.data.length off p.length with
  | .error e => (m, d, some e)
  | .ok () =>
    if p.length = 0 then (m, d, none)
    else if d.committed then (m, d, some .readOnly)
    else
      match updateLocked m d rd off.toNat p.length p false with
      | (m, .error e) => (m, d, some e)
      | (m, .ok d) =>
        (m, { d with writes := d.writes + 1, writeBytes := d.writeBytes + p.length.toUInt64
          }.recordOperation .write off p.length, none)

def zeroAt (m : Heap (List UInt8)) (d : OverlayBlockDevice b) (rd : BaseRead b)
    (off length : Int) : Heap (List UInt8) × OverlayBlockDevice b × Option BlockError :=
  match validateRange b.data.length off length with
  | .error e => (m, d, some e)
  | .ok () =>
    if length = 0 then (m, d, none)
    else if d.committed then (m, d, some .readOnly)
    else
      match updateLocked m d rd off.toNat length.toNat [] true with
      | (m, .error e) => (m, d, some e)
      | (m, .ok d) =>
        (m, { d with writes := d.writes + 1, writeBytes := d.writeBytes + length.toNat.toUInt64
          }.recordOperation .zero off length, none)

/-- Takes a lease, unless the overlay is sealed. -/
def acquire (d : OverlayBlockDevice b) : OverlayBlockDevice b × Option BlockError :=
  if d.committed then (d, some .overlaySealed) else ({ d with leases := d.leases + 1 }, none)

/-- Seals the overlay when no lease is held. -/
def commit (d : OverlayBlockDevice b) : OverlayBlockDevice b × Option BlockError :=
  if d.leases ≠ 0 then (d, some (.activeLeases d.leases)) else ({ d with committed := true }, none)

end OverlayBlockDevice

/-! ## Snapshots -/

/-- The view a snapshot returns: the chunk buffers of the moment it was taken. -/
structure OverlaySnapshotBlockDevice (b : Base) where
  chunkSize : Nat
  chunks : AList fun _ : Nat => Nat

namespace OverlaySnapshotBlockDevice

variable {b : Base}

def readLoop (m : Heap (List UInt8)) (d : OverlaySnapshotBlockDevice b) (rd : BaseRead b) :
    Nat → Nat → Nat → List UInt8 × Option BlockError
  | _, _, 0 => ([], none)
  | 0, _, _ + 1 => ([], some .unexpectedEOF)
  | turns + 1, absolute, n + 1 =>
      let index := absolute / d.chunkSize
      let within := absolute % d.chunkSize
      let length := min d.chunkSize (b.data.length - index * d.chunkSize)
      let count := min (n + 1) (length - within)
      match fetch m rd (d.chunks.lookup index) absolute within count with
      | (_, some e) => ([], some e)
      | (got, none) =>
        let rest := readLoop m d rd turns (absolute + count) (n + 1 - count)
        (got ++ rest.1, rest.2)

def readAt (m : Heap (List UInt8)) (d : OverlaySnapshotBlockDevice b) (rd : BaseRead b)
    (off : Int) (n : Nat) : List UInt8 × Option BlockError :=
  match validateRange b.data.length off n with
  | .error e => ([], some e)
  | .ok () => readLoop m d rd n off.toNat n

end OverlaySnapshotBlockDevice

/-- `Snapshot`: the new map holds the very buffers of the device. -/
def OverlayBlockDevice.snapshot {b : Base} (d : OverlayBlockDevice b) :
    OverlayBlockDevice b × Except BlockError (OverlaySnapshotBlockDevice b) :=
  if d.committed then (d, .error .overlaySealed)
  else
    ({ d with generation := d.generation + 1, snapshots := d.snapshots + 1 },
      .ok ⟨d.chunkSize, d.chunks.entries.foldl (fun chunks e => chunks.insert e.1 e.2.data) ∅⟩)

/-! ## Runs -/

/-- One call, with what the base answers; `release k` ends the `k`-th lease, `readSnapshot k` reads the `k`-th
snapshot. -/
inductive Op (b : Base) where
  | readAt (off : Int) (n : Nat) (rd : BaseRead b)
  | writeAt (off : Int) (p : List UInt8) (rd : BaseRead b)
  | zeroAt (off length : Int) (rd : BaseRead b)
  | snapshot
  | commit
  | acquire
  | release (k : Nat)
  | readSnapshot (k : Nat) (off : Int) (n : Nat) (rd : BaseRead b)

/-- The device, its snapshots and its leases over one heap. -/
structure Sys (b : Base) where
  heap : Heap (List UInt8)
  dev : OverlayBlockDevice b
  snaps : List (OverlaySnapshotBlockDevice b)
  /-- one flag per lease ever acquired, cleared by its `sync.Once` -/
  held : List Bool

/-- What a call returns. -/
structure Result where
  data : List UInt8
  err : Option BlockError

variable {b : Base}

def Sys.init (d : OverlayBlockDevice b) : Sys b := ⟨Heap.empty, d, [], []⟩

/-- One call. -/
def Sys.step (s : Sys b) : Op b → Sys b × Result
  | .readAt off n rd =>
      let (dev, p, err) := s.dev.readAt s.heap rd off n
      ({ s with dev }, ⟨p, err⟩)
  | .writeAt off p rd =>
      let (heap, dev, err) := s.dev.writeAt s.heap rd p off
      ({ s with heap, dev }, ⟨[], err⟩)
  | .zeroAt off length rd =>
      let (heap, dev, err) := s.dev.zeroAt s.heap rd off length
      ({ s with heap, dev }, ⟨[], err⟩)
  | .snapshot =>
      match s.dev.snapshot with
      | (dev, .ok snap) => ({ s with dev, snaps := s.snaps ++ [snap] }, ⟨[], none⟩)
      | (dev, .error e) => ({ s with dev }, ⟨[], some e⟩)
  | .commit =>
      let (dev, err) := s.dev.commit
      ({ s with dev }, ⟨[], err⟩)
  | .acquire =>
      let (dev, err) := s.dev.acquire
      ({ s with dev, held := if err.isNone then s.held ++ [true] else s.held }, ⟨[], err⟩)
  | .release k =>
      if s.held[k]? = some true then
        ({ s with dev := { s.dev with leases := s.dev.leases - 1 }, held := s.held.set k false }, ⟨[], none⟩)
      else (s, ⟨[], none⟩)
  | .readSnapshot k off n rd =>
      match s.snaps[k]? with
      | none => (s, ⟨[], some .unsupported⟩)
      | some snap =>
        let (p, err) := snap.readAt s.heap rd off n
        (s, ⟨p, err⟩)

/-! ## What the device is for -/

/-- A flat disk, the contents its snapshots remember, and whether it is committed. -/
structure Flat where
  disk : List UInt8
  snaps : List (List UInt8)
  committed : Bool

/-- A call that failed changes nothing; a write or zeroing that succeeded
replaces the bytes of its range. -/
def Flat.step (a : Flat) : Op b → Option BlockError → Flat
  | .writeAt off p _, none => { a with disk := overwrite a.disk off.toNat p }
  | .zeroAt off length _, none => { a with disk := overwrite a.disk off.toNat (List.replicate length.toNat 0) }
  | .snapshot, none => { a with snaps := a.snaps ++ [a.disk] }
  | .commit, none => { a with committed := true }
  | _, _ => a

/-- The calls on the system and on the flat disk side by side. -/
def run : Sys b × Flat → List (Op b) → Sys b × Flat
  | c, [] => c
  | (s, a), op :: ops => run ((s.step op).1, a.step op (s.step op).2.err) ops

end Trex.Block
