import Trex.Lib.Memory
import Trex.Lib.Bytes

/-!
# The block cache (`block/star/cache.go`)

Any number of threads read through one cache; an event is what one thread does between two points at
which others may run.  A waiting thread may hold an entry that has left the map, so entries have
identities.  The counters are left out.
-/

namespace Trex.Block.Cache

/-- An entry is known by its place in the heap. -/
abbrev Ref := Nat

/-- `newCachedBlockDevice` over a base whose bytes never change. -/
structure Config where
  base : Nat → UInt8
  size : Nat
  chunkSize : Nat
  maxBytes : Nat
  chunkSize_pos : 0 < chunkSize

/-- A cached chunk, or one that is being loaded. -/
structure Entry where
  index : Nat
  /-- the channel `ready` is there and open -/
  loading : Bool := true
  data : Bytes := []
  failed : Bool := false

/-- Why a read fails. -/
inductive ReadError where
  | outOfRange
  | base
  | unexpectedEOF

/-- A call of `ReadAt` and what it has copied so far. -/
structure Call where
  off : Nat
  len : Nat
  done : Bytes := []

/-- Where a reader is in `ReadAt`. -/
inductive Thread where
  | idle
  | lookup (c : Call)
  | load (c : Call) (entry : Ref)
  | loaded (c : Call) (entry : Ref)
  | wait (c : Call) (entry : Ref)
  | returned (c : Call) (err : Option ReadError)

/-- The cache and its readers; an entry that has left the table stays in the heap for those who wait for it. -/
structure State where
  entries : Nat → Option Ref := fun _ => none
  heap : List Entry := []
  /-- the most recently used first -/
  lru : List Ref := []
  bytes : Int := 0
  threads : Nat → Thread := fun _ => .idle

/-- One step of one reader. -/
inductive Event where
  | call (t off len : Nat)
  | lookup (t : Nat)
  /-- `ok` is the outcome of the base; on a failure the buffer may hold anything -/
  | read (t : Nat) (ok : Bool) (buffer : Bytes)
  | finish (t : Nat)
  | wake (t : Nat)

section

variable (cfg : Config)

/-- The chunk that a call needs next. -/
def chunkIndex (c : Call) : Nat := (c.off + c.done.length) / cfg.chunkSize

/-- The length of a chunk; the last one may be short. -/
def chunkLength (index : Nat) : Nat := min cfg.chunkSize (cfg.size - index * cfg.chunkSize)

/-- The bytes of a chunk in the base. -/
def chunkBytes (index : Nat) : Bytes :=
  Memory.window cfg.base (index * cfg.chunkSize) (chunkLength cfg index)

/-- The end of one turn of `ReadAt`, with the result of `chunk`. -/
def deliver (c : Call) (data : Bytes) (failed : Bool) : Thread :=
  if failed then .returned c (some .base)
  else
    let within := (c.off + c.done.length) % cfg.chunkSize
    if data.length ≤ within then .returned c (some .unexpectedEOF)
    else
      let count := min (c.len - c.done.length) (data.length - within)
      let c' := { c with done := c.done ++ (data.drop within).take count }
      if c'.done.length < c.len then .lookup c' else .returned c' none

def State.entry (s : State) (id : Ref) : Entry := s.heap.getD id { index := 0 }

def State.setThread (s : State) (t : Nat) (thread : Thread) : State :=
  { s with threads := Function.update s.threads t thread }

/-- `MoveToFront`, which leaves an element alone that is not in the list. -/
def moveToFront (lru : List Ref) (id : Ref) : List Ref := if id ∈ lru then id :: lru.erase id else lru

/-- `ReadAt` checks its range. -/
def call (s : State) (t off len : Nat) : State :=
  if off + len > cfg.size then s.setThread t (.returned ⟨off, len, []⟩ (some .outOfRange))
  else if len = 0 then s.setThread t (.returned ⟨off, len, []⟩ none)
  else s.setThread t (.lookup ⟨off, len, []⟩)

/-- The first critical section of `chunk`. -/
def lookup (s : State) (t : Nat) (c : Call) : State :=
  match s.entries (chunkIndex cfg c) with
  | some id =>
    if (s.entry id).loading then s.setThread t (.wait c id)
    else ({ s with lru := moveToFront s.lru id } : State).setThread t
      (deliver cfg c (s.entry id).data (s.entry id).failed)
  | none =>
    ({ s with
      entries := Function.update s.entries (chunkIndex cfg c) (some s.heap.length)
      heap := s.heap ++ [{ index := chunkIndex cfg c }] } : State).setThread t (.load c s.heap.length)

/-- The read of the base, outside the lock. -/
def read (s : State) (t : Nat) (c : Call) (id : Ref) (ok : Bool) (buffer : Bytes) : State :=
  let empty := decide (chunkLength cfg (s.entry id).index = 0)
  let data := if empty then [] else if ok then chunkBytes cfg (s.entry id).index else buffer
  ({ s with heap := s.heap.modify id fun e => { e with data := data, failed := empty || !ok } } :
    State).setThread t (.loaded c id)

/-- `evictLocked`; one turn for each element of the list. -/
def evictLocked : Nat → State → State
  | 0, s => s
  | turns + 1, s =>
    if s.bytes > cfg.maxBytes then
      match s.lru.getLast? with
      | none => s
      | some id => evictLocked turns { s with
          lru := s.lru.dropLast
          entries := Function.update s.entries (s.entry id).index none
          bytes := s.bytes - ((s.entry id).data.length : Int) }
    else s

/-- The second critical section of `chunk`. -/
def finish (s : State) (t : Nat) (c : Call) (id : Ref) : State :=
  let e := s.entry id
  let s := { s with heap := s.heap.modify id fun e => { e with loading := false } }
  let s := if e.failed then { s with entries := Function.update s.entries e.index none }
    else
      let s := { s with lru := id :: s.lru, bytes := s.bytes + (e.data.length : Int) }
      evictLocked cfg s.lru.length s
  s.setThread t (deliver cfg c e.data e.failed)

/-- The rest of the first critical section, behind another thread's read. -/
def wake (s : State) (t : Nat) (c : Call) (id : Ref) : State :=
  ({ s with lru := moveToFront s.lru id } : State).setThread t
    (deliver cfg c (s.entry id).data (s.entry id).failed)

/-- One event; `none` if the thread is not where the event starts. -/
def step (s : State) : Event → Option State
  | .call t off len =>
    match s.threads t with
    | .idle => some (call cfg s t off len)
    | .returned _ _ => some (call cfg s t off len)
    | _ => none
  | .lookup t =>
    match s.threads t with
    | .lookup c => some (lookup cfg s t c)
    | _ => none
  | .read t ok buffer =>
    match s.threads t with
    | .load c id => some (read cfg s t c id ok buffer)
    | _ => none
  | .finish t =>
    match s.threads t with
    | .loaded c id => some (finish cfg s t c id)
    | _ => none
  | .wake t =>
    match s.threads t with
    | .wait c id => if (s.entry id).loading then none else some (wake cfg s t c id)
    | _ => none

/-- The cache after a sequence of steps, if each of them is possible. -/
def run (s : State) : List Event → Option State
  | [] => some s
  | e :: es => (step cfg s e).bind fun s => run s es

end

end Trex.Block.Cache
