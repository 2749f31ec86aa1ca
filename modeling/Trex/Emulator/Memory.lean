import Trex.Lib.Search
import Trex.Lib.Bytes

/-!
# The guest address space (`emulator/cpu/memory.go`)

Mappings are a sorted list of regions, permissions a list of records of which the last that covers an
address counts, and 64 cached spans, each inside one page and one region, answer most reads.  A span is
a slice of its region, so the model keeps its place only.  Addresses are numbers below `2 ^ 64`.
-/

namespace Trex.Emulator

/-- The permissions of a mapping, one bit each. -/
abbrev Access := UInt8

def Read : Access := 1
def Write : Access := 2
def Execute : Access := 4

/-- `access & ^(Read|Write|Execute) == 0` -/
def knownAccess (access : Access) : Bool := access &&& ~~~(Read ||| Write ||| Execute) = 0

/-- A mapping and its bytes. -/
structure Region where
  start : Nat
  data : Bytes
  access : Access
deriving DecidableEq, Repr

/-- An override of the permissions of a range; later ones win. -/
structure Protection where
  start : Nat
  size : Nat
  access : Access
deriving DecidableEq, Repr

/-- `permissionSpan`: `data` is the part of the region at `base` that begins at `start`. -/
structure Span where
  start : Nat
  length : Nat
  base : Nat
  access : Access
deriving DecidableEq, Repr

/-- The errors of an address space. -/
inductive MemoryError where
  | invalidMapping (address : Nat)
  | budget (limit : Nat)
  | overlapping (address : Nat)
  | rangeOverflows (address : Nat)
  | denied (access : Access) (address : Nat)
  | invalidAccess (access : Access)
  | invalidReadAccess (access : Access)
  | noMapping (address : Nat)
  | invalidProtection
deriving DecidableEq, Repr

/-- The mappings, their overrides, the cache of spans and the pages whose writes are counted. -/
structure AddressSpace where
  limit : Nat
  regions : List Region := []
  used : Nat := 0
  protections : List Protection := []
  readCache : Nat → Option Span := fun _ => none
  trackedPages : List Nat := []
  trackedFilter : Nat → Bool := fun _ => false
  trackedVersion : Nat := 0

/-- The range does not pass the end of the address space. -/
def validRange (address : Nat) (size : Int) : Bool := 0 ≤ size && (size = 0 || size - 1 ≤ 2 ^ 64 - 1 - (address : Int))

namespace AddressSpace

/-! ## Tracked pages -/

/-- The bit of a page in the filter. -/
def filterBit (page : Nat) : Nat := (page ^^^ (page / 2 ^ 12)) % 4096

/-- Starts to count the writes to the page of an address. -/
def trackPageWrites (m : AddressSpace) (address : Nat) : AddressSpace :=
  let page := address / 2 ^ 12
  { m with
    trackedPages := if page ∈ m.trackedPages then m.trackedPages else page :: m.trackedPages
    trackedFilter := Function.update m.trackedFilter (filterBit page) true }

/-- The filter first, then the list. -/
def isTracked (m : AddressSpace) (page : Nat) : Bool := m.trackedFilter (filterBit page) && page ∈ m.trackedPages

/-- A write to a tracked page moves the version. -/
def trackWrite (m : AddressSpace) (address size : Nat) : AddressSpace :=
  if size = 0 ∨ m.trackedPages = [] then m
  else
    let first := address / 2 ^ 12
    let last := (address + size - 1) / 2 ^ 12
    if (List.range (last + 1 - first)).any fun i => m.isTracked (first + i) then
      { m with trackedVersion := m.trackedVersion + 1 }
    else m

/-! ## Permissions and spans -/

/-- One override: the permissions at the address and how far they reach. -/
def accessStep (address : Nat) (s : Access × Nat) (p : Protection) : Access × Nat :=
  if p.start ≤ address ∧ address - p.start < p.size then (p.access, min s.2 (p.size - (address - p.start)))
  else if p.start > address ∧ p.start - address < s.2 then (s.1, p.start - address)
  else s

/-- The access at an address of a region, and for how many bytes it holds. -/
def accessAt (m : AddressSpace) (address : Nat) (r : Region) : Access × Nat :=
  m.protections.foldl (accessStep address) (r.access, r.data.length - (address - r.start))

/-- The slot of an address. -/
def cacheIndex (address : Nat) : Nat := address / 2 ^ 12 % 64

/-- The bytes of a cached span. -/
def spanBytes (m : AddressSpace) (e : Span) (offset size : Nat) : Bytes :=
  match m.regions.find? (fun r => r.start = e.base) with
  | some r => (r.data.drop (e.start - e.base + offset)).take size
  | none => []

/-- The bytes of a range, if the cache has them with the permission. -/
def cachedSpan (m : AddressSpace) (address size : Nat) (access : Access) : Option Bytes :=
  match m.readCache (cacheIndex address) with
  | none => none
  | some e =>
    if address < e.start ∨ e.access &&& access ≠ access then none
    else
      let offset := address - e.start
      if offset > e.length ∨ size > e.length - offset then none else some (m.spanBytes e offset size)

/-- Where the span around an address begins. -/
def spanStart (m : AddressSpace) (address : Nat) (r : Region) : Nat :=
  m.protections.foldl (fun start p =>
    if p.start ≤ address then
      if address - p.start ≥ p.size then max (max start p.start) (p.start + p.size) else max start p.start
    else start) (max r.start (address - address % 4096))

/-- Puts the span around an address in its slot. -/
def cacheSpan (m : AddressSpace) (address : Nat) (r : Region) : AddressSpace :=
  let start := m.spanStart address r
  let (access, available) := m.accessAt start r
  let available := min available (4096 - start % 4096)
  let entry : Span := { start := start, length := available, base := r.start, access := access }
  { m with readCache := Function.update m.readCache (cacheIndex address) (some entry) }

/-! ## Looking up -/

/-- `find`: the place of the region that holds an address. -/
def findIndex (m : AddressSpace) (address : Nat) : Option Nat :=
  let i := Search.search m.regions.length fun i => decide (((m.regions[i]?).map Region.start).getD 0 > address)
  if i = 0 then none
  else
    match m.regions[i - 1]? with
    | some r => if address - r.start ≥ r.data.length then none else some (i - 1)
    | none => none

/-- The mapping that holds an address. -/
def find (m : AddressSpace) (address : Nat) : Option Region := (m.findIndex address).bind fun i => m.regions[i]?

/-- Checks the permissions, span by span. -/
def checkLoop (m : AddressSpace) (access : Access) : Nat → Nat → Nat → Except MemoryError Unit
  | 0, _, _ => .ok ()
  | turns + 1, address, remaining =>
    if remaining = 0 then .ok ()
    else
      match m.find address with
      | none => .error (.denied access address)
      | some r =>
        let (permissions, available) := m.accessAt address r
        if permissions &&& access ≠ access then .error (.denied access address)
        else
          let n := min remaining available
          m.checkLoop access turns (address + n) (remaining - n)

/-- The check behind every access. -/
def check (m : AddressSpace) (address : Nat) (size : Int) (access : Access) : Except MemoryError Unit :=
  if !validRange address size then .error (.rangeOverflows address)
  else if (m.cachedSpan address size.toNat access).isSome then .ok ()
  else m.checkLoop access size.toNat address size.toNat

/-! ## Operations -/

/-- A new mapping, if it is valid, fits in the budget and meets no other. -/
def map (m : AddressSpace) (address : Nat) (data : Bytes) (access : Access) : Except MemoryError AddressSpace :=
  if data = [] ∨ !validRange address data.length ∨ access = 0 ∨ !knownAccess access then
    .error (.invalidMapping address)
  else if data.length > m.limit - m.used then .error (.budget m.limit)
  else
    let last := address + (data.length - 1)
    if m.regions.any fun r => address ≤ r.start + (r.data.length - 1) && r.start ≤ last then
      .error (.overlapping address)
    else .ok { m with
      regions := (m.regions ++ [Region.mk address data access]).mergeSort fun a b => decide (a.start ≤ b.start)
      used := m.used + data.length
      readCache := fun _ => none
      trackedVersion := m.trackedVersion + 1 }

/-- `CheckMemory`: the check for a caller. -/
def checkMemory (m : AddressSpace) (address : Nat) (size : Int) (access : Access) : Except MemoryError Unit :=
  if access = 0 ∨ !knownAccess access then .error (.invalidAccess access) else m.check address size access

/-- The loop of `ReadMemory`; `none` where it would follow a missing region. -/
def readLoop (m : AddressSpace) : Nat → Nat → Nat → Option Bytes
  | 0, _, _ => some []
  | turns + 1, address, remaining =>
    if remaining = 0 then some []
    else do
      let r ← m.find address
      let part := (r.data.drop (address - r.start)).take remaining
      let rest ← m.readLoop turns (address + part.length) (remaining - part.length)
      return part ++ rest

/-- A read past the cache. -/
def readSlow (m : AddressSpace) (address size : Nat) (access : Access) : Except MemoryError Bytes := do
  m.check address size access
  return (m.readLoop size address size).getD []

/-- `ReadMemory`: the bytes, or an error, and the state with the new cache. -/
def readMemory (m : AddressSpace) (address size : Nat) (access : Access) : Except MemoryError Bytes × AddressSpace :=
  if access ≠ Read ∧ access ≠ Execute then (.error (.invalidReadAccess access), m)
  else
    match m.cachedSpan address size access with
    | some source => (.ok source, m)
    | none =>
      match (if validRange address size then m.find address else none) with
      | some r =>
        let m := m.cacheSpan address r
        match m.cachedSpan address size access with
        | some source => (.ok source, m)
        | none => (m.readSlow address size access, m)
      | none => (m.readSlow address size access, m)

/-- `copy(r.data[address-r.start:], source)` in the region at place `i`. -/
def writeRegion (m : AddressSpace) (i address : Nat) (source : Bytes) : AddressSpace :=
  { m with regions := m.regions.modify i fun r =>
      { r with data := r.data.take (address - r.start) ++ source ++ r.data.drop (address - r.start + source.length) } }

/-- Writes, mapping by mapping. -/
def writeLoop (m : AddressSpace) : Nat → Nat → Bytes → Option AddressSpace
  | 0, _, _ => some m
  | turns + 1, address, source =>
    if source = [] then some m
    else do
      let i ← m.findIndex address
      let r ← m.regions[i]?
      let n := min source.length (r.data.length - (address - r.start))
      writeLoop (m.writeRegion i address (source.take n)) turns (address + n) (source.drop n)

/-- A write checks the whole range first. -/
def writeMemory (m : AddressSpace) (address : Nat) (source : Bytes) : Except MemoryError AddressSpace := do
  m.check address source.length Write
  return ((m.trackWrite address source.length).writeLoop source.length address source).getD m

/-- A copy of the memory, without cache and tracking. -/
def clone (m : AddressSpace) : AddressSpace :=
  { limit := m.limit, used := m.used, protections := m.protections, regions := m.regions }

/-- What `Unmap` of `[address, last]` leaves of a record. -/
def cutProtection (address last : Nat) (p : Protection) : List Protection :=
  let pLast := p.start + p.size - 1
  if pLast < address ∨ p.start > last then [p]
  else
    (if p.start < address then [⟨p.start, address - p.start, p.access⟩] else [])
      ++ (if pLast > last then [⟨last + 1, pLast - last, p.access⟩] else [])

/-- Takes a mapping away with the overrides inside it. -/
def unmap (m : AddressSpace) (address : Nat) : Except MemoryError AddressSpace :=
  match m.regions.findIdx? (fun r => r.start = address) with
  | some i =>
    let size := ((m.regions[i]?).map fun r => r.data.length).getD 0
    .ok { m with
      protections := m.protections.flatMap (cutProtection address (address + (size - 1)))
      used := m.used - size
      regions := m.regions.eraseIdx i
      readCache := fun _ => none
      trackedVersion := m.trackedVersion + 1 }
  | none => .error (.noMapping address)

/-- The loop of `Protect`: the permissions before it. -/
def previousLoop (m : AddressSpace) : Nat → Nat → Nat → List Protection
  | 0, _, _ => []
  | turns + 1, location, remaining =>
    if remaining = 0 then []
    else
      match m.find location with
      | none => []
      | some r =>
        let (permissions, available) := m.accessAt location r
        let n := min remaining available
        ⟨location, n, permissions⟩ :: m.previousLoop turns (location + n) (remaining - n)

/-- Overrides the permissions of a range and returns the previous ones. -/
def protect (m : AddressSpace) (address : Nat) (size : Int) (access : Access) :
    Except MemoryError (List Protection × AddressSpace) :=
  if size ≤ 0 ∨ !knownAccess access then .error .invalidProtection
  else do
    m.check address size 0
    return (m.previousLoop size.toNat address size.toNat, { m with
      protections := m.protections ++ [⟨address, size.toNat, access⟩]
      readCache := fun _ => none
      trackedVersion := m.trackedVersion + 1 })

end AddressSpace

end Trex.Emulator
