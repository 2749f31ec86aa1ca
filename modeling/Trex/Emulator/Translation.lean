import Trex.Emulator.MemoryRefine

/-!
# Address translation of the ARM64 processor (`emulator/arm64/mmu.go`, `translation_cache.go`)

`walk` goes through the tables and subscribes to the pages it reads; `cachedTranslate` keeps 256 results
for one version of one address space.  Of the processor there is what the walk reads, with the writes to
it.  An instruction is a program over its memory, translations and system registers.
-/

namespace Trex.Emulator.Arm64

/-! ## The walk -/

/-- What the walk reads of the processor: `system[0..4]` and `currentEL`. -/
structure Control where
  sctlr : UInt64
  ttbr0 : UInt64
  ttbr1 : UInt64
  tcr : UInt64
  mair : UInt64
  currentEL : UInt64
deriving DecidableEq, Repr

/-- Why a translation fails. -/
inductive Fault where
  | notImplemented
  | granule
  | addressSize (size : Nat)
  | translation (address status : UInt64)
  | tableRead (e : MemoryError)
deriving DecidableEq, Repr

/-- The `n` low bits. -/
def mask (n : Nat) : UInt64 := if n = 64 then 0xffffffffffffffff else (1 <<< UInt64.ofNat n) - 1

/-- Bit 55 chooses the half of the address space. -/
def upper (address : UInt64) : Bool := address >>> 55 &&& 1 != 0

/-- The address without its tag, where the tag is ignored. -/
def virtualAddress (r : Control) (address : UInt64) : UInt64 :=
  if upper address then
    if r.tcr >>> 38 &&& 1 != 0 then address ||| 0xff00000000000000 else address
  else if r.tcr >>> 37 &&& 1 != 0 then address &&& 0x00ffffffffffffff
  else address

/-- Where a translation starts: no tables, or the first table. -/
inductive Start where
  | direct (physical attributes : UInt64)
  | tables (va : UInt64) (level : Nat) (table : UInt64)
deriving DecidableEq, Repr

/-- What `TCR` and `TTBR` say about one half of the addresses. -/
structure Half where
  size : Nat
  ttbr : UInt64
  disabled : Bool
  granule : UInt64
  expected : UInt64

/-- What the control register says about a half. -/
def half (r : Control) (upper : Bool) : Half :=
  if upper then
    let size := (r.tcr >>> 16 &&& 63).toNat
    { size := size
      ttbr := r.ttbr1
      disabled := r.tcr >>> 23 &&& 1 != 0
      granule := if r.tcr >>> 30 &&& 3 = 2 then 0 else 3
      expected := mask size }
  else
    { size := (r.tcr &&& 63).toNat
      ttbr := r.ttbr0
      disabled := r.tcr >>> 7 &&& 1 != 0
      granule := r.tcr >>> 14 &&& 3
      expected := 0 }

/-- The checks in front of the walk. -/
def start (r : Control) (address : UInt64) : Except Fault Start :=
  if r.sctlr &&& 1 = 0 then .ok (.direct address 0xff00000000000800)
  else if r.currentEL > 4 then .error .notImplemented
  else
    let va := virtualAddress r address
    let h := half r (upper address)
    if h.granule ≠ 0 then .error .granule
    else if h.size < 16 ∨ h.size > 39 then .error (.addressSize h.size)
    else
      let bits := 64 - h.size
      let high := va >>> UInt64.ofNat bits
      if high ≠ h.expected then .error (.translation address 0)
      else
        let level := 4 - (bits - 12 + 8) / 9
        if h.disabled then .error (.translation address (4 + UInt64.ofNat level))
        else .ok (.tables va level (h.ttbr &&& 0x0000fffffffff000))

/-- The table of the next level and what the levels above forbid. -/
structure Walk where
  table : UInt64
  readOnly : Bool := false
  userDenied : Bool := false
  pxn : Bool := false
  uxn : Bool := false
deriving DecidableEq, Repr

/-- The lowest bit of an address that a level looks at. -/
def levelShift (level : Nat) : Nat := 12 + 9 * (3 - level)

def descriptorAddress (va : UInt64) (level : Nat) (w : Walk) : UInt64 :=
  w.table + (va >>> UInt64.ofNat (levelShift level) &&& 511) * 8

/-- The permissions of a descriptor and of the tables above it forbid the access. -/
def denied (r : Control) (access : Access) (w : Walk) (d : UInt64) : Bool :=
  let ap := d >>> 6 &&& 3
  let user : Bool := r.currentEL == 0
  (access &&& Write != 0 && (w.readOnly || ap &&& 2 != 0))
    || (user && (w.userDenied || ap &&& 1 == 0))
    || (access &&& Execute != 0
      && ((!user && (w.pxn || d >>> 53 &&& 1 != 0)) || (user && (w.uxn || d >>> 54 &&& 1 != 0))))

/-- One turn of the loop of `walk` after the read: the next table, or the result. -/
def descend (r : Control) (address va : UInt64) (access : Access) (level : Nat) (w : Walk) (d : UInt64) :
    Except Fault (Walk ⊕ (UInt64 × UInt64)) :=
  let kind := d &&& 3
  if kind = 0 ∨ kind = 2 ∨ (level = 0 ∧ kind = 1) ∨ (level = 3 ∧ kind ≠ 3) then
    .error (.translation address (4 + UInt64.ofNat level))
  else if kind = 3 ∧ level < 3 then
    .ok (.inl {
      table := d &&& 0x0000fffffffff000
      readOnly := w.readOnly || d >>> 62 &&& 1 != 0
      userDenied := w.userDenied || d >>> 61 &&& 1 != 0
      pxn := w.pxn || d >>> 59 &&& 1 != 0
      uxn := w.uxn || d >>> 60 &&& 1 != 0 })
  else if d >>> 10 &&& 1 = 0 then .error (.translation address (8 + UInt64.ofNat level))
  else if denied r access w d then .error (.translation address (12 + UInt64.ofNat level))
  else
    let low := mask (levelShift level)
    let physical := ((d &&& 0x0000fffffffff000) &&& ~~~low) ||| (va &&& low)
    let kept := r.mair >>> ((d >>> 2 &&& 7) * 8) &&& 255
    .ok (.inr (physical, kept <<< 56 ||| (1 : UInt64) <<< 11 ||| (d >>> 8 &&& 3) <<< 7 ||| (1 : UInt64) <<< 9))

/-- Reads eight bytes of a table. -/
def readDescriptor (m : AddressSpace) (address : UInt64) : Except MemoryError UInt64 × AddressSpace :=
  let (result, m) := m.readMemory address.toNat 8 Read
  (result.map fun b => UInt64.ofNat (LittleEndian.get b), m)

/-- The walk, level by level; with `track` each table is watched for writes. -/
def walkLoop (r : Control) (track : Bool) (address va : UInt64) (access : Access) :
    Nat → Nat → Walk → AddressSpace → Except Fault (UInt64 × UInt64) × AddressSpace
  | 0, _, _, m => (.error (.translation address 7), m)
  | turns + 1, level, w, m =>
    let location := descriptorAddress va level w
    let m := if track then m.trackPageWrites location.toNat else m
    match readDescriptor m location with
    | (.error e, m) => (.error (.tableRead e), m)
    | (.ok d, m) =>
      match descend r address va access level w d with
      | .error f => (.error f, m)
      | .ok (.inr result) => (.ok result, m)
      | .ok (.inl w) => walkLoop r track address va access turns (level + 1) w m

/-! ## The processor and its cache -/

/-- A slot of the cache. -/
structure TranslationEntry where
  virtual : UInt64
  physical : UInt64
  attributes : UInt64
  access : Access
deriving DecidableEq, Repr

/-- `memory` is the place of the address space, or none for `nil`; an entry that is not valid is
none. -/
structure TranslationCache where
  memory : Option Nat := none
  version : UInt64 := 0
  entries : Nat → Option TranslationEntry := fun _ => none

/-- A processor, as far as translations look at it. -/
structure Cpu where
  system : Nat → UInt64 := fun _ => 0
  currentEL : UInt64 := 0
  disableTranslationCache : Bool := false
  translations : TranslationCache := {}

namespace Cpu

/-- The control registers. -/
def control (c : Cpu) : Control :=
  { sctlr := c.system 0, ttbr0 := c.system 1, ttbr1 := c.system 2, tcr := c.system 3, mair := c.system 4
    currentEL := c.currentEL }

def clearTranslationCache (c : Cpu) : Cpu := { c with translations := {} }

/-- A translation without the cache. -/
def walk (c : Cpu) (m : AddressSpace) (address : UInt64) (access : Access) :
    Except Fault (UInt64 × UInt64) × AddressSpace :=
  match start c.control address with
  | .error f => (.error f, m)
  | .ok (.direct physical attributes) => (.ok (physical, attributes), m)
  | .ok (.tables va level table) =>
    walkLoop c.control (!c.disableTranslationCache) address va access (4 - level) level { table := table } m

/-- `TrackedWriteVersion`: the counter of the code has 64 bits. -/
def trackedWriteVersion (m : AddressSpace) : UInt64 := UInt64.ofNat m.trackedVersion

/-- The slot of a page and an access. -/
def entryIndex (page : UInt64) (access : Access) : Nat := ((page ^^^ access.toUInt64 * 61) &&& 255).toNat

/-- The cache for an address space: what it holds for another one, or for another version, is
dropped. -/
def cacheFor (t : TranslationCache) (ram : Nat) (version : UInt64) : TranslationCache :=
  if t.memory ≠ some ram ∨ t.version ≠ version then { memory := some ram, version := version } else t

/-- A translation through the cache. -/
def cachedTranslate (c : Cpu) (ram : Nat) (m : AddressSpace) (address : UInt64) (access : Access) :
    Except Fault (UInt64 × UInt64) × Cpu × AddressSpace :=
  let t := cacheFor c.translations ram (trackedWriteVersion m)
  let c := { c with translations := t }
  let page := address >>> 12
  let hit := (t.entries (entryIndex page access)).filter fun e => e.virtual = page ∧ e.access = access
  match hit with
  | some e => (.ok (e.physical ||| (address &&& 4095), e.attributes), c, m)
  | none =>
    match c.walk m address access with
    | (.ok (pa, attributes), m) =>
      let e : TranslationEntry :=
        { virtual := page, physical := pa &&& ~~~4095, attributes := attributes, access := access }
      (.ok (pa, attributes), { c with
        translations := { t with entries := Function.update t.entries (entryIndex page access) (some e) } }, m)
    | (.error f, m) => (.error f, c, m)

/-- `translate` of the source, with the cache where it is on. -/
def translate (c : Cpu) (ram : Nat) (m : AddressSpace) (address : UInt64) (access : Access) :
    Except Fault (UInt64 × UInt64) × Cpu × AddressSpace :=
  if c.system 0 &&& 1 ≠ 0 ∧ !c.disableTranslationCache then c.cachedTranslate ram m address access
  else
    let (result, m) := c.walk m address access
    (result, c, m)

/-! ## Writes of registers -/

/-- The system registers and their encodings. -/
def systemRegisters : List (String × Nat) :=
  [("sctlr_el1", 0xc080), ("ttbr0_el1", 0xc100), ("ttbr1_el1", 0xc101),
    ("tcr_el1", 0xc102), ("mair_el1", 0xc510), ("vbar_el1", 0xc600),
    ("cpacr_el1", 0xc082), ("tpidr_el0", 0xde82), ("tpidrro_el0", 0xde83), ("tpidr_el1", 0xc684),
    ("par_el1", 0xc3a0),
    ("id_aa64isar0_el1", 0xc030), ("id_aa64isar1_el1", 0xc031), ("id_aa64isar2_el1", 0xc032),
    ("id_aa64pfr0_el1", 0xc020), ("id_aa64pfr1_el1", 0xc021), ("id_aa64dfr0_el1", 0xc028),
    ("id_aa64mmfr0_el1", 0xc038), ("midr_el1", 0xc000), ("mpidr_el1", 0xc005),
    ("ctr_el0", 0xd801), ("dczid_el0", 0xd807),
    ("id_aa64mmfr1_el1", 0xc039), ("id_aa64mmfr2_el1", 0xc03a)]

/-- The assignment to `system[j]` in `SetRegister` and in `systemInstruction`. -/
def setSystem (c : Cpu) (j : Nat) (v : UInt64) : Cpu :=
  let c := { c with system := Function.update c.system j v }
  if j ≤ 4 then c.clearTranslationCache else c

/-- `SetRegister`; the registers that are neither system registers nor `current_el` are not in the
model. -/
def setRegister (c : Cpu) (name : String) (v : UInt64) : Cpu :=
  let name := name.toLower
  match systemRegisters.findIdx? fun r => r.1 = name with
  | some j => c.setSystem j v
  | none =>
    if name = "current_el" then
      if v ≠ 0 ∧ v ≠ 4 ∧ v ≠ 8 ∧ v ≠ 12 then c
      else { c with currentEL := v }.clearTranslationCache
    else c

/-- Registers that a program cannot write. -/
def readOnlyRegister (name : String) : Bool :=
  "id_".isPrefixOf name || name = "midr_el1" || name = "mpidr_el1" || name = "ctr_el0" || name = "dczid_el0"

/-- The write of `systemInstruction` to a register of the table; a refused one changes nothing. -/
def systemWrite (c : Cpu) (encoding : Nat) (v : UInt64) : Cpu :=
  match systemRegisters.findIdx? fun r => r.2 = encoding with
  | none => c
  | some j =>
    let name := ((systemRegisters[j]?).map Prod.fst).getD ""
    if c.currentEL = 0 ∧ name ∉ ["tpidr_el0", "tpidrro_el0", "ctr_el0", "dczid_el0"] then c
    else if readOnlyRegister name then c
    else c.setSystem j v

def setPar (c : Cpu) (v : UInt64) : Cpu := { c with system := Function.update c.system 10 v }

/-- A new processor with its identification registers. -/
def new : Cpu :=
  let c : Cpu := {}
  let c := c.setRegister "id_aa64pfr0_el1" 0x11
  let c := c.setRegister "id_aa64dfr0_el1" 0x106
  let c := c.setRegister "id_aa64mmfr0_el1" 0x0f000005
  let c := c.setRegister "midr_el1" 0x000f0000
  let c := c.setRegister "ctr_el0" 0x8444c004
  c.setRegister "dczid_el0" 0x10

def clone (c : Cpu) : Cpu := c.clearTranslationCache

end Cpu

/-! ## The machine -/

/-- The address spaces and the processors over them. -/
structure Machine where
  spaces : List AddressSpace := []
  cpus : List Cpu := []

/-- What a processor does with an address space. -/
inductive CpuOp where
  | translate (address : UInt64) (access : Access)
  | call (c : Call)
  | systemWrite (encoding : Nat) (v : UInt64)
  | setPar (v : UInt64)
  | tlbi
deriving DecidableEq, Repr

/-- What a client does. -/
inductive Operation where
  | create (limit : UInt64)
  | cloneSpace (i : Nat)
  | call (i : Nat) (c : Call)
  | newCpu
  | cloneCpu (k : Nat)
  | setRegister (k : Nat) (name : String) (v : UInt64)
  | setDisableTranslationCache (k : Nat) (b : Bool)
  | cpu (k i : Nat) (op : CpuOp)
deriving DecidableEq, Repr

inductive Reply where
  | done
  | answer (a : Answer)
  | translated (result : Except Fault (UInt64 × UInt64))

namespace Machine

def callSpace (s : Machine) (i : Nat) (c : Call) : Reply × Machine :=
  match s.spaces[i]? with
  | none => (.done, s)
  | some m => (.answer (m.exec c).1, { s with spaces := s.spaces.set i (m.exec c).2 })

def modifyCpu (s : Machine) (k : Nat) (f : Cpu → Cpu) : Machine := { s with cpus := s.cpus.modify k f }

/-- One operation of a processor. -/
def performCpu (s : Machine) (k i : Nat) : CpuOp → Reply × Machine
  | .translate address access =>
    match s.cpus[k]?, s.spaces[i]? with
    | some c, some m =>
      let (result, c, m) := c.translate i m address access
      (.translated result, { spaces := s.spaces.set i m, cpus := s.cpus.set k c })
    | _, _ => (.done, s)
  | .call c => s.callSpace i c
  | .systemWrite encoding v => (.done, s.modifyCpu k fun c => c.systemWrite encoding v)
  | .setPar v => (.done, s.modifyCpu k fun c => c.setPar v)
  | .tlbi => (.done, s.modifyCpu k Cpu.clearTranslationCache)

/-- One operation. -/
def perform (s : Machine) : Operation → Reply × Machine
  | .create limit => (.done, { s with spaces := s.spaces ++ [{ limit := limit.toNat }] })
  | .cloneSpace i =>
    match s.spaces[i]? with
    | none => (.done, s)
    | some m => (.done, { s with spaces := s.spaces ++ [m.clone] })
  | .call i c => s.callSpace i c
  | .newCpu => (.done, { s with cpus := s.cpus ++ [Cpu.new] })
  | .cloneCpu k =>
    match s.cpus[k]? with
    | none => (.done, s)
    | some c => (.done, { s with cpus := s.cpus ++ [c.clone] })
  | .setRegister k name v => (.done, s.modifyCpu k fun c => c.setRegister name v)
  | .setDisableTranslationCache k b => (.done, s.modifyCpu k fun c => { c with disableTranslationCache := b })
  | .cpu k i op => s.performCpu k i op

end Machine

/-- What an instruction does, as far as its memory and the translation go. -/
inductive Program where
  | done
  | perform (op : CpuOp) (next : Reply → Program)

/-- An operation, or a step of a processor that makes several. -/
inductive Action where
  | operation (o : Operation)
  | step (k i : Nat) (p : Program)

namespace Machine

/-- A step of processor `k` on address space `i`, and how many operations it made. -/
def runProgram (k i : Nat) : Program → Machine → Machine × Nat
  | .done, s => (s, 0)
  | .perform op next, s =>
    let (reply, s) := s.performCpu k i op
    let (s, n) := runProgram k i (next reply) s
    (s, n + 1)

/-- An action and the number of operations in it. -/
def act (s : Machine) : Action → Machine × Nat
  | .operation o => ((s.perform o).2, 1)
  | .step k i p => runProgram k i p s

/-- A sequence of actions and the number of operations in it. -/
def run (s : Machine) : List Action → Machine × Nat
  | [] => (s, 0)
  | action :: actions =>
    let (s, n) := s.act action
    let (s, n') := run s actions
    (s, n + n')

end Machine

end Trex.Emulator.Arm64
