import Trex.Lib.Checked
import Trex.Lib.Bytes
import Mathlib.Logic.Function.Basic

/-!
# Scoped state (`with_register`, `with_state` in `debug/gdb_memory.go`)

A callback is a list of operations, scopes among them, with the stops of the target where they happen.
An error ends every call around it, so a run is partial.  The packets for registers mean the selected
thread, and those for memory the address space that the target then has: `place`, the cell of an
address, is a parameter and may look at the thread, the registers and the memory.  What was saved goes
back to the thread and to the address space of the end (`scope_restored_iff`).
-/

namespace Trex.Gdb.Scope

open List

/-- A register of the target description. -/
structure Register where
  name : String
  number : Nat
  bits : Nat
deriving DecidableEq, Repr

/-- A target: the registers of each thread as the hexadecimal text of the protocol, the cells of its
memory, and the thread that `Hg` selected. -/
structure Target where
  registers : String → Nat → Bytes
  memory : Nat → UInt8
  selected : String

/-- A stop reply. -/
structure Stop where
  thread : String
  resumable : Bool
deriving DecidableEq, Repr

/-- The session, as far as registers and memory look at it. -/
structure Session where
  registerMap : List Register
  memoryLimit : Nat
  running : Bool := false
  stops : List Stop := []
  target : Target

/-- What a callback does through the session. -/
inductive Operation where
  | writeRegister (name : String) (encoded : Bytes)
  | writeMemory (address : Nat) (data : Bytes)
  | selectThread (thread : String)
  /-- `packet` or any other operation that reaches the target, which it leaves as `after` -/
  | packet (after : Target)
  | resume
  /-- the target stops, and is `after` then -/
  | stop (after : Target) (event : Stop)
  | wait
  | withRegister (name : String) (encoded : Bytes) (body : List Operation)
  /-- `interrupted` is the target when it answers the interrupt of the clean-up -/
  | withState (registers : List String) (memory : List (Nat × Nat)) (body : List Operation) (interrupted : Target)

-- the cell behind an address, none where the target answers with an error
variable (place : Target → Nat → Option Nat)

/-! ## The packets -/

/-- `P` writes a register of the selected thread. -/
def Target.writeRegister (t : Target) (number : Nat) (value : Bytes) : Target :=
  { t with registers := fun thread n => if thread = t.selected ∧ n = number then value else t.registers thread n }

/-- The bytes from an address on, each out of its cell. -/
def Target.readMemory (t : Target) (address size : Nat) : Option Bytes :=
  (range' address size).mapM fun x => (place t x).map t.memory

/-- A write, byte by byte: a write to a page table counts for the next byte. -/
def Target.writeMemory (t : Target) (address : Nat) : Bytes → Option Target
  | [] => some t
  | byte :: rest => do
    let cell ← place t address
    Target.writeMemory { t with memory := Function.update t.memory cell byte } (address + 1) rest

def Target.selectThread (t : Target) (thread : String) : Target := { t with selected := thread }

/-- A command of a target that does not run. -/
def Session.command (s : Session) (f : Target → Option Target) : Option Session :=
  if s.running then none else (f s.target).map fun t => { s with target := t }

/-- A register that the target advertises (`registerMap`). -/
def Session.register (s : Session) (name : String) : Option Register := s.registerMap.find? (·.name = name)

/-- `p`, whose reply must have the width of the register. -/
def Session.readRegisterInternal (s : Session) (r : Register) : Option Bytes :=
  let reply := s.target.registers s.target.selected r.number
  if s.running ∨ reply.length ≠ r.bits / 4 then none else some reply

/-- `finishStop` and `selectStoppedThread`. -/
def Session.finishStop (s : Session) (stop : Stop) : Option Session :=
  if stop.resumable = false ∨ stop.thread = "" then some s
  else s.command fun t => some (t.selectThread stop.thread)

/-! ## Saving and restoring -/

/-- The registers of `with_state`, each name once. -/
def selectRegisters (s : Session) (names : List String) : Option (List Register) :=
  names.eraseDups.mapM s.register

/-- The checks of the ranges, with what is left of the limit after each. -/
def rangesOK (memoryLimit : Nat) : List (Nat × Nat) → Bool
  | [] => true
  | (address, size) :: rest => size ≤ memoryLimit && address + size ≤ 2 ^ 64 - 1 && rangesOK (memoryLimit - size) rest

/-- The values to be restored: what was read for each register, and the bytes of each range. -/
structure Saved where
  registers : List (Nat × Bytes)
  memory : List (Nat × Bytes)

/-- The values of the registers at entry. -/
def Session.saveRegisters (s : Session) (registers : List Register) : Option (List (Nat × Bytes)) :=
  registers.mapM fun r => (s.readRegisterInternal r).map fun value => (r.number, value)

/-- The bytes of the ranges at entry. -/
def Session.saveMemory (s : Session) (ranges : List (Nat × Nat)) : Option (List (Nat × Bytes)) :=
  ranges.mapM fun r => (s.target.readMemory place r.1 r.2).map fun data => (r.1, data)

/-- The restore: memory, then registers, each in reverse order. -/
def Target.restore (t : Target) (saved : Saved) : Option Target := do
  let t ← saved.memory.reverse.foldlM (fun t r => t.writeMemory place r.1 r.2) t
  some (saved.registers.reverse.foldl (fun t r => t.writeRegister r.1 r.2) t)

/-- What the clean-up of `with_state` does with a running target. -/
def Session.settle (s : Session) (interrupted : Target) : Session :=
  if s.running then { s with running := false, target := interrupted } else s

/-! ## Runs -/

mutual

/-- One operation of a callback. -/
def runOperation (s : Session) : Operation → Option Session
  | .writeRegister name encoded => do
    let r ← s.register name
    s.command fun t => some (t.writeRegister r.number encoded)
  | .writeMemory address data => s.command fun t => t.writeMemory place address data
  | .selectThread thread => s.command fun t => some (t.selectThread thread)
  | .packet after => s.command fun _ => some after
  | .resume => if s.running ∨ s.stops ≠ [] then none else some { s with running := true }
  | .stop after event =>
    if s.running then some { s with running := false, stops := s.stops ++ [event], target := after } else none
  | .wait =>
    match s.stops with
    | event :: rest => ({ s with stops := rest } : Session).finishStop event
    | [] => none
  | .withRegister name encoded body => do
    let r ← s.register name
    let old ← s.readRegisterInternal r
    let s ← s.command fun t => some (t.writeRegister r.number encoded)
    let s ← runOperations s body
    s.command fun t => t.restore place ⟨[(r.number, old)], []⟩
  | .withState names ranges body interrupted => do
    let registers ← selectRegisters s names
    if !rangesOK s.memoryLimit ranges || s.running then none
    else
      let saved ← s.saveRegisters registers
      let memory ← s.saveMemory place ranges
      let s ← runOperations s body
      (s.settle interrupted).command fun t => t.restore place ⟨saved, memory⟩

/-- The operations of a callback, one after the other. -/
def runOperations (s : Session) : List Operation → Option Session
  | [] => some s
  | operation :: rest => do
    let s ← runOperation s operation
    runOperations s rest

end

/-! ## What the restore does -/

/-- Values that belong to their numbers, written to the selected thread. -/
lemma registers_foldl (v : Nat → Bytes) (l : List (Nat × Bytes)) (hl : ∀ r ∈ l, r.2 = v r.1) (t : Target)
    (thr : String) (n : Nat) : (l.foldl (fun t r => t.writeRegister r.1 r.2) t).registers thr n =
      if thr = t.selected ∧ n ∈ l.map Prod.fst then v n else t.registers thr n := by
  induction l generalizing t with
  | nil => simp
  | cons r l ih =>
  rw [foldl_cons, ih (fun r' hr' => hl r' (mem_cons_of_mem _ hr'))]
  have hr := hl r mem_cons_self
  show (if thr = t.selected ∧ n ∈ l.map Prod.fst then v n
    else if thr = t.selected ∧ n = r.1 then r.2 else t.registers thr n) = _
  simp only [map_cons, mem_cons]
  by_cases hthread : thr = t.selected
  · subst hthread
    by_cases hn : n = r.1
    · simp [hn, hr]
    · by_cases hmem : n ∈ l.map Prod.fst
      · simp only [hmem, hn, and_self, or_true, if_true]
      · simp only [hmem, hn, and_false, or_self, if_false]
  · simp only [hthread, false_and, if_false]

/-- Writes to registers leave the memory alone. -/
lemma memory_foldl_registers (l : List (Nat × Bytes)) (t : Target) :
    (l.foldl (fun t r => t.writeRegister r.1 r.2) t).memory = t.memory := by
  induction l generalizing t with
  | nil => rfl
  | cons r l ih => exact ih _

/-- An address of one of the ranges. -/
def InRanges (ranges : List (Nat × Nat)) (x : Nat) : Prop := ∃ r ∈ ranges, r.1 ≤ x ∧ x < r.1 + r.2

/-- The addresses of the ranges have the cells that they had in `entry`, and writes to those cells do
not move them. -/
def SameSpace (entry t : Target) (ranges : List (Nat × Nat)) : Prop :=
  ∀ m : Nat → UInt8, (∀ c, (∀ x, InRanges ranges x → place entry x ≠ some c) → m c = t.memory c) →
    ∀ x, InRanges ranges x → place { t with memory := m } x = place entry x

/-- Part of a restore done: `u` differs from `t` in the cells of the ranges only. -/
structure Between (entry t : Target) (ranges : List (Nat × Nat)) (u : Target) : Prop where
  registers : u.registers = t.registers
  selected : u.selected = t.selected
  memory : ∀ c, (∀ x, InRanges ranges x → place entry x ≠ some c) → u.memory c = t.memory c

variable {place} {entry t u u' : Target} {ranges : List (Nat × Nat)}

lemma Between.place_eq (hb : Between place entry t ranges u) (hspace : SameSpace place entry t ranges) {x : Nat}
    (hx : InRanges ranges x) : place u x = place entry x := by
  have hu : u = { t with memory := u.memory } := by
    obtain ⟨registers, memory, selected⟩ := u
    have hregs := hb.registers
    have hsel := hb.selected
    simp only at hregs hsel
    rw [hregs, hsel]
  rw [hu]
  exact hspace u.memory hb.memory x hx

lemma readMemory_cons {address size : Nat} {data : Bytes} (h : entry.readMemory place address (size + 1) = some data) :
    ∃ cell rest, place entry address = some cell ∧ entry.readMemory place (address + 1) size = some rest ∧
      data = entry.memory cell :: rest := by
  unfold Target.readMemory at h
  rw [range'_succ, mapM_cons] at h
  obtain ⟨byte, hbyte, h⟩ := Option.bind_eq_some_iff.mp h
  obtain ⟨rest, hrest, h⟩ := Option.bind_eq_some_iff.mp h
  obtain ⟨cell, hcell, rfl⟩ := Option.map_eq_some_iff.mp hbyte
  exact ⟨cell, rest, hcell, hrest, (Option.some.inj h).symm⟩

/-- Bytes read in `entry` and written back: their cells have the bytes of `entry`, and so has every cell
that had its byte before. -/
lemma writeMemory_saved (hspace : SameSpace place entry t ranges) {size : Nat} : ∀ {address : Nat} {data : Bytes}
    {u : Target}, (∀ x, address ≤ x → x < address + size → InRanges ranges x) →
    entry.readMemory place address size = some data → Between place entry t ranges u →
    u.writeMemory place address data = some u' →
      Between place entry t ranges u' ∧ (∀ c, u.memory c = entry.memory c → u'.memory c = entry.memory c) ∧
      ∀ x, address ≤ x → x < address + size → ∀ c, place entry x = some c → u'.memory c = entry.memory c := by
  induction size with
  | zero =>
    intro address data u hin hread hb hwrite
    cases hread
    cases hwrite
    exact ⟨hb, fun _ h => h, fun x hlo hhi => by omega⟩
  | succ size ih =>
  intro address data u hin hread hb hwrite
  obtain ⟨cell, rest, hcell, hrest, rfl⟩ := readMemory_cons hread
  have haddress : InRanges ranges address := hin address (le_refl _) (by omega)
  rw [Target.writeMemory, hb.place_eq hspace haddress, hcell] at hwrite
  have hfirst : Between place entry t ranges
      { u with memory := Function.update u.memory cell (entry.memory cell) } := by
    refine ⟨hb.registers, hb.selected, ?_⟩
    intro c hc
    have hne : c ≠ cell := fun heq => hc address haddress (heq ▸ hcell)
    exact (Function.update_of_ne hne ..).trans (hb.memory c hc)
  obtain ⟨hbetween, hkeep, hput⟩ := ih (fun x hlo hhi => hin x (by omega) (by omega)) hrest hfirst hwrite
  have hkept : ∀ c, u.memory c = entry.memory c ∨ c = cell → u'.memory c = entry.memory c := by
    intro c hc
    apply hkeep
    by_cases heq : c = cell
    · subst heq
      exact Function.update_self ..
    · exact (Function.update_of_ne heq ..).trans (hc.resolve_right heq)
  refine ⟨hbetween, fun c hc => hkept c (Or.inl hc), ?_⟩
  intro x hlo hhi c hc
  by_cases heq : x = address
  · subst heq
    rw [hcell] at hc
    exact hkept c (Or.inr (Option.some.inj hc).symm)
  · exact hput x (by omega) (by omega) c hc

/-- The ranges of a scope, saved in `entry` and written back one after the other. -/
lemma foldlM_writeMemory (hspace : SameSpace place entry t ranges) {l : List (Nat × Bytes)}
    (hl : ∀ r ∈ l, (r.1, r.2.length) ∈ ranges ∧ entry.readMemory place r.1 r.2.length = some r.2) :
    ∀ {u : Target}, Between place entry t ranges u →
    l.foldlM (fun t r => t.writeMemory place r.1 r.2) u = some u' →
      Between place entry t ranges u' ∧ (∀ c, u.memory c = entry.memory c → u'.memory c = entry.memory c) ∧
      ∀ r ∈ l, ∀ x, r.1 ≤ x → x < r.1 + r.2.length → ∀ c, place entry x = some c → u'.memory c = entry.memory c := by
  induction l with
  | nil =>
    intro u hb h
    cases h
    exact ⟨hb, fun _ hc => hc, fun r hr => by cases hr⟩
  | cons r l ih =>
  intro u hb h
  rw [foldlM_cons] at h
  obtain ⟨u1, hwrite, h⟩ := Option.bind_eq_some_iff.mp h
  obtain ⟨hmem, hread⟩ := hl r mem_cons_self
  obtain ⟨hb1, hkeep1, hput1⟩ :=
    writeMemory_saved hspace (fun x hlo hhi => ⟨_, hmem, hlo, hhi⟩) hread hb hwrite
  obtain ⟨hb2, hkeep2, hput2⟩ := ih (fun r hr => hl r (mem_cons_of_mem _ hr)) hb1 h
  refine ⟨hb2, fun c hc => hkeep2 c (hkeep1 c hc), ?_⟩
  intro r' hr' x hlo hhi c hc
  rcases mem_cons.mp hr' with rfl | hr'
  · exact hkeep2 c (hput1 x hlo hhi c hc)
  · exact hput2 r' hr' x hlo hhi c hc

/-- Saved values: registers as they were in one thread, and the bytes of the ranges in the address space
of that moment. -/
structure SavedFrom (place : Target → Nat → Option Nat) (entry : Target) (ranges : List (Nat × Nat)) (saved : Saved) :
    Prop where
  registers : ∀ r ∈ saved.registers, r.2 = entry.registers entry.selected r.1
  memory : ∀ r ∈ saved.memory, (r.1, r.2.length) ∈ ranges ∧ entry.readMemory place r.1 r.2.length = some r.2
  ranges : ∀ r ∈ ranges, ∃ data, data.length = r.2 ∧ (r.1, data) ∈ saved.memory

variable {saved : Saved}

section

variable (hs : SavedFrom place entry ranges saved) (hspace : SameSpace place entry t ranges)
  (h : t.restore place saved = some u')

include hs hspace h

/-- The state between the two halves of the restore. -/
lemma restore_some : ∃ u, Between place entry t ranges u ∧
    (∀ x, InRanges ranges x → ∀ c, place entry x = some c → u.memory c = entry.memory c) ∧
      u' = saved.registers.reverse.foldl (fun t r => t.writeRegister r.1 r.2) u := by
  obtain ⟨u, hu, h⟩ := Option.bind_eq_some_iff.mp h
  have hstart : Between place entry t ranges t := ⟨rfl, rfl, fun _ _ => rfl⟩
  obtain ⟨hb, -, hput⟩ := foldlM_writeMemory hspace (fun r hr => hs.memory r (mem_reverse.mp hr)) hstart hu
  refine ⟨u, hb, ?_, (Option.some.inj h).symm⟩
  intro x hx c hc
  obtain ⟨r, hr, hlo, hhi⟩ := hx
  obtain ⟨data, hlen, hdata⟩ := hs.ranges r hr
  exact hput _ (mem_reverse.mpr hdata) x hlo (by rw [hlen]; exact hhi) c hc

/-- After the restore the saved registers of the selected thread are those at entry. -/
lemma registers_restore (thr : String) (n : Nat) : u'.registers thr n =
      if thr = t.selected ∧ n ∈ saved.registers.map Prod.fst then entry.registers entry.selected n
      else t.registers thr n := by
  obtain ⟨u, hb, -, rfl⟩ := restore_some hs hspace h
  rw [registers_foldl (entry.registers entry.selected) _
    (fun r hr => hs.registers r (mem_reverse.mp hr)), hb.registers, hb.selected]
  simp only [map_reverse, mem_reverse]

/-- After the restore the saved bytes are those at entry. -/
lemma memory_restore {x : Nat} (hx : InRanges ranges x) {c : Nat} (hc : place entry x = some c) :
    u'.memory c = entry.memory c := by
  obtain ⟨u, -, hmemory, rfl⟩ := restore_some hs hspace h
  rw [memory_foldl_registers]
  exact hmemory x hx c hc

/-- The registers are back in their thread when that thread is selected, or when they were never
away. -/
lemma restored_iff : (∀ n ∈ saved.registers.map Prod.fst,
      u'.registers entry.selected n = entry.registers entry.selected n) ↔ t.selected = entry.selected ∨
        ∀ n ∈ saved.registers.map Prod.fst, t.registers entry.selected n = entry.registers entry.selected n := by
  by_cases hsel : t.selected = entry.selected
  · refine iff_of_true ?_ (Or.inl hsel)
    intro n hn
    rw [registers_restore hs hspace h, if_pos ⟨hsel.symm, hn⟩]
  have hkeep : ∀ n, u'.registers entry.selected n = t.registers entry.selected n := by
    intro n
    rw [registers_restore hs hspace h, if_neg fun heq => hsel heq.1.symm]
  constructor
  · intro h
    refine Or.inr fun n hn => ?_
    rw [← hkeep, h n hn]
  · rintro (h | h)
    · exact absurd h hsel
    · intro n hn
      rw [hkeep, h n hn]

end

/-! ## The two scopes -/

section

variable {s s' : Session}

lemma readRegisterInternal_some {r : Register} {val : Bytes} (h : s.readRegisterInternal r = some val) :
    val = s.target.registers s.target.selected r.number := by
  unfold Session.readRegisterInternal at h
  simp only at h
  split_ifs at h
  exact (Option.some.inj h).symm

lemma command_some {f : Target → Option Target} (h : s.command f = some s') : f s.target = some s'.target := by
  unfold Session.command at h
  split_ifs at h
  obtain ⟨t, ht, rfl⟩ := Option.map_eq_some_iff.mp h
  exact ht

lemma saveRegisters_some {registers : List Register} {saved : List (Nat × Bytes)}
    (h : s.saveRegisters registers = some saved) :
    saved = registers.map fun r => (r.number, s.target.registers s.target.selected r.number) := by
  have hpairs := Checked.mapM_some h
  clear h
  induction hpairs with
  | nil => rfl
  | cons hr _ ih =>
    obtain ⟨val, hval, hpair⟩ := Option.map_eq_some_iff.mp hr
    rw [map_cons, ← ih, ← hpair, readRegisterInternal_some hval]

lemma length_readMemory {address size : Nat} {data : Bytes} (h : entry.readMemory place address size = some data) :
    data.length = size := by
  have hpairs := Checked.mapM_some h
  rw [← hpairs.length_eq, length_range']

/-- What is saved are the bytes of the ranges. -/
lemma saveMemory_some {ranges : List (Nat × Nat)} {memory : List (Nat × Bytes)}
    (h : s.saveMemory place ranges = some memory) :
    (∀ r ∈ memory, (r.1, r.2.length) ∈ ranges ∧ s.target.readMemory place r.1 r.2.length = some r.2) ∧
      ∀ r ∈ ranges, ∃ data, data.length = r.2 ∧ (r.1, data) ∈ memory := by
  have hpairs := Checked.mapM_some h
  clear h
  induction hpairs with
  | nil => exact ⟨fun r hr => (by cases hr), fun r hr => (by cases hr)⟩
  | @cons r saved ranges memory hr _ ih =>
  obtain ⟨data, hread, rfl⟩ := Option.map_eq_some_iff.mp hr
  have hlen := length_readMemory hread
  refine ⟨?_, ?_⟩
  · intro r' hr'
    rcases mem_cons.mp hr' with rfl | hr'
    · simp only [hlen]
      exact ⟨mem_cons_self, hread⟩
    · obtain ⟨hmem, hread⟩ := ih.1 r' hr'
      exact ⟨mem_cons_of_mem _ hmem, hread⟩
  · intro r' hr'
    rcases mem_cons.mp hr' with rfl | hr'
    · exact ⟨data, hlen, mem_cons_self⟩
    · obtain ⟨data, hlen, hmem⟩ := ih.2 r' hr'
      exact ⟨data, hlen, mem_cons_of_mem _ hmem⟩

end

/-- The session at the restore of a scope. -/
def Session.atRestore (place : Target → Nat → Option Nat) (s : Session) : Operation → Option Session
  | .withRegister name encoded body => do
    let r ← s.register name
    let s ← s.command fun t => some (t.writeRegister r.number encoded)
    runOperations place s body
  | .withState _ _ body interrupted => (runOperations place s body).map fun s => s.settle interrupted
  | _ => none

/-- The numbers of the registers that a scope saves. -/
def Session.scopeRegisters (s : Session) : Operation → List Nat
  | .withRegister name _ _ => (s.register name).toList.map Register.number
  | .withState names _ _ _ => ((selectRegisters s names).getD []).map Register.number
  | _ => []

/-- The ranges that a scope saves. -/
def scopeRanges : Operation → List (Nat × Nat)
  | .withState _ ranges _ _ => ranges
  | _ => []

/-- The saved registers, in the thread selected at entry, are as they were at entry, and so are the cells
that the saved ranges had at entry. -/
def Restored (place : Target → Nat → Option Nat) (s : Session) (scope : Operation) (s' : Session) : Prop :=
  (∀ n ∈ s.scopeRegisters scope,
    s'.target.registers s.target.selected n = s.target.registers s.target.selected n) ∧
    ∀ x, InRanges (scopeRanges scope) x → ∀ c, place s.target x = some c → s'.target.memory c = s.target.memory c

/-- The two halves of `with_state`: what it saved and what it restored. -/
lemma scope_some {s t s' : Session} {scope : Operation} (hrestore : s.atRestore place scope = some t)
    (hrun : runOperation place s scope = some s') :
    ∃ saved, SavedFrom place s.target (scopeRanges scope) saved ∧
      saved.registers.map Prod.fst = s.scopeRegisters scope ∧
      t.target.restore place saved = some s'.target := by
  cases scope with
  | withRegister name encoded body =>
    rw [runOperation] at hrun
    obtain ⟨r, hr, hrun⟩ := Option.bind_eq_some_iff.mp hrun
    obtain ⟨old, hold, hrun⟩ := Option.bind_eq_some_iff.mp hrun
    obtain ⟨s1, hs1, hrun⟩ := Option.bind_eq_some_iff.mp hrun
    obtain ⟨s2, hs2, hrun⟩ := Option.bind_eq_some_iff.mp hrun
    have ht : s2 = t := by
      rw [Session.atRestore] at hrestore
      simp only [hr, hs1, Option.bind_eq_bind, Option.bind_some] at hrestore
      rw [hs2] at hrestore
      exact Option.some.inj hrestore
    subst ht
    refine ⟨⟨[(r.number, old)], []⟩, ⟨?_, (fun _ hp => by cases hp), (fun _ hr => by cases hr)⟩, ?_,
      command_some hrun⟩
    · intro p hp
      rw [mem_singleton.mp hp]
      exact readRegisterInternal_some hold
    · simp [Session.scopeRegisters, hr]
  | withState names ranges body interrupted =>
    rw [runOperation] at hrun
    obtain ⟨registers, hregs, hrun⟩ := Option.bind_eq_some_iff.mp hrun
    split at hrun
    · cases hrun
    obtain ⟨saved, hsaved, hrun⟩ := Option.bind_eq_some_iff.mp hrun
    obtain ⟨memory, hmemory, hrun⟩ := Option.bind_eq_some_iff.mp hrun
    obtain ⟨s2, hs2, hrun⟩ := Option.bind_eq_some_iff.mp hrun
    have ht : s2.settle interrupted = t := by
      rw [Session.atRestore, hs2] at hrestore
      exact Option.some.inj hrestore
    subst ht
    have hvals := saveRegisters_some hsaved
    obtain ⟨hread, hranges⟩ := saveMemory_some hmemory
    refine ⟨⟨saved, memory⟩, ⟨?_, hread, hranges⟩, ?_, command_some hrun⟩
    · intro p hp
      rw [hvals] at hp
      obtain ⟨r, -, rfl⟩ := mem_map.mp hp
      rfl
    · simp [Session.scopeRegisters, hregs, hvals]
  | _ => cases hrestore

def twoThreads : Session where
  registerMap := [⟨"rax", 0, 8⟩, ⟨"cr3", 1, 8⟩]
  memoryLimit := 16
  target := { registers := fun thread _ => if thread = "p1" then [0x31, 0x31] else [0x32, 0x32]
              memory := fun _ => 0
              selected := "p1" }

/-- An address space for each value of the second register of the selected thread, sixteen cells apart. -/
def byControlRegister (t : Target) (x : Nat) : Option Nat :=
  if x < 16 then some (16 * ((t.registers t.selected 1).getD 0 0).toNat + x) else none

/-- A callback that writes, changes the thread and comes back. -/
def scopedWrites : Operation :=
  .withState ["rax", "cr3"] [(0, 4), (2, 4)]
    [.writeRegister "rax" [0x30, 0x30], .writeMemory 1 [7, 7, 7], .selectThread "p2", .writeMemory 0 [9],
      .selectThread "p1"]
    twoThreads.target

/-- A callback that writes a byte and then changes the address space. -/
def otherSpace : Operation :=
  .withState ["cr3"] [(1, 1)] [.writeMemory 1 [7], .writeRegister "cr3" [0x30, 0x30]] twoThreads.target

/-- The callback selects another address space, in the same thread: the saved byte goes there, since the
register that selects the space is restored after the memory. -/
theorem other_space_restored :
    ∃ t s', twoThreads.atRestore byControlRegister otherSpace = some t ∧
      runOperation byControlRegister twoThreads otherSpace = some s' ∧
      t.target.selected = twoThreads.target.selected ∧ s'.target.memory (16 * 0x31 + 1) = 7 ∧
      ¬ Restored byControlRegister twoThreads otherSpace s' := by
  refine ⟨_, _, rfl, rfl, rfl, rfl, ?_⟩
  intro h
  have hval := h.2 1 ⟨(1, 1), mem_singleton.mpr rfl, le_refl _, by decide⟩ _ rfl
  cases hval

end Trex.Gdb.Scope
