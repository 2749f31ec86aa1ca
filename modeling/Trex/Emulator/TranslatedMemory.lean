import Trex.Emulator.TranslationCoherent
import Trex.Lib.Op

/-!
# Virtual memory of the ARM64 processor (`translatedMemory` in `emulator/arm64/mmu.go`)

A range is cut at 4 KiB boundaries, every span is translated and checked, and then the spans are read or
written.  `methods_pointwise` says that this is the same as to go byte by byte.
-/

namespace Trex.Emulator.Arm64

open List Op Cpu
open Trex.Bits
open AddressSpace (Inv overlay)

/-! ## The methods -/

/-- The errors of the virtual methods. -/
inductive VirtualError where
  | overflow
  | fault (f : Fault)
  | physical (e : MemoryError)
deriving DecidableEq, Repr

/-- A piece of a virtual range inside one page, at its physical address. -/
structure VirtualSpan where
  address : UInt64
  size : Nat
deriving DecidableEq, Repr

/-- The processor and the address space below it. -/
abbrev Guest := Cpu × AddressSpace

/-- A computation over a processor and its memory. -/
abbrev Virtual := Op Guest VirtualError

def checkPhysical (pa : UInt64) (n : Int) (access : Access) : Virtual Unit := fun s =>
  ((s.2.checkMemory pa.toNat n access).mapError .physical, s)

def readPhysical (pa : UInt64) (n : Nat) (access : Access) : Virtual Bytes := fun s =>
  let (result, m) := s.2.readMemory pa.toNat n access
  (result.mapError .physical, s.1, m)

def writePhysical (pa : UInt64) (source : Bytes) : Virtual Unit := fun s =>
  match s.2.writeMemory pa.toNat source with
  | .ok m => (.ok (), s.1, m)
  | .error e => (.error (.physical e), s)

/-- The bytes up to the end of the page. -/
def room (a : UInt64) : Nat := 4096 - (a &&& 4095).toNat

section

variable (ram : Nat)

/-- The translation of an address. -/
def locate (a : UInt64) (access : Access) : Virtual UInt64 := fun s =>
  let (result, s) := s.1.translate ram s.2 a access
  ((result.map Prod.fst).mapError .fault, s)

/-- Translates a range, page by page. -/
def spansLoop (access : Access) : Nat → UInt64 → Nat → Virtual (List VirtualSpan)
  | 0, _, _ => pure []
  | turns + 1, a, n =>
    if n = 0 then pure []
    else do
      let size := min n (room a)
      let pa ← locate ram a access
      checkPhysical pa size access
      let rest ← spansLoop access turns (a + UInt64.ofNat size) (n - size)
      return ⟨pa, size⟩ :: rest

/-- The pieces of a range. -/
def spans (a : UInt64) (n : Int) (access : Access) : Virtual (List VirtualSpan) :=
  if n < 0 ∨ n > 2 ^ 64 - 1 - a.toNat then throw .overflow else spansLoop ram access n.toNat a n.toNat

variable {α : Type} (a : UInt64) (n : Int) (access : Access)

/-- The methods without their path for one page. -/
def throughSpans (all : List VirtualSpan → Virtual α) : Virtual α := do
  let parts ← spans ram a n access
  all parts

/-- What the three methods have in common: `one` is for a range inside a page. -/
def method (one : UInt64 → Virtual α) (all : List VirtualSpan → Virtual α) : Virtual α :=
  if n > 0 ∧ n ≤ room a ∧ n ≤ 2 ^ 64 - 1 - a.toNat then do
    let pa ← locate ram a access
    one pa
  else throughSpans ram a n access all

/-- `CheckMemory` of a virtual range. -/
def checkMemory : Virtual Unit := method ram a n access (fun pa => checkPhysical pa n access) fun _ => pure ()

def readSpans : List VirtualSpan → Virtual Bytes
  | [] => pure []
  | p :: ps => do
    let l ← readPhysical p.address p.size access
    let rest ← readSpans ps
    return l ++ rest

/-- `ReadMemory` of a virtual range. -/
def readMemory (n : Nat) : Virtual Bytes :=
  method ram a n access (fun pa => readPhysical pa n access) (readSpans access)

def writeSpans : Bytes → List VirtualSpan → Virtual Unit
  | _, [] => pure ()
  | source, p :: ps => do
    writePhysical p.address (source.take p.size)
    writeSpans (source.drop p.size) ps

/-- `WriteMemory` of a virtual range. -/
def writeMemory (source : Bytes) : Virtual Unit :=
  method ram a source.length Write (fun pa => writePhysical pa source) (writeSpans source)

end

/-- The physical places of spans. -/
def cells : List VirtualSpan → List Nat
  | [] => []
  | p :: ps => (range p.size).map (p.address.toNat + ·) ++ cells ps

/-- The accesses that may be asked for. -/
abbrev Usable (access : Access) : Prop := access ≠ 0 ∧ knownAccess access = true

/-! ## Byte by byte -/

/-- The physical place of a byte that translates with the access to a byte with the access. -/
def target (s : Guest) (access : Access) (x : UInt64) : Option Nat :=
  (s.1.walk s.2 x access).1.toOption.bind fun r =>
    if (s.2.view r.1.toNat).any fun v => v.2 &&& access = access then some r.1.toNat else none

/-- The physical place of each byte of a range, if it has one. -/
def places (s : Guest) (access : Access) (a : UInt64) (n : Nat) : List (Option Nat) :=
  (range n).map fun i => target s access (a + UInt64.ofNat i)

def byteAt (m : AddressSpace) (x : Nat) : UInt8 := ((m.view x).map Prod.fst).getD 0

/-- What the addresses hold and permit. -/
abbrev View := Nat → Option (UInt8 × Access)

/-- One byte after the other is stored. -/
def stored (ps : List Nat) (source : Bytes) (f : View) : View :=
  (ps.zip source).foldl (fun f p => overlay p.1 [p.2] f) f

/-- Where each byte has a place, `done` says of the places what is returned and what memory holds then;
otherwise the result is an error and memory is as before. -/
def Pointwise {α : Type} (s : Guest) (found : List (Option Nat)) (done : List Nat → α × View)
    (x : Except VirtualError α × Guest) : Prop :=
  (∃ ps, found = ps.map some ∧ x.1 = .ok (done ps).1 ∧ x.2.2.view = (done ps).2) ∨
    none ∈ found ∧ (∃ e, x.1 = .error e) ∧ x.2.2.view = s.2.view

/-- The same result, and memory with the same bytes and permissions. -/
def Alike {α : Type} (x y : Except VirtualError α × Guest) : Prop := x.1 = y.1 ∧ x.2.2.view = y.2.2.view

/-! ## The walk reads the view only -/

section

variable {m m' : AddressSpace} {c c' : Cpu} {access : Access} {a b : UInt64} {n k : Nat}

lemma readDescriptor_toOption (hi : Inv m) (hi' : Inv m') (hview : m'.view = m.view) (loc : UInt64) :
    (readDescriptor m' loc).1.toOption = (readDescriptor m loc).1.toOption := by
  cases h : (readDescriptor m loc).1 with
  | ok d => rw [readDescriptor_congr hi hi' (fun x _ _ => congrFun hview x) h]
  | error e =>
  cases h' : (readDescriptor m' loc).1 with
  | error e' => rfl
  | ok d =>
    rw [readDescriptor_congr hi' hi (fun x _ _ => (congrFun hview x).symm) h'] at h
    cases h

/-- A walk sees the memory and nothing else, tracked or not. -/
lemma walkLoop_toOption (r : Control) (track track' : Bool) (address va : UInt64) :
    ∀ turns lvl w (m m' : AddressSpace), Inv m → Inv m' → m'.view = m.view →
      (walkLoop r track' address va access turns lvl w m').1.toOption =
        (walkLoop r track address va access turns lvl w m).1.toOption := by
  intro turns
  induction turns with
  | zero =>
    intros
    rfl
  | succ turns ih =>
  intro lvl w m m' hi hi' hview
  have hq := quiet_track hi track (descriptorAddress va lvl w).toNat
  have hq' := quiet_track hi' track' (descriptorAddress va lvl w).toNat
  -- the subscription and the read change no byte, so both loops go on with the same descriptor
  rw [walkLoop, walkLoop]
  generalize (if track then _ else m) = q at hq
  generalize (if track' then _ else m') = q' at hq'
  have hsame : q'.view = q.view := hq'.view.trans (hview.trans hq.view.symm)
  have hread := readDescriptor_toOption hq.inv hq'.inv hsame (descriptorAddress va lvl w)
  have haft := quiet_readDescriptor hq.inv (descriptorAddress va lvl w)
  have haft' := quiet_readDescriptor hq'.inv (descriptorAddress va lvl w)
  generalize readDescriptor q (descriptorAddress va lvl w) = read at hread haft
  generalize readDescriptor q' (descriptorAddress va lvl w) = read' at hread haft'
  obtain ⟨_ | d, t⟩ := read <;> obtain ⟨_ | d', t'⟩ := read' <;> cases hread
  · rfl
  simp only
  cases descend r address va access lvl w d with
  | error f => rfl
  | ok next =>
  cases next with
  | inr result => rfl
  | inl w' => exact ih (lvl + 1) w' t t' haft.inv haft'.inv (haft'.view.trans (hsame.trans haft.view.symm))

/-- A walk depends on what is seen of the memory and on the control registers. -/
lemma walk_toOption (hi : Inv m) (hi' : Inv m') (hview : m'.view = m.view) (c c' : Cpu)
    (hcontrol : c'.control = c.control) (a : UInt64) (access : Access) :
    (c'.walk m' a access).1.toOption = (c.walk m a access).1.toOption := by
  unfold walk
  rw [hcontrol]
  cases start c.control a with
  | error f => rfl
  | ok begin =>
  cases begin with
  | direct physical attributes => rfl
  | tables va level table => exact walkLoop_toOption _ _ _ _ _ _ _ _ _ _ hi hi' hview

/-! ## Ranges inside a page -/

lemma toNat_page (p b : UInt64) :
    ((p &&& ~~~4095) ||| (b &&& 4095)).toNat = 2 ^ 12 * (p.toNat / 2 ^ 12) + b.toNat % 2 ^ 12 := by
  apply Nat.eq_of_testBit_eq
  intro i
  rw [Nat.testBit_two_pow_mul_add _ (Nat.mod_lt _ (by decide)), Nat.testBit_mod_two_pow, Nat.testBit_div_two_pow]
  change bit _ i = if i < 12 then decide (i < 12) && bit b i else bit p (i - 12 + 12)
  rw [bit_or, bit_and, bit_and, bit_offsetMask]
  rcases Nat.lt_or_ge i 64 with hi | hi
  · rw [bit_not _ hi, bit_offsetMask]
    split <;> rename_i hlow
    · simp [hlow]
    · rw [Nat.sub_add_cancel (by omega)]
      simp [hlow]
  · rw [if_neg (by omega), Nat.sub_add_cancel (by omega), bit_of_ge hi, bit_of_ge hi, bit_of_ge hi]
    rfl

lemma room_eq (a : UInt64) : room a = 4096 - a.toNat % 2 ^ 12 := by
  unfold room
  rw [UInt64.toNat_and]
  exact congrArg (4096 - ·) (Nat.and_two_pow_sub_one_eq_mod a.toNat 12)

section

variable {r : UInt64 × UInt64} (hi : Inv m) (hon : c.system 0 &&& 1 ≠ 0)
  (hwalk : (c.walk m a access).1.toOption = some r)

include hi hon hwalk

/-- Two addresses of a page are translated alike. -/
lemma walk_page (h : b >>> 12 = a >>> 12) :
    (c.walk m b access).1.toOption = some ((r.1 &&& ~~~4095) ||| (b &&& 4095), r.2) := by
  -- `coherent_of_walk` speaks of a walk that subscribes to the tables
  let c' := { c with disableTranslationCache := false }
  have hq := quiet_walk hi c' a access
  have hsame := walk_toOption hi hi rfl c c' rfl a access
  cases hwalk' : c'.walk m a access with
  | mk result m' =>
  rw [hwalk'] at hq hsame
  rw [hwalk] at hsame
  cases result with
  | error f => cases hsame
  | ok found =>
  cases hsame
  have hcoh := coherent_of_walk (c := c') hi hon rfl hwalk'
  rw [← walk_toOption hi hq.inv hq.view c c' rfl b]
  exact congrArg Except.toOption (hcoh.walk_eq (c := c') hq.inv h)

/-- The targets inside a page follow one another. -/
lemma target_page (hk : k < room a) :
    target (c, m) access (a + UInt64.ofNat k) =
      if (m.view (r.1.toNat + k)).any fun v => v.2 &&& access = access then some (r.1.toNat + k) else none := by
  have ha := a.toNat_lt
  rw [room_eq] at hk
  have hadd : (a + UInt64.ofNat k).toNat = a.toNat + k := by
    rw [UInt64.toNat_add, UInt64.toNat_ofNat']
    omega
  have hpage : (a + UInt64.ofNat k) >>> 12 = a >>> 12 := by
    apply UInt64.toNat_inj.mp
    rw [UInt64.toNat_shiftRight, UInt64.toNat_shiftRight, hadd, Nat.shiftRight_eq_div_pow, Nat.shiftRight_eq_div_pow]
    show (a.toNat + k) / 2 ^ 12 = a.toNat / 2 ^ 12
    omega
  have hself := walk_page hi hon hwalk rfl
  rw [hwalk, Option.some.injEq] at hself
  have hplace := congrArg (fun r => r.1.toNat) hself
  have hplace' := toNat_page r.1 (a + UInt64.ofNat k)
  rw [toNat_page] at hplace
  unfold target
  rw [walk_page hi hon hwalk hpage, Option.bind_some]
  simp only [show ((r.1 &&& ~~~4095) ||| ((a + UInt64.ofNat k) &&& 4095)).toNat = r.1.toNat + k by omega]

/-- The places of a range inside an allowed page. -/
lemma places_allowed (hn : n ≤ room a) (hall : m.Allowed r.1.toNat n access) :
    places (c, m) access a n = ((range n).map (r.1.toNat + ·)).map some := by
  rw [map_map]
  apply map_congr_left
  intro i hlt
  have := mem_range.mp hlt
  obtain ⟨v, hv, hok⟩ := hall (r.1.toNat + i) (by omega) (by omega)
  rw [target_page hi hon hwalk (by omega), hv]
  exact if_pos (by simpa using hok)

/-- A denied byte has no place. -/
lemma places_denied (hn : n ≤ room a) (hden : ¬ m.Allowed r.1.toNat n access) :
    none ∈ places (c, m) access a n := by
  simp only [AddressSpace.Allowed, not_forall, not_exists] at hden
  obtain ⟨x, hlo, hhi, hx⟩ := hden
  refine mem_map.mpr ⟨x - r.1.toNat, mem_range.mpr (by omega), ?_⟩
  rw [target_page hi hon hwalk (by omega), Nat.add_sub_cancel' hlo]
  cases hv : m.view x with
  | none => rfl
  | some v => exact if_neg (by simpa [hv] using hx v)

end

end

section

variable {ram : Nat} {s s' s'' : Guest} {access : Access} {a : UInt64} {n k : Nat}

lemma places_none (h : (s.1.walk s.2 a access).1.toOption = none) (hpos : 0 < n) : none ∈ places s access a n := by
  refine mem_map.mpr ⟨0, mem_range.mpr hpos, ?_⟩
  unfold target
  rw [show a + UInt64.ofNat 0 = a by simp, h]
  rfl

lemma places_add : places s access a (n + k) = places s access a n ++ places s access (a + UInt64.ofNat n) k := by
  unfold places
  rw [range_add, map_append, map_map]
  simp only [Function.comp_def, UInt64.ofNat_add, UInt64.add_assoc]

/-! ## Spans -/

/-- A state in which the processor translates, with a cache that is sound. -/
structure Ready (ram : Nat) (s : Guest) : Prop where
  inv : Inv s.2
  on : s.1.system 0 &&& 1 ≠ 0
  version : s.2.trackedVersion < 2 ^ 64
  cache : ∃ spaces : List AddressSpace, spaces[ram]? = some s.2 ∧ CacheOK spaces s.1

/-- Translations and reads lie between the states. -/
structure Sees (s s' : Guest) : Prop where
  inv : Inv s'.2
  control : s'.1.control = s.1.control
  view : s'.2.view = s.2.view

lemma Sees.refl (hi : Inv s.2) : Sees s s := ⟨hi, rfl, rfl⟩

lemma Sees.trans (h : Sees s s') (h' : Sees s' s'') : Sees s s'' :=
  ⟨h'.inv, h'.control.trans h.control, h'.view.trans h.view⟩

lemma Sees.target (h : Sees s s') (hi : Inv s.2) : target s' access = target s access := by
  funext x
  unfold Arm64.target
  rw [walk_toOption hi h.inv h.view _ _ h.control, h.view]

lemma Sees.allowed (h : Sees s s') {address : Nat} :
    s'.2.Allowed address n access ↔ s.2.Allowed address n access := by
  unfold AddressSpace.Allowed
  rw [h.view]

lemma translate_cpu (ram : Nat) (c : Cpu) (m : AddressSpace) (a : UInt64) (access : Access) :
    ∃ t, (c.translate ram m a access).2.1 = { c with translations := t } := by
  unfold Cpu.translate cachedTranslate
  split
  · dsimp only
    split
    · exact ⟨_, rfl⟩
    · split <;> exact ⟨_, rfl⟩
  · exact ⟨_, rfl⟩

/-- Locating an address is walking the tables, whatever the cache holds. -/
lemma locate_eq (h : Ready ram s) (a : UInt64) (access : Access) : ∃ s', Ready ram s' ∧ Sees s s' ∧
    ((∃ r, (s.1.walk s.2 a access).1.toOption = some r ∧ locate ram a access s = (.ok r.1, s')) ∨
      (s.1.walk s.2 a access).1.toOption = none ∧ ∃ e, locate ram a access s = (.error e, s')) := by
  obtain ⟨hi, hon, hver, spaces, hm, hcache⟩ := h
  obtain ⟨hres, hq, hcache'⟩ := translate_spec hm hi hcache hver a access
  obtain ⟨t, hcpu⟩ := translate_cpu ram s.1 s.2 a access
  unfold locate
  generalize s.1.translate ram s.2 a access = result at hres hq hcache' hcpu
  refine ⟨result.2, ⟨hq.inv, by rwa [hcpu], by rwa [hq.version], _,
    getElem?_set_self (List.getElem?_eq_some_iff.mp hm).1, hcache'⟩,
    ⟨hq.inv, by rw [hcpu]; rfl, hq.view⟩, ?_⟩
  rw [← hres]
  obtain ⟨e | r, s'⟩ := result
  · exact .inr ⟨rfl, _, rfl⟩
  · exact .inl ⟨r, rfl, rfl⟩

/-- The physical check succeeds exactly if the range is allowed. -/
lemma checkPhysical_eq (hi : Inv s.2) (hacc : Usable access) (pa : UInt64) (n : Nat) :
    (s.2.Allowed pa.toNat n access ∧ checkPhysical pa n access s = (.ok (), s)) ∨
      ¬ s.2.Allowed pa.toNat n access ∧ ∃ e, s.2.check pa.toNat n access = .error e ∧
        checkPhysical pa n access s = (.error (.physical e), s) := by
  have hcheck := AddressSpace.check_iff hi pa.toNat n access
  unfold checkPhysical AddressSpace.checkMemory
  rw [if_neg (by simp [hacc.1, hacc.2])]
  cases h : s.2.check pa.toNat n access with
  | ok u => exact .inl ⟨(hcheck.mp h).2, rfl⟩
  | error e =>
  refine .inr ⟨fun hall => ?_, e, rfl, rfl⟩
  rw [hcheck.mpr ⟨by omega, hall⟩] at h
  cases h

/-- The loop of `spans`: it stops at a byte without a place, or it has found the places of all bytes. -/
lemma spansLoop_eq (hacc : Usable access) : ∀ turns s a n, Ready ram s → n ≤ turns →
    ∃ s', Sees s s' ∧
      ((∃ parts, spansLoop ram access turns a n s = (.ok parts, s') ∧
          places s access a n = (cells parts).map some ∧
          ∀ p ∈ parts, s.2.Allowed p.address.toNat p.size access) ∨
        none ∈ places s access a n ∧ ∃ e, spansLoop ram access turns a n s = (.error e, s')) := by
  intro turns
  induction turns with
  | zero =>
    intro s a n h hn
    obtain rfl : n = 0 := by omega
    exact ⟨s, .refl h.inv, .inl ⟨[], rfl, rfl, nofun⟩⟩
  | succ turns ih =>
  intro s a n h hn
  rw [spansLoop]
  split
  next hz =>
    subst hz
    exact ⟨s, .refl h.inv, .inl ⟨[], rfl, rfl, nofun⟩⟩
  next hpos =>
  have hroom : 0 < room a := by
    rw [room_eq]
    omega
  -- the span of this turn, and the rest of the range
  obtain ⟨size, hsize⟩ : ∃ size, size = min n (room a) := ⟨_, rfl⟩
  obtain ⟨k, rfl⟩ : ∃ k, n = size + k := ⟨n - size, by omega⟩
  simp only [← hsize, Nat.add_sub_cancel_left, places_add, mem_append]
  obtain ⟨s₁, h₁, hsees, ⟨r, hwalk, hloc⟩ | ⟨hwalk, e, hloc⟩⟩ := locate_eq h a access
  · rw [run_bind hloc]
    rcases checkPhysical_eq h₁.inv hacc r.1 size with ⟨hall, hcheck⟩ | ⟨hden, e, -, hcheck⟩
    · rw [hsees.allowed] at hall
      rw [run_bind hcheck, places_allowed h.inv h.on hwalk (by omega) hall]
      obtain ⟨s₂, hsees₂, hrest⟩ := ih s₁ (a + UInt64.ofNat size) k h₁ (by omega)
      simp only [places, hsees.target h.inv, hsees.allowed] at hrest
      refine ⟨s₂, hsees.trans hsees₂, ?_⟩
      rcases hrest with ⟨parts, hloop, hcells, hrest⟩ | ⟨hnone, e, hloop⟩
      · refine .inl ⟨⟨r.1, size⟩ :: parts, run_bind hloop, ?_, forall_mem_cons.mpr ⟨hall, hrest⟩⟩
        rw [cells, map_append, ← hcells]
        rfl
      · exact .inr ⟨.inr hnone, e, run_bind_error hloop⟩
    · rw [hsees.allowed] at hden
      exact ⟨s₁, hsees, .inr ⟨.inl (places_denied h.inv h.on hwalk (by omega) hden), _, run_bind_error hcheck⟩⟩
  · exact ⟨s₁, hsees, .inr ⟨.inl (places_none hwalk (by omega)), e, run_bind_error hloc⟩⟩

/-! ## Reads and writes of spans -/

lemma readPhysical_ok (hi : Inv s.2) (hacc : access = Read ∨ access = Execute) {pa : UInt64}
    (hall : s.2.Allowed pa.toNat n access) :
    ∃ s', Sees s s' ∧ readPhysical pa n access s = (.ok (s.2.bytesAt pa.toNat n), s') := by
  have hread := (AddressSpace.readMemory_ok_iff hi _ _ _ _).mpr ⟨hacc, hall, rfl⟩
  have hq := quiet_readMemory hi pa.toNat n access
  refine ⟨(s.1, _), ⟨hq.inv, rfl, hq.view⟩, ?_⟩
  unfold readPhysical
  simp only [hread]
  rfl

/-- Reading the pieces reads the bytes at their cells. -/
lemma readSpans_eq (hacc : access = Read ∨ access = Execute) : ∀ (parts : List VirtualSpan) (s : Guest), Inv s.2 →
      (∀ p ∈ parts, s.2.Allowed p.address.toNat p.size access) → ∃ s', Sees s s' ∧
        readSpans access parts s = (.ok ((cells parts).map (byteAt s.2)), s') := by
  intro parts
  induction parts with
  | nil =>
    intro s hi _
    exact ⟨s, .refl hi, rfl⟩
  | cons p parts ih =>
  intro s hi hall
  obtain ⟨hfirst, hrest⟩ := forall_mem_cons.mp hall
  obtain ⟨s₁, hsees, hread⟩ := readPhysical_ok hi hacc hfirst
  obtain ⟨s₂, hsees₂, hloop⟩ := ih s₁ hsees.inv fun q hq => hsees.allowed.mpr (hrest q hq)
  refine ⟨s₂, hsees.trans hsees₂, ?_⟩
  rw [readSpans, run_bind hread, run_bind hloop, cells, map_append]
  unfold byteAt AddressSpace.bytesAt
  rw [hsees.view, map_map]
  rfl

lemma stored_range (src : Bytes) : ∀ (address : Nat) f,
    stored ((range src.length).map (address + ·)) src f = overlay address src f := by
  induction src with
  | nil =>
    intro address f
    funext x
    exact (AddressSpace.overlay_of_not_mem (by simp)).symm
  | cons b src ih =>
  intro address f
  funext x
  rw [← AddressSpace.overlay_split address (b :: src) f (n := 1) (by simp)]
  unfold stored at ih ⊢
  rw [length_cons, range_succ_eq_map, map_cons, map_map, zip_cons_cons, foldl_cons]
  have hshift : (fun i => address + i) ∘ Nat.succ = (address + 1 + ·) := by
    funext i
    simp only [Function.comp_apply]
    omega
  rw [hshift, ih]
  rfl

lemma writePhysical_ok (hi : Inv s.2) {pa : UInt64} {src : Bytes}
    (hall : s.2.Allowed pa.toNat src.length Write) :
    ∃ m, Inv m ∧ m.view = overlay pa.toNat src s.2.view ∧ writePhysical pa src s = (.ok (), s.1, m) := by
  obtain ⟨regs, hok, hshape, hview⟩ := AddressSpace.writeMemory_ok hi hall
  refine ⟨_, AddressSpace.inv_trackedVersion (AddressSpace.inv_regions hi hshape)
    (s.2.trackWrite pa.toNat src.length).trackedVersion, funext hview, ?_⟩
  unfold writePhysical
  rw [hok]

/-- Writing the pieces stores the bytes at their cells. -/
lemma writeSpans_eq : ∀ (parts : List VirtualSpan) (src : Bytes) (s : Guest), Inv s.2 →
      (∀ p ∈ parts, s.2.Allowed p.address.toNat p.size Write) →
      src.length = (cells parts).length → ∃ s', writeSpans src parts s = (.ok (), s') ∧
        s'.2.view = stored (cells parts) src s.2.view := by
  intro parts
  induction parts with
  | nil =>
    intro src s _ _ _
    exact ⟨s, rfl, rfl⟩
  | cons p parts ih =>
  intro src s hi hall hlen
  obtain ⟨hfirst, hrest⟩ := forall_mem_cons.mp hall
  rw [cells, length_append, length_map, length_range] at hlen
  have htake : (src.take p.size).length = p.size := length_take_of_le (by omega)
  rw [← htake] at hfirst
  obtain ⟨m, hi', hview, hwriting⟩ := writePhysical_ok hi hfirst
  have hkept : ∀ q ∈ parts, m.Allowed q.address.toNat q.size Write := by
    intro q hq x hlo hhi
    obtain ⟨v, hv, hacc⟩ := hrest q hq x hlo hhi
    rw [hview, overlay, hv]
    exact ⟨_, rfl, hacc⟩
  obtain ⟨s', hloop, hsto⟩ := ih (src.drop p.size) (s.1, m) hi' hkept (by rw [length_drop]; omega)
  refine ⟨s', by rw [writeSpans, run_bind hwriting, hloop], ?_⟩
  have hzip : ((range p.size).map (p.address.toNat + ·) ++ cells parts).zip (src.take p.size ++ src.drop p.size)
      = _ := zip_append (by rw [length_map, length_range, htake])
  rw [take_append_drop] at hzip
  rw [hsto, hview, ← stored_range, htake, cells]
  unfold stored
  rw [hzip, foldl_append]

/-! ## The path for one page -/

/-- The short way inside one page gives what the pieces give. -/
lemma method_alike {α : Type} {one : UInt64 → Virtual α} {all : List VirtualSpan → Virtual α} (h : Ready ram s)
    (hacc : Usable access) (hone : ∀ pa (s : Guest), Inv s.2 →
      Alike (one pa s) ((checkPhysical pa n access >>= fun _ => all [⟨pa, n⟩]) s)) :
    Alike (method ram a n access one all s) (throughSpans ram a n access all s) := by
  unfold method
  split
  next hfast =>
    obtain ⟨turns, rfl⟩ : ∃ turns, n = turns + 1 := ⟨n - 1, by omega⟩
    have hmin : min (turns + 1) (room a) = turns + 1 := by omega
    have hend : ∀ b s, spansLoop ram access turns b 0 s = (.ok [], s) := by
      intro b s
      cases turns <;> rfl
    -- `spans` gives the whole range as one span
    unfold throughSpans spans
    rw [if_neg (by omega), Int.toNat_natCast, spansLoop, if_neg (by omega)]
    simp only [hmin, Nat.sub_self]
    obtain ⟨s₁, h₁, -, ⟨r, -, hloc⟩ | ⟨-, e, hloc⟩⟩ := locate_eq h a access
    · have hspan := hone r.1 s₁ h₁.inv
      rw [run_bind hloc]
      rcases checkPhysical_eq h₁.inv hacc r.1 (turns + 1) with ⟨-, hcheck⟩ | ⟨-, e, -, hcheck⟩
      · rw [run_bind hcheck] at hspan
        rwa [run_bind (by rw [run_bind hloc, run_bind hcheck, run_bind (hend _ _)]; rfl)]
      · rw [run_bind_error hcheck] at hspan
        rwa [run_bind_error (by rw [run_bind hloc, run_bind_error hcheck])]
    · rw [run_bind_error hloc, run_bind_error (run_bind_error hloc)]
      exact ⟨rfl, rfl⟩
  · exact ⟨rfl, rfl⟩

lemma checkPhysical_alike (hacc : Usable access) (pa : UInt64) (s : Guest) (hi : Inv s.2) :
    Alike (checkPhysical pa n access s) ((checkPhysical pa n access >>= fun _ => pure ()) s) := by
  rcases checkPhysical_eq hi hacc pa n with ⟨-, hcheck⟩ | ⟨-, e, -, hcheck⟩
  · rw [run_bind hcheck, hcheck]
    exact ⟨rfl, rfl⟩
  · rw [run_bind_error hcheck, hcheck]
    exact ⟨rfl, rfl⟩

lemma readPhysical_alike (hacc : access = Read ∨ access = Execute) (pa : UInt64) (s : Guest) (hi : Inv s.2) :
    Alike (readPhysical pa n access s) ((checkPhysical pa n access >>= fun _ => readSpans access [⟨pa, n⟩]) s) := by
  have hknown : Usable access := by rcases hacc with rfl | rfl <;> decide
  rcases checkPhysical_eq hi hknown pa n with ⟨hall, hcheck⟩ | ⟨-, e, herr, hcheck⟩
  · obtain ⟨s', -, hread⟩ := readPhysical_ok hi hacc hall
    rw [run_bind hcheck, readSpans, run_bind hread, hread]
    exact ⟨congrArg Except.ok (append_nil _).symm, rfl⟩
  have hslow : (s.2.readMemory pa.toNat n access).1 = .error e := by
    rw [AddressSpace.readMemory_fst hi, if_neg (by tauto), AddressSpace.readSlow, herr]
    rfl
  rw [run_bind_error hcheck]
  unfold readPhysical
  simp only [hslow]
  exact ⟨rfl, (quiet_readMemory hi pa.toNat n access).view⟩

lemma writePhysical_alike (src : Bytes) (pa : UInt64) (s : Guest) (hi : Inv s.2) :
    Alike (writePhysical pa src s)
      ((checkPhysical pa src.length Write >>= fun _ => writeSpans src [⟨pa, src.length⟩]) s) := by
  rcases checkPhysical_eq hi (show Usable Write by decide) pa src.length with ⟨hall, hcheck⟩ | ⟨-, e, herr, hcheck⟩
  · obtain ⟨m, -, -, hwriting⟩ := writePhysical_ok hi hall
    rw [run_bind hcheck, writeSpans, take_length, run_bind hwriting, hwriting]
    exact ⟨rfl, rfl⟩
  · rw [run_bind_error hcheck]
    unfold writePhysical AddressSpace.writeMemory
    simp only [herr]
    exact ⟨rfl, rfl⟩

/-! ## The methods are pointwise -/

/-- A range up to the end of the address space is refused. -/
lemma method_overflow {α : Type} {one : UInt64 → Virtual α} {all : List VirtualSpan → Virtual α}
    (hend : 2 ^ 64 ≤ a.toNat + n) : method ram a n access one all s = (.error .overflow, s) := by
  unfold method
  rw [if_neg (by omega)]
  refine run_bind_error ?_
  unfold spans
  rw [if_pos (by omega)]
  rfl

/-- A method acts byte by byte exactly if its range ends before the last address or a byte has no place. -/
lemma method_pointwise {α : Type} {one : UInt64 → Virtual α} {all : List VirtualSpan → Virtual α}
    {done : List Nat → α × View} (h : Ready ram s) (hacc : Usable access)
    (hone : ∀ pa (s : Guest), Inv s.2 →
      Alike (one pa s) ((checkPhysical pa n access >>= fun _ => all [⟨pa, n⟩]) s))
    (hall : ∀ parts s', Sees s s' → (∀ p ∈ parts, s'.2.Allowed p.address.toNat p.size access) →
      n = (cells parts).length → ∃ s'', all parts s' =
        (.ok (done (cells parts)).1, s'') ∧ s''.2.view = (done (cells parts)).2) :
    (Pointwise s (places s access a n) done (method ram a n access one all s) ↔
      a.toNat + n < 2 ^ 64 ∨ none ∈ places s access a n) ∧
      Alike (method ram a n access one all s) (throughSpans ram a n access all s) := by
  have halike := method_alike (a := a) h hacc hone
  refine ⟨?_, halike⟩
  by_cases hend : a.toNat + n < 2 ^ 64
  case neg =>
    -- every range that ends with the last byte or behind it is refused
    rw [method_overflow (by omega)]
    constructor
    · rintro (⟨ps, -, hok, -⟩ | ⟨hnone, -⟩)
      · cases hok
      · exact .inr hnone
    · rintro (hlt | hnone)
      · exact absurd hlt hend
      · exact .inr ⟨hnone, ⟨_, rfl⟩, rfl⟩
  refine iff_of_true ?_ (.inl hend)
  unfold Pointwise
  rw [halike.1, halike.2]
  unfold throughSpans spans
  rw [if_neg (by omega), Int.toNat_natCast]
  obtain ⟨s', hsees, ⟨parts, hloop, hcells, hok⟩ | ⟨hnone, e, hloop⟩⟩ := spansLoop_eq hacc n s a n h le_rfl
  · have hlen := congrArg length hcells
    simp only [places, length_map, length_range] at hlen
    obtain ⟨s'', hrun, hview⟩ := hall parts s' hsees (fun p hp => hsees.allowed.mpr (hok p hp)) hlen
    rw [run_bind hloop, hrun]
    exact .inl ⟨_, hcells, rfl, hview⟩
  · rw [run_bind_error hloop]
    exact .inr ⟨hnone, ⟨e, rfl⟩, hsees.view⟩

end

/-- In every state that a run of fewer than `2 ^ 64` operations reaches, with translation on, each method is
pointwise exactly when its range ends before the last byte of the address space or some byte of it has no
place, and it does the same as without its path for one page. -/
theorem methods_pointwise (actions : List Action) (hcount : (Machine.run {} actions).2 < 2 ^ 64) {k i : Nat} {c : Cpu}
    {m : AddressSpace} (hc : (Machine.run {} actions).1.cpus[k]? = some c)
    (hm : (Machine.run {} actions).1.spaces[i]? = some m) (hon : c.system 0 &&& 1 ≠ 0) (a : UInt64) (n : Nat) :
    (∀ access, Usable access →
      (Pointwise (c, m) (places (c, m) access a n) (fun _ => ((), m.view)) (checkMemory i a n access (c, m)) ↔
        a.toNat + n < 2 ^ 64 ∨ none ∈ places (c, m) access a n) ∧
      Alike (checkMemory i a n access (c, m)) (throughSpans i a n access (fun _ => pure ()) (c, m))) ∧
    (∀ access, access = Read ∨ access = Execute →
      (Pointwise (c, m) (places (c, m) access a n) (fun ps => (ps.map (byteAt m), m.view))
        (readMemory i a access n (c, m)) ↔ a.toNat + n < 2 ^ 64 ∨ none ∈ places (c, m) access a n) ∧
      Alike (readMemory i a access n (c, m)) (throughSpans i a n access (readSpans access) (c, m))) ∧
    ∀ source, source.length = n →
      (Pointwise (c, m) (places (c, m) Write a n) (fun ps => ((), stored ps source m.view))
        (writeMemory i a source (c, m)) ↔ a.toNat + n < 2 ^ 64 ∨ none ∈ places (c, m) Write a n) ∧
      Alike (writeMemory i a source (c, m)) (throughSpans i a n Write (writeSpans source) (c, m)) := by
  have hinit : MachineOK 0 {} := ⟨by simp, by simp⟩
  have hrun := MachineOK.run actions hinit (by omega)
  obtain ⟨hi, hver⟩ := hrun.spaces m (mem_of_getElem? hm)
  have h : Ready i (c, m) := ⟨hi, hon, by show m.trackedVersion < _; omega, _, hm, hrun.cpus c (mem_of_getElem? hc)⟩
  refine ⟨fun access hacc => ?_, fun access hacc => ?_, ?_⟩
  · exact method_pointwise h hacc (checkPhysical_alike hacc) fun _ s' hsees _ _ => ⟨s', rfl, hsees.view⟩
  · refine method_pointwise h (by rcases hacc with rfl | rfl <;> decide) (readPhysical_alike hacc) ?_
    intro parts s' hsees hall _
    obtain ⟨s'', hsees', hread⟩ := readSpans_eq hacc parts s' hsees.inv hall
    refine ⟨s'', ?_, (hsees.trans hsees').view⟩
    rw [hread]
    unfold byteAt
    rw [hsees.view]
  · rintro source rfl
    refine method_pointwise h (by decide) (writePhysical_alike source) ?_
    intro parts s' hsees hall hlen
    obtain ⟨s'', hwriting, hview⟩ := writeSpans_eq parts source s' hsees.inv hall hlen
    exact ⟨s'', hwriting, by rw [hview, hsees.view]⟩

/-- The last bytes of the addresses are those of the descriptor that maps them, at the end of a block. -/
def lastBytes : List Action :=
  [.operation (.create 4096), .operation (.call 0 (.map 0x3ffff8 [0x41, 0x04, 0x20, 0, 0, 0, 0x80, 0x06] 1)),
    .operation .newCpu, .operation (.setRegister 0 "ttbr1_el1" 0x3ff000),
    .operation (.setRegister 0 "tcr_el1" 0x80270000), .operation (.setRegister 0 "sctlr_el1" 1)]

/-- A read of the byte in front of the last one of the address space. -/
theorem methods_pointwise_lastBytes : ∃ c m, (Machine.run {} lastBytes).1.cpus[0]? = some c ∧
    (Machine.run {} lastBytes).1.spaces[0]? = some m ∧ places (c, m) Read 0xfffffffffffffffe 1 = [some 0x3ffffe] ∧
    Pointwise (c, m) (places (c, m) Read 0xfffffffffffffffe 1) (fun ps => (ps.map (byteAt m), m.view))
      (readMemory 0 0xfffffffffffffffe Read 1 (c, m)) := by
  refine ⟨_, _, rfl, rfl, by decide +kernel, ?_⟩
  have hpointwise := methods_pointwise lastBytes (k := 0) (i := 0) (by decide +kernel) rfl rfl (by decide +kernel)
    0xfffffffffffffffe 1
  exact (hpointwise.2.1 Read (.inl rfl)).1.mpr (.inl (by decide))

/-- The last byte has its place and is refused. -/
theorem readMemory_last_byte : ∃ c m, (Machine.run {} lastBytes).1.cpus[0]? = some c ∧
    (Machine.run {} lastBytes).1.spaces[0]? = some m ∧ c.system 0 &&& 1 ≠ 0 ∧
    places (c, m) Read 0xffffffffffffffff 1 = [some 0x3fffff] ∧
    (readMemory 0 0xffffffffffffffff Read 1 (c, m)).1 = .error .overflow :=
  ⟨_, _, rfl, rfl, by decide +kernel, by decide +kernel, by decide +kernel⟩

end Trex.Emulator.Arm64
