import Trex.Filesystem.Image
import Trex.Lib.Checked

/-!
# Captured memory and its x86 address space (`memory/image.go`, `memory/x86.go`)

`Physical` reads the ranges of a capture, `X86` translates and reads page by page.  The causes of
faults are left out.
-/

namespace Trex.Capture

open List Memory Filesystem

/-- The kinds of faults. -/
inductive Kind where
  | invalidAddress
  | notPresent
  | unsupported
  | notCaptured
  | sourceError
deriving DecidableEq, Repr

/-- The step at which a fault occurs. -/
inductive Level where
  | virtual
  | physical
  | data
  | pdpte
  | pde
  | pte
  | pse36
deriving DecidableEq, Repr

/-- A fault with the addresses that it reports. -/
structure Fault where
  kind : Kind
  address : Nat
  physical : Nat
  level : Level
deriving DecidableEq, Repr

/-- A fault of a lower level, told with the address that was asked for. -/
def contextualFault (f : Fault) (address physical : Nat) (level : Level) : Fault := ⟨f.kind, address, physical, level⟩

/-! ## Physical memory -/

/-- A captured range of physical memory and its place in the source. -/
structure Range where
  start : Nat
  offset : Nat
  size : Nat
deriving DecidableEq, Repr

def Range.stop (r : Range) : Nat := r.start + r.size

/-- The loop of `NewPhysical` over the sorted ranges; `last` is where the one before ends. -/
def checkRanges (size : Nat) : Nat → List Range → Bool
  | _, [] => true
  | last, r :: rs =>
    if r.size = 0 ∨ r.start > 2 ^ 63 - 1 ∨ r.size > 2 ^ 63 - 1 - r.start ∨ r.offset > size ∨ r.size > size - r.offset ∨
        r.start < last then false
    else checkRanges size r.stop rs

/-- Captured memory; the constructor has checked the ranges. -/
structure Physical where
  source : Source
  ranges : List Range
  checked : checkRanges source.size 0 ranges = true

/-- `sort.Search` for the first range that ends behind an address. -/
def Physical.seek (p : Physical) (address : Nat) : Option Range :=
  p.ranges[Search.search p.ranges.length fun i => decide (address < ((p.ranges[i]?).map Range.stop).getD 0)]?

/-- The loop of `ReadAt` for what is left; every turn that goes on has read a byte. -/
def Physical.readLoop (p : Physical) : Nat → Nat → Nat → Bytes × Option Fault
  | _, _, 0 => ([], none)
  | 0, _, _ + 1 => ([], none)
  | turns + 1, address, n + 1 =>
    match p.seek address with
    | none => ([], some ⟨.notCaptured, address, address, .physical⟩)
    | some r =>
      if address < r.start then ([], some ⟨.notCaptured, address, address, .physical⟩)
      else
        let count := min (n + 1) (r.stop - address)
        let (got, stop) := p.source.readAt (r.offset + address - r.start : Nat) count
        if got.length ≠ count || stop matches .failed then
          (got, some ⟨.sourceError, address + got.length, address + got.length, .physical⟩)
        else
          let rest := p.readLoop turns (address + count) (n + 1 - count)
          (got ++ rest.1, rest.2)

def Physical.readAt (p : Physical) (offset : Int) (len : Nat) : Bytes × Option Fault :=
  if offset < 0 then ([], some ⟨.invalidAddress, 0, 0, .physical⟩) else p.readLoop len offset.toNat len

/-! ## Virtual memory -/

/-- An entry of the tables that a translation read. -/
structure PageEntry where
  level : Level
  address : Nat
  value : Nat
deriving DecidableEq, Repr

/-- A translation and the entries on its way. -/
structure Translation where
  virtual : Nat
  physical : Nat := 0
  pageSize : Nat := 0
  entries : List PageEntry := []
deriving DecidableEq, Repr

/-- A 32-bit address space. -/
structure X86 where
  physical : Physical
  dtb : Nat
  pae : Bool
  valid : dtb ≤ 0xffffffff

/-- The closure `entry` of `Translate`; a fault leaves the entries read so far. -/
def X86.entry (x : X86) (t : Translation) (level : Level) (address width : Nat) :
    Except (Translation × Fault) (Translation × Nat) :=
  match x.physical.readAt address width with
  | (_, some f) => .error (t, contextualFault f t.virtual address level)
  | (data, none) =>
    let v := LittleEndian.get data
    let t := { t with entries := t.entries ++ [⟨level, address, v⟩] }
    if v % 2 = 0 then .error (t, ⟨.notPresent, t.virtual, address, level⟩) else .ok (t, v)

/-- The walk of the tables, with and without PAE. -/
def X86.translate (x : X86) (va : Nat) : Except (Translation × Fault) Translation :=
  if va ≥ 2 ^ 32 then .error ({ virtual := va }, ⟨.invalidAddress, va, 0, .virtual⟩)
  else if x.pae then do
    let (t, pdpte) ← x.entry { virtual := va } .pdpte (x.dtb / 32 * 32 + va / 2 ^ 30 % 4 * 8) 8
    let (t, pde) ← x.entry t .pde ((pdpte &&& 0x000ffffffffff000) + va / 2 ^ 21 % 512 * 8) 8
    if pde &&& 0x80 ≠ 0 then
      .ok { t with physical := (pde &&& 0x000fffffffe00000) + va % 2 ^ 21, pageSize := 2 ^ 21 }
    else
      let (t, pte) ← x.entry t .pte ((pde &&& 0x000ffffffffff000) + va / 2 ^ 12 % 512 * 8) 8
      .ok { t with physical := (pte &&& 0x000ffffffffff000) + va % 2 ^ 12, pageSize := 2 ^ 12 }
  else do
    let (t, pde) ← x.entry { virtual := va } .pde (x.dtb / 4096 * 4096 + va / 2 ^ 22 * 4) 4
    if pde &&& 0x80 ≠ 0 then
      if pde &&& 0x003fe000 ≠ 0 then .error (t, ⟨.unsupported, va, 0, .pse36⟩)
      else .ok { t with physical := (pde &&& 0xffc00000) + va % 2 ^ 22, pageSize := 2 ^ 22 }
    else
      let (t, pte) ← x.entry t .pte ((pde &&& 0xfffff000) + va / 2 ^ 12 % 1024 * 4) 4
      .ok { t with physical := (pte &&& 0xfffff000) + va % 2 ^ 12, pageSize := 2 ^ 12 }

/-- A read, page by page. -/
def X86.readLoop (x : X86) : Nat → Nat → Nat → Bytes × Option Fault
  | _, _, 0 => ([], none)
  | 0, _, _ + 1 => ([], none)
  | turns + 1, va, n + 1 =>
    match x.translate va with
    | .error (_, f) => ([], some f)
    | .ok t =>
      let count := min (n + 1) (t.pageSize - va % t.pageSize)
      match x.physical.readAt t.physical count with
      | (got, some f) => (got, some (contextualFault f (va + got.length) (t.physical + got.length) .data))
      | (got, none) =>
        let rest := x.readLoop turns (va + count) (n + 1 - count)
        (got ++ rest.1, rest.2)

def X86.readAt (x : X86) (offset : Int) (len : Nat) : Bytes × Option Fault :=
  if offset < 0 ∨ offset > 2 ^ 32 ∨ len > 2 ^ 32 - offset then
    ([], some ⟨.invalidAddress, (offset % 2 ^ 64).toNat, 0, .virtual⟩)
  else x.readLoop len offset.toNat len

/-! ## Reads give what can be read -/

/-- The captured byte at a physical address, if it can be read. -/
def Physical.byte (p : Physical) (a : Nat) : Option UInt8 :=
  (p.ranges.find? fun r => decide (r.start ≤ a ∧ a < r.stop)).bind fun r =>
    if p.source.bad (r.offset + a - r.start) then none else some (p.source.byte (r.offset + a - r.start))

/-- The byte behind a virtual address. -/
def X86.byte (x : X86) (va : Nat) : Option UInt8 := (x.translate va).toOption.bind fun t => x.physical.byte t.physical

/-- A read of `n` bytes gives those up to the first that cannot be read, with a fault when there is one. -/
structure Reads (f : Nat → Option UInt8) (a n : Nat) (read : Bytes × Option Fault) : Prop where
  shown : ∀ i < read.1.length, f (a + i) = read.1[i]?
  ended : (read.2 = none ∧ read.1.length = n) ∨ (read.2 ≠ none ∧ read.1.length < n ∧ f (a + read.1.length) = none)

namespace Reads

variable {f g : Nat → Option UInt8} {a b c n : Nat} {got : Bytes} {fault : Fault}

lemma nil : Reads f a 0 ([], none) := ⟨nofun, .inl ⟨rfl, rfl⟩⟩

lemma none_read (h : f a = none) : Reads f a (n + 1) ([], some fault) := ⟨nofun, .inr ⟨nofun, Nat.succ_pos _, h⟩⟩

lemma failed (h : Reads f a c (got, some fault)) (hc : c ≤ n) (fault' : Fault) : Reads f a n (got, some fault') := by
  rcases h.ended with ⟨hnone, -⟩ | ⟨-, hlt, hstop⟩
  · cases hnone
  · exact ⟨h.shown, .inr ⟨nofun, lt_of_lt_of_le hlt hc, hstop⟩⟩

lemma append {rest : Bytes × Option Fault} (h : Reads f a c (got, none)) (hc : c ≤ n)
    (hrest : Reads f (a + c) (n - c) rest) : Reads f a n (got ++ rest.1, rest.2) := by
  have hlength : got.length = c := by
    rcases h.ended with ⟨-, hlength⟩ | ⟨hsome, -⟩
    · exact hlength
    · exact absurd rfl hsome
  constructor
  · intro i hi
    rw [length_append] at hi
    by_cases hlt : i < got.length
    · rw [getElem?_append_left hlt]
      exact h.shown i hlt
    · rw [getElem?_append_right (by omega), ← hrest.shown _ (by omega)]
      congr 1
      omega
  · rw [length_append, ← Nat.add_assoc, hlength]
    rcases hrest.ended with ⟨hnone, hend⟩ | ⟨hsome, hend, hstop⟩
    · exact .inl ⟨hnone, by omega⟩
    · exact .inr ⟨hsome, by omega, hstop⟩

lemma congr {read : Bytes × Option Fault} (h : Reads g b n read) (hsame : ∀ i < n, f (a + i) = g (b + i)) :
    Reads f a n read := by
  have hle : read.1.length ≤ n := by rcases h.ended with ⟨-, hend⟩ | ⟨-, hend, -⟩ <;> omega
  refine ⟨fun i hi => (hsame i (by omega)).trans (h.shown i hi), ?_⟩
  rcases h.ended with hend | ⟨hsome, hend, hstop⟩
  · exact .inl hend
  · exact .inr ⟨hsome, hend, (hsame _ hend).trans hstop⟩

end Reads

section

variable {p : Physical} {r : Range}

/-- Checked ranges are in order, apart and inside the source. -/
lemma checkRanges_spec {size last : Nat} {rs : List Range} (h : checkRanges size last rs = true) :
    rs.Pairwise (fun a b => a.stop ≤ b.start) ∧ ∀ r ∈ rs, last ≤ r.start ∧ 0 < r.size ∧ r.offset + r.size ≤ size := by
  induction rs generalizing last with
  | nil => exact ⟨.nil, nofun⟩
  | cons r rs ih =>
  rw [checkRanges] at h
  split at h
  · cases h
  next hgood =>
  obtain ⟨hpair, hall⟩ := ih h
  refine ⟨pairwise_cons.mpr ⟨fun q hq => (hall q hq).1, hpair⟩, ?_⟩
  intro q hq
  rcases mem_cons.mp hq with rfl | hq
  · exact ⟨by omega, by omega, by omega⟩
  · have hq' := hall q hq
    unfold Range.stop at hq'
    exact ⟨by omega, hq'.2⟩

/-- The binary search finds the first range that ends behind the address. -/
lemma seek_eq (p : Physical) (a : Nat) : p.seek a = p.ranges.find? fun r => decide (a < r.stop) := by
  obtain ⟨hpair, hall⟩ := checkRanges_spec p.checked
  rw [Physical.seek, Search.search_findIdx (q := fun r => decide (a < r.stop)), find?_eq_getElem?_findIdx]
  · intro i hi
    rw [getElem?_eq_getElem hi]
    rfl
  · refine hpair.imp_of_mem fun {q r} _ hr hqr hq => ?_
    have hr' := hall r hr
    unfold Range.stop at hqr hq ⊢
    simp only [decide_eq_true_eq] at hq ⊢
    omega

/-- A byte inside the range that `seek` finds. -/
lemma byte_of_seek {a x : Nat} (h : p.seek a = some r) (hstart : r.start ≤ a) (hx : a ≤ x) (hstop : x < r.stop) :
    p.byte x = if p.source.bad (r.offset + x - r.start) then none
      else some (p.source.byte (r.offset + x - r.start)) := by
  rw [seek_eq, find?_eq_some_iff_append] at h
  obtain ⟨-, before, behind, hranges, hbef⟩ := h
  have hfind : (p.ranges.find? fun r => decide (r.start ≤ x ∧ x < r.stop)) = some r := by
    refine find?_eq_some_iff_append.mpr ⟨decide_eq_true ⟨by omega, hstop⟩, before, behind, hranges, ?_⟩
    intro q hq
    have hq := hbef q hq
    simp at hq ⊢
    omega
  rw [Physical.byte, hfind]
  rfl

/-- Outside the captured ranges there is no byte. -/
lemma byte_eq_none {a : Nat} (h : ∀ r, p.seek a = some r → a < r.start) : p.byte a = none := by
  have hfind : (p.ranges.find? fun r => decide (r.start ≤ a ∧ a < r.stop)) = none := by
    rw [find?_eq_none]
    intro q hq hin
    obtain ⟨hlo, hhi⟩ := of_decide_eq_true hin
    cases hseek : p.seek a with
    | none =>
      rw [seek_eq, find?_eq_none] at hseek
      exact hseek q hq (decide_eq_true hhi)
    | some r =>
    have hr := h r hseek
    rw [seek_eq, find?_eq_some_iff_append] at hseek
    obtain ⟨-, before, behind, hranges, hbef⟩ := hseek
    have hpair := (checkRanges_spec p.checked).1
    rw [hranges] at hq hpair
    rcases mem_append.mp hq with hq | hq
    · simpa [hhi] using hbef q hq
    · rcases mem_cons.mp hq with rfl | hq
      · omega
      · have hbeh := rel_of_pairwise_cons (pairwise_append.mp hpair).2.1 hq
        unfold Range.stop at hbeh
        omega
  rw [Physical.byte, hfind]
  rfl

/-- A read of the source inside one range. -/
lemma reads_source {a n : Nat} (h : p.seek a = some r) (hstart : r.start ≤ a) (hn : a + n ≤ r.stop) (fault : Fault) :
    ∃ got stop, p.source.readAt (r.offset + a - r.start : Nat) n = (got, stop) ∧
      ((got.length = n ∧ stop = .ok ∧ Reads p.byte a n (got, none)) ∨
        (stop = .failed ∧ Reads p.byte a n (got, some fault))) := by
  have hr : r ∈ p.ranges := by
    rw [seek_eq] at h
    exact mem_of_find?_eq_some h
  have hsize := ((checkRanges_spec p.checked).2 r hr).2.2
  have hbyte : ∀ i < n, p.byte (a + i) = if p.source.bad (r.offset + a - r.start + i) then none
      else some (p.source.byte (r.offset + a - r.start + i)) := by
    intro i hi
    rw [byte_of_seek h hstart (Nat.le_add_right a i) (by omega),
      show r.offset + (a + i) - r.start = r.offset + a - r.start + i by omega]
  unfold Range.stop at hn
  unfold Source.readAt
  rw [if_neg (by omega), Int.toNat_natCast, Nat.min_eq_left (by omega)]
  simp only [lt_irrefl, if_false]
  split
  next k hk =>
    obtain ⟨hbad, hlt, hgood⟩ := find?_range_eq_some.mp hk
    rw [mem_range] at hlt
    refine ⟨_, _, rfl, .inr ⟨rfl, ?_, .inr ⟨nofun, ?_⟩⟩⟩
    · intro i hi
      rw [length_window] at hi
      have hgood := hgood i hi
      rw [hbyte i (by omega), getElem?_window _ _ _ _ hi, if_neg (by simpa using hgood)]
    · rw [length_window, hbyte k hlt, if_pos hbad]
      exact ⟨hlt, rfl⟩
  next hk =>
    rw [find?_range_eq_none] at hk
    refine ⟨_, _, rfl, .inl ⟨length_window .., rfl, ?_, .inl ⟨rfl, length_window ..⟩⟩⟩
    intro i hi
    rw [length_window] at hi
    have hgood := hk i hi
    rw [hbyte i hi, getElem?_window _ _ _ _ hi, if_neg (by simpa using hgood)]

/-- The loop over the ranges delivers the bytes up to the first that is missing. -/
lemma Physical.reads_readLoop (p : Physical) {turns n : Nat} (hturns : n ≤ turns) (a : Nat) :
    Reads p.byte a n (p.readLoop turns a n) := by
  induction turns generalizing n a with
  | zero =>
    obtain rfl : n = 0 := by omega
    exact .nil
  | succ turns ih =>
  cases n with
  | zero => exact .nil
  | succ n =>
  have hmissing : (∀ r, p.seek a = some r → a < r.start) → ∀ f, Reads p.byte a (n + 1) ([], some f) :=
    fun h f => .none_read (byte_eq_none h)
  rw [readLoop]
  split
  next hseek => exact hmissing (fun r hr => by rw [hseek] at hr; cases hr) _
  next r hseek =>
  split
  next hgap =>
    refine hmissing (fun q hq => ?_) _
    rw [hseek] at hq
    cases hq
    exact hgap
  next hins =>
  have hstop : a < r.stop := by
    rw [seek_eq] at hseek
    simpa using find?_some hseek
  generalize hcount : min (n + 1) (r.stop - a) = count
  obtain ⟨got, stop, hread, hcases⟩ := reads_source hseek (by omega) (show a + count ≤ r.stop by omega)
    ⟨.sourceError, a, a, .physical⟩
  simp only [hread]
  rcases hcases with ⟨hlength, rfl, hreads⟩ | ⟨rfl, hreads⟩
  · simp only [hlength, ne_eq, not_true_eq_false, decide_false, Bool.or_self, Bool.false_eq_true, if_false]
    exact hreads.append (by omega) (ih (by omega) _)
  · simp only [Bool.or_true, if_true]
    exact hreads.failed (by omega) _

/-- A physical read delivers the bytes up to the first that is missing. -/
lemma Physical.reads_readAt (p : Physical) (a n : Nat) : Reads p.byte a n (p.readAt a n) := by
  rw [readAt, if_neg (by omega), Int.toNat_natCast]
  exact p.reads_readLoop le_rfl a

end

/-! ## Pages -/

section

variable {x : X86} {va v : Nat} {t t' : Translation} {level : Level} {address width : Nat}

/-- What an entry holds does not depend on what it is read for. -/
lemma entry_congr (h : x.entry t level address width = .ok (t', v)) (u : Translation) :
    ∃ u', x.entry u level address width = .ok (u', v) := by
  unfold X86.entry at h ⊢
  split at h
  · cases h
  next data hread =>
  simp only at h ⊢
  split at h
  · cases h
  next hpresent =>
  obtain ⟨-, rfl⟩ := Checked.ok_pair h
  exact ⟨_, if_neg hpresent⟩

/-- The addresses of a page are translated to neighbours. -/
lemma translate_page (h : x.translate va = .ok t) : va % t.pageSize < t.pageSize ∧
    ∀ i < t.pageSize - va % t.pageSize, ∃ u, x.translate (va + i) = .ok u ∧ u.physical = t.physical + i := by
  unfold X86.translate at h ⊢
  split at h
  · cases h
  next hspace =>
  cases hpae : x.pae with
  | true =>
    simp only [hpae, if_true] at h ⊢
    obtain ⟨⟨t1, pdpte⟩, hpdpte, h⟩ := Checked.bind_ok h
    obtain ⟨⟨t2, pde⟩, hpde, h⟩ := Checked.bind_ok h
    simp only at hpde h
    split at h
    next hlarge =>
      cases h
      simp only
      refine ⟨by omega, fun i hi => ?_⟩
      obtain ⟨u1, hu1⟩ := entry_congr hpdpte { virtual := va + i }
      obtain ⟨u2, hu2⟩ := entry_congr hpde u1
      rw [if_neg (by omega), show (va + i) / 2 ^ 30 = va / 2 ^ 30 by omega,
        show (va + i) / 2 ^ 21 = va / 2 ^ 21 by omega]
      simp only [hu1, hu2, bind, Except.bind, if_pos hlarge]
      exact ⟨_, rfl, by simp only; omega⟩
    next hsmall =>
    obtain ⟨⟨t3, pte⟩, hpte, h⟩ := Checked.bind_ok h
    cases h
    simp only
    refine ⟨by omega, fun i hi => ?_⟩
    obtain ⟨u1, hu1⟩ := entry_congr hpdpte { virtual := va + i }
    obtain ⟨u2, hu2⟩ := entry_congr hpde u1
    obtain ⟨u3, hu3⟩ := entry_congr hpte u2
    rw [if_neg (by omega), show (va + i) / 2 ^ 30 = va / 2 ^ 30 by omega, show (va + i) / 2 ^ 21 = va / 2 ^ 21 by omega,
      show (va + i) / 2 ^ 12 = va / 2 ^ 12 by omega]
    simp only [hu1, hu2, hu3, bind, Except.bind, if_neg hsmall]
    exact ⟨_, rfl, by simp only; omega⟩
  | false =>
  simp only [hpae, Bool.false_eq_true, if_false] at h ⊢
  obtain ⟨⟨t1, pde⟩, hpde, h⟩ := Checked.bind_ok h
  simp only at h
  split at h
  next hlarge =>
    split at h
    · cases h
    next hlow =>
    cases h
    simp only
    refine ⟨by omega, fun i hi => ?_⟩
    obtain ⟨u1, hu1⟩ := entry_congr hpde { virtual := va + i }
    rw [if_neg (by omega), show (va + i) / 2 ^ 22 = va / 2 ^ 22 by omega]
    simp only [hu1, bind, Except.bind, if_pos hlarge, if_neg hlow]
    exact ⟨_, rfl, by simp only; omega⟩
  next hsmall =>
  obtain ⟨⟨t2, pte⟩, hpte, h⟩ := Checked.bind_ok h
  cases h
  simp only
  refine ⟨by omega, fun i hi => ?_⟩
  obtain ⟨u1, hu1⟩ := entry_congr hpde { virtual := va + i }
  obtain ⟨u2, hu2⟩ := entry_congr hpte u1
  rw [if_neg (by omega), show (va + i) / 2 ^ 22 = va / 2 ^ 22 by omega, show (va + i) / 2 ^ 12 = va / 2 ^ 12 by omega]
  simp only [hu1, hu2, bind, Except.bind, if_neg hsmall]
  exact ⟨_, rfl, by simp only; omega⟩

/-- The loop over the pages delivers the bytes up to the first that is missing. -/
lemma X86.reads_readLoop (x : X86) {turns n : Nat} (hturns : n ≤ turns) (va : Nat) :
    Reads x.byte va n (x.readLoop turns va n) := by
  induction turns generalizing n va with
  | zero =>
    obtain rfl : n = 0 := by omega
    exact .nil
  | succ turns ih =>
  cases n with
  | zero => exact .nil
  | succ n =>
  rw [readLoop]
  split
  next t f hfault => exact .none_read (by rw [X86.byte, hfault]; rfl)
  next t htranslate =>
  obtain ⟨hoff, hpage⟩ := translate_page htranslate
  simp only
  generalize hcount : min (n + 1) (t.pageSize - va % t.pageSize) = count
  have hreads : Reads x.byte va count (x.physical.readAt t.physical count) := by
    refine (x.physical.reads_readAt t.physical count).congr fun i hi => ?_
    obtain ⟨u, hu, hphys⟩ := hpage i (by omega)
    rw [X86.byte, hu, ← hphys]
    rfl
  split
  next got f hread =>
    rw [hread] at hreads
    exact hreads.failed (by omega) _
  next got hread =>
    rw [hread] at hreads
    exact hreads.append (by omega) (ih (by omega) _)

end

/-- A read of a range inside the address space gives for each address the captured byte at its translation; it
is short only with a fault, and only where the translation or the physical read of the next address fails.  A
range that passes the end of the space is refused as a whole. -/
theorem readAt_pointwise (x : X86) (va len : Nat) :
    (va + len ≤ 2 ^ 32 →
      (x.readAt va len).1.length ≤ len ∧
      (∀ i < (x.readAt va len).1.length, ∃ t, x.translate (va + i) = .ok t ∧
        x.physical.byte t.physical = (x.readAt va len).1[i]?) ∧
      ((x.readAt va len).1.length < len → (x.readAt va len).2 ≠ none ∧
        ∀ t, x.translate (va + (x.readAt va len).1.length) = .ok t → (x.physical.readAt t.physical 1).2 ≠ none)) ∧
    (2 ^ 32 < va + len →
      (x.readAt va len).1 = [] ∧ ∃ f, (x.readAt va len).2 = some f ∧ f.kind = .invalidAddress) := by
  refine ⟨fun h => ?_, fun h => ?_⟩
  case refine_2 =>
    rw [X86.readAt, if_pos (by omega)]
    exact ⟨rfl, _, rfl, rfl⟩
  have hreads : Reads x.byte va len (x.readAt va len) := by
    rw [X86.readAt, if_neg (by omega), Int.toNat_natCast]
    exact x.reads_readLoop le_rfl va
  generalize x.readAt va len = read at hreads
  refine ⟨?_, ?_, ?_⟩
  · rcases hreads.ended with ⟨-, hend⟩ | ⟨-, hend, -⟩ <;> omega
  · intro i hi
    have hbyte := hreads.shown i hi
    rw [getElem?_eq_getElem hi, X86.byte] at hbyte
    obtain ⟨t, ht, hphys⟩ := Option.bind_eq_some_iff.mp hbyte
    cases htranslate : x.translate (va + i) with
    | error e => rw [htranslate] at ht; cases ht
    | ok u =>
    rw [htranslate] at ht
    cases ht
    exact ⟨t, rfl, by rw [hphys, getElem?_eq_getElem hi]⟩
  intro hshort
  rcases hreads.ended with ⟨-, hend⟩ | ⟨hsome, -, hnone⟩
  · omega
  refine ⟨hsome, fun t ht => ?_⟩
  rw [X86.byte, ht] at hnone
  rcases (x.physical.reads_readAt t.physical 1).ended with ⟨-, hone⟩ | ⟨hfault, -⟩
  · have hfirst := (x.physical.reads_readAt t.physical 1).shown 0 (by omega)
    rw [Nat.add_zero, getElem?_eq_getElem (by omega)] at hfirst
    exact absurd (hfirst.symm.trans hnone) nofun
  · exact hfault

/-- One large page with a table of its own, captured as a whole. -/
def onePage : X86 where
  physical := ⟨{ size := 2 ^ 22, byte := fun i => if i % 4096 = 4092 then 0x81 else 0 }, [⟨0, 0, 2 ^ 22⟩], by decide⟩
  dtb := 0
  pae := false
  valid := by decide

/-- A range that passes the end of the address space is refused, though its first byte can be read. -/
theorem readAt_pointwise_end : (onePage.readAt (2 ^ 32 - 1) 2).1 = [] ∧
    (onePage.translate (2 ^ 32 - 1)).toOption.map (fun t => (onePage.physical.readAt t.physical 1).2) = some none := by
  decide +kernel

/-- The last four bytes of the address space are the entry that maps them, and a longer read is refused. -/
theorem readAt_pointwise_onePage :
    (onePage.readAt (2 ^ 32 - 4 : Nat) 4).1 = [0x81, 0, 0, 0] ∧
    (∀ i < 4, ∃ t, onePage.translate (2 ^ 32 - 4 + i) = .ok t ∧
      onePage.physical.byte t.physical = ([0x81, 0, 0, 0] : Bytes)[i]?) ∧
    (onePage.readAt (2 ^ 32 - 4 : Nat) 5).1 = [] := by
  have hread : (onePage.readAt (2 ^ 32 - 4 : Nat) 4).1 = [0x81, 0, 0, 0] := by decide +kernel
  obtain ⟨-, hbytes, -⟩ := (readAt_pointwise onePage (2 ^ 32 - 4) 4).1 (by decide)
  rw [hread] at hbytes
  exact ⟨hread, hbytes, ((readAt_pointwise onePage (2 ^ 32 - 4) 5).2 (by decide)).1⟩

end Trex.Capture
