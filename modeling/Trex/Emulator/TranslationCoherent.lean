import Trex.Emulator.TranslationProof

/-!
# The translation cache is invisible

An entry of a cache is a path of the walk (`Coherent`) while the version is the one it was filled at
(`CacheOK`).  A call raises the version or leaves the subscribed pages (`exec_changes`), and a write of a
register that the walk reads clears the cache.
-/

namespace Trex.Emulator.Arm64

open List Function Machine Cpu

open Trex.Bits
open AddressSpace (Inv)

/-! ## Calls on an address space -/

/-- A change of the memory moves the version, or the tracked pages keep their bytes. -/
structure Changes (m m' : AddressSpace) : Prop where
  inv : Inv m'
  version : m'.trackedVersion = m.trackedVersion + 1 ∨ (m'.trackedVersion = m.trackedVersion ∧ Agrees m m')

section

variable {m m' : AddressSpace}

lemma Quiet.changes (h : Quiet m m') : Changes m m' := ⟨h.inv, .inr ⟨h.version, h.agrees⟩⟩

/-- A write moves the version or meets no tracked page. -/
lemma trackWrite_cases (hi : Inv m) (a size : Nat) :
    (m.trackWrite a size).trackedVersion = m.trackedVersion + 1 ∨
      ((m.trackWrite a size).trackedVersion = m.trackedVersion ∧
        ∀ x, a ≤ x → x < a + size → x / 2 ^ 12 ∉ m.trackedPages) := by
  unfold AddressSpace.trackWrite
  split
  next hnone =>
    refine .inr ⟨rfl, ?_⟩
    intro x hlo hhi hmem
    rcases hnone with hsize | hpages
    · omega
    · rw [hpages] at hmem
      cases hmem
  simp only
  split
  · exact .inl rfl
  next huntracked =>
  refine .inr ⟨rfl, ?_⟩
  intro x hlo hhi hmem
  apply huntracked
  rw [any_eq_true]
  refine ⟨x / 2 ^ 12 - a / 2 ^ 12, mem_range.mpr (by omega), ?_⟩
  have hpage : a / 2 ^ 12 + (x / 2 ^ 12 - a / 2 ^ 12) = x / 2 ^ 12 := by omega
  rw [hpage, AddressSpace.isTracked, hi.filter _ hmem]
  simpa using hmem

/-- The states around `n` operations: the version moves up by at most `n`, and where it stays the
mappings and the subscribed pages do. -/
structure Later (n : Nat) (m m' : AddressSpace) : Prop where
  inv : Inv m'
  tracked : ∀ page ∈ m.trackedPages, page ∈ m'.trackedPages
  lower : m.trackedVersion ≤ m'.trackedVersion
  upper : m'.trackedVersion ≤ m.trackedVersion + n
  same : m'.trackedVersion = m.trackedVersion →
    m'.mapping = m.mapping ∧ ∀ x, x / 2 ^ 12 ∈ m.trackedPages → m'.view x = m.view x

lemma Later.raised (hi : Inv m') (htracked : m'.trackedPages = m.trackedPages)
    (hver : m'.trackedVersion = m.trackedVersion + 1) : Later 1 m m' :=
  ⟨hi, by rw [htracked]; exact fun _ h => h, by omega, by omega, by omega⟩

lemma Quiet.later (h : Quiet m m') (hmap : m'.mapping = m.mapping) : Later 1 m m' :=
  ⟨h.inv, h.tracked, h.version.ge, by rw [h.version]; omega, fun _ => ⟨hmap, fun x _ => congrFun h.view x⟩⟩

/-- A call moves the version by one at most. -/
lemma exec_later (hi : Inv m) (c : Call) : Later 1 m (m.exec c).2 := by
  have hinv := (AddressSpace.exec_spec hi c).1
  have hsame := (Quiet.refl hi).later rfl
  cases c with
  | map a data access =>
    rcases AddressSpace.exec_map hi a data access with ⟨-, hexec⟩ | ⟨-, e, hexec⟩ <;> rw [hexec] at hinv ⊢
    · exact .raised hinv rfl rfl
    · exact hsame
  | unmap a =>
    rcases AddressSpace.exec_unmap m a with ⟨i, r, -, -, hexec⟩ | ⟨-, e, hexec⟩ <;> rw [hexec] at hinv ⊢
    · exact .raised hinv rfl rfl
    · exact hsame
  | protect a size access =>
    rcases AddressSpace.exec_protect hi a size access with ⟨-, prev, -, hexec⟩ | ⟨-, e, hexec⟩ <;>
      rw [hexec] at hinv ⊢
    · exact .raised hinv rfl rfl
    · exact hsame
  | readMemory a size access =>
    obtain ⟨cache, hi', hexec⟩ := AddressSpace.exec_readMemory hi a size access
    rw [hexec]
    exact Quiet.later ⟨hi', fun _ h => h, rfl, rfl⟩ rfl
  | writeMemory a source =>
    rcases AddressSpace.exec_writeMemory hi a source with ⟨-, regs, hshape, hview, hexec⟩ | ⟨-, e, hexec⟩ <;>
      rw [hexec] at hinv ⊢
    · rcases trackWrite_cases hi a.toNat source.length with hraised | ⟨hver, huntracked⟩
      · exact .raised hinv rfl hraised
      refine ⟨hinv, fun _ h => h, hver.ge, (by rw [hver]; omega), ?_⟩
      refine fun _ => ⟨AddressSpace.mapping_of_shape regs hshape, ?_⟩
      intro x hx
      refine (hview x).trans (AddressSpace.overlay_of_not_mem ?_)
      rintro ⟨hlo, hhi⟩
      exact huntracked x hlo hhi hx
    · exact hsame
  | checkMemory a size access =>
    rcases AddressSpace.exec_checkMemory m a size access with ⟨-, hexec⟩ | ⟨e, -, hexec⟩ <;> rw [hexec] <;>
      exact hsame

/-- A call moves the version or leaves the tracked pages. -/
lemma exec_changes (hi : Inv m) (c : Call) : Changes m (m.exec c).2 := by
  have h := exec_later hi c
  have hlower := h.lower
  have hupper := h.upper
  refine ⟨h.inv, ?_⟩
  by_cases hver : (m.exec c).2.trackedVersion = m.trackedVersion
  · exact .inr ⟨hver, h.inv, h.tracked, (h.same hver).2⟩
  · exact .inl (by omega)

end

/-! ## Entries -/

/-- The entry gives what a walk gives at each address of its page. -/
def Coherent (r : Control) (m : AddressSpace) (e : TranslationEntry) : Prop :=
  ∀ address : UInt64, address >>> 12 = e.virtual → ∃ level table,
    start r address = .ok (.tables (virtualAddress r address) level table) ∧
    Path r m address (virtualAddress r address) e.access (e.physical ||| (address &&& 4095), e.attributes) level
      { table := table }

section

variable {r : Control} {m m' : AddressSpace} {c : Cpu} {e : TranslationEntry} {a : UInt64} {access : Access}

/-- A slot stays coherent as long as the tracked pages keep their bytes. -/
lemma Coherent.mono (hi : Inv m) (h : Agrees m m') (hc : Coherent r m e) : Coherent r m' e := by
  intro a hpage
  obtain ⟨lvl, table, hstart, hpath⟩ := hc a hpage
  exact ⟨lvl, table, hstart, hpath.mono hi h⟩

/-- A coherent slot gives what the walk gives. -/
lemma Coherent.walk_eq (hi : Inv m) (hc : Coherent c.control m e) (hpage : a >>> 12 = e.virtual) :
    (c.walk m a e.access).1 = .ok (e.physical ||| (a &&& 4095), e.attributes) := by
  obtain ⟨lvl, table, hstart, hpath⟩ := hc a hpage
  have hlevel := (start_eq_tables_iff.mp hstart).2.2.1
  unfold walk
  rw [hstart]
  exact hpath.walkLoop_eq hi _ _ m (by omega) (.refl hi)

lemma virtualAddress_offset (r : Control) (a : UInt64) :
    virtualAddress r a &&& 4095 = a &&& 4095 := by
  apply ext
  intro i _
  rw [bit_and, bit_and, bit_offsetMask]
  rcases lt_or_ge i 12 with hlow | hhigh
  · rw [virtualAddress_low r a hlow]
  · have hnot : ¬ i < 12 := by omega
    simp [hnot]

lemma start_ne_direct (h : r.sctlr &&& 1 ≠ 0) {physical attrs : UInt64} :
    start r a ≠ .ok (.direct physical attrs) := by
  unfold start
  rw [if_neg h]
  simp only
  repeat' split
  all_goals nofun

/-- What a walk with the cache enabled returns may be kept. -/
lemma coherent_of_walk (hi : Inv m) (hon : c.system 0 &&& 1 ≠ 0) (hen : c.disableTranslationCache = false)
    {pa attrs : UInt64} (hwalk : c.walk m a access = (.ok (pa, attrs), m')) :
    Coherent c.control m' ⟨a >>> 12, pa &&& ~~~4095, attrs, access⟩ := by
  unfold walk at hwalk
  split at hwalk
  · cases hwalk
  next hstart => exact absurd hstart (start_ne_direct hon)
  next va lvl table hstart =>
  obtain ⟨-, rfl, hlevel, htable⟩ := start_eq_tables_iff.mp hstart
  rw [hen, Bool.not_false] at hwalk
  have hpath := path_of_walkLoop (r := c.control) (4 - lvl) lvl { table := table } m (by omega)
    (aligned_and _ _ htable) hi (by rw [hwalk])
  rw [hwalk] at hpath
  intro a' hpage
  have hsame : a >>> 12 = a' >>> 12 := hpage.symm
  refine ⟨lvl, table, start_of_page hstart hsame, ?_⟩
  show Path _ _ _ _ _ ((pa &&& ~~~4095) ||| (a' &&& 4095), attrs) _ _
  rw [← virtualAddress_offset c.control a']
  exact hpath.page (virtualAddress_of_page c.control hsame)

end

/-! ## The cache of a processor -/

/-- The cache is filled at some version of its address space, and at the present one its entries
are coherent. -/
def CacheOK (spaces : List AddressSpace) (c : Cpu) : Prop :=
  ∀ i, c.translations.memory = some i → ∃ m, spaces[i]? = some m ∧ ∃ k ≤ m.trackedVersion,
    c.translations.version = UInt64.ofNat k ∧
      (k = m.trackedVersion → ∀ slot e, c.translations.entries slot = some e → Coherent c.control m e)

section

variable {spaces : List AddressSpace} {c c' : Cpu} {i : Nat} {m m' : AddressSpace}

/-- A change of the memory keeps the caches coherent. -/
lemma CacheOK.set (hm : spaces[i]? = some m) (hi : Inv m) (hchanges : Changes m m') (h : CacheOK spaces c) :
    CacheOK (spaces.set i m') c := by
  obtain ⟨hlen, -⟩ := List.getElem?_eq_some_iff.mp hm
  intro j hj
  obtain ⟨q, hq, k, hk, hver, hents⟩ := h j hj
  by_cases hij : i = j
  · subst hij
    rw [hm] at hq
    cases hq
    refine ⟨m', getElem?_set_self hlen, k, ?_⟩
    rcases hchanges.version with hraised | ⟨hsame, hagrees⟩
    · exact ⟨by omega, hver, fun hcur => by omega⟩
    · refine ⟨by omega, hver, ?_⟩
      intro hcur slot e he
      exact (hents (by omega) slot e he).mono hi hagrees
  · exact ⟨q, by rw [getElem?_set_ne hij]; exact hq, k, hk, hver, hents⟩

lemma CacheOK.append (h : CacheOK spaces c) (m' : AddressSpace) : CacheOK (spaces ++ [m']) c := by
  intro j hj
  obtain ⟨q, hq, hrest⟩ := h j hj
  obtain ⟨hlen, -⟩ := List.getElem?_eq_some_iff.mp hq
  exact ⟨q, by rw [getElem?_append_left hlen]; exact hq, hrest⟩

lemma CacheOK.cleared (h : c.translations.memory = none) : CacheOK spaces c := by
  intro j hj
  rw [h] at hj
  cases hj

section

variable (h : CacheOK spaces c)

include h

lemma CacheOK.of_eq (ht : c'.translations = c.translations) (hc : c'.control = c.control) : CacheOK spaces c' := by
  intro j hj
  rw [ht] at hj ⊢
  rw [hc]
  exact h j hj

lemma CacheOK.setSystem (j : Nat) (v : UInt64) : CacheOK spaces (c.setSystem j v) := by
  unfold Cpu.setSystem
  split
  · exact .cleared rfl
  next hj =>
  refine h.of_eq rfl ?_
  simp only [Cpu.control, Control.mk.injEq, and_true]
  refine ⟨?_, ?_, ?_, ?_, ?_⟩ <;> exact update_of_ne (by omega) _ _

lemma CacheOK.setRegister (name : String) (v : UInt64) : CacheOK spaces (c.setRegister name v) := by
  unfold Cpu.setRegister
  simp only
  split
  · exact h.setSystem _ v
  · split
    · split
      · exact h
      · exact .cleared rfl
    · exact h

lemma CacheOK.systemWrite (enc : Nat) (v : UInt64) : CacheOK spaces (c.systemWrite enc v) := by
  unfold Cpu.systemWrite
  split
  · exact h
  simp only
  split
  · exact h
  · split
    · exact h
    · exact h.setSystem _ v

lemma CacheOK.setPar (v : UInt64) : CacheOK spaces (c.setPar v) := by
  refine h.of_eq rfl ?_
  simp only [Cpu.control, Cpu.setPar, Control.mk.injEq, and_true]
  refine ⟨?_, ?_, ?_, ?_, ?_⟩ <;> exact update_of_ne (by omega) _ _

end

lemma cacheOK_new : CacheOK spaces new := by
  have hemp : CacheOK spaces {} := .cleared rfl
  exact (((((hemp.setRegister _ _).setRegister _ _).setRegister _ _).setRegister _ _).setRegister _ _).setRegister _ _

/-- The slots that a lookup uses are coherent. -/
lemma coherent_cacheFor (hm : spaces[i]? = some m) (h : CacheOK spaces c) (hver : m.trackedVersion < 2 ^ 64)
    {slot : Nat} {e : TranslationEntry}
    (he : (cacheFor c.translations i (trackedWriteVersion m)).entries slot = some e) : Coherent c.control m e := by
  unfold cacheFor at he
  split at he
  · cases he
  next hkept =>
  simp only [not_or, not_not] at hkept
  obtain ⟨q, hq, k, hk, hfild, hents⟩ := h i hkept.1
  rw [hm] at hq
  cases hq
  -- the 64-bit counter has not come round
  have hcur : k = m.trackedVersion := by
    have heq := congrArg UInt64.toNat (hfild.symm.trans hkept.2)
    rw [trackedWriteVersion, UInt64.toNat_ofNat', UInt64.toNat_ofNat'] at heq
    omega
  exact hents hcur slot e he

lemma cacheFor_memory (t : TranslationCache) (ram : Nat) (version : UInt64) :
    (cacheFor t ram version).memory = some ram ∧ (cacheFor t ram version).version = version := by
  unfold cacheFor
  split
  · exact ⟨rfl, rfl⟩
  next hkept =>
    simp only [not_or, not_not] at hkept
    exact hkept

lemma CacheOK.current (hm : spaces[i]? = some m) (hmem : c.translations.memory = some i)
    (hver : c.translations.version = trackedWriteVersion m)
    (hents : ∀ slot e, c.translations.entries slot = some e → Coherent c.control m e) : CacheOK spaces c := by
  intro j hj
  rw [hmem] at hj
  cases hj
  exact ⟨m, hm, m.trackedVersion, le_rfl, hver, fun _ => hents⟩

lemma quiet_walk (hi : Inv m) (c : Cpu) (a : UInt64) (access : Access) :
    Quiet m (c.walk m a access).2 := by
  unfold walk
  split
  · exact .refl hi
  · exact .refl hi
  · exact quiet_walkLoop _ _ _ _ _ _ _ _ _ hi

section

variable (hm : spaces[i]? = some m) (hi : Inv m) (h : CacheOK spaces c) (hver : m.trackedVersion < 2 ^ 64)

include hm hi h hver

/-- A translation through the cache is the walk. -/
lemma cachedTranslate_spec (hon : c.system 0 &&& 1 ≠ 0) (hen : c.disableTranslationCache = false)
    (a : UInt64) (access : Access) : (c.cachedTranslate i m a access).1 = (c.walk m a access).1 ∧
      Quiet m (c.cachedTranslate i m a access).2.2 ∧
      CacheOK (spaces.set i (c.cachedTranslate i m a access).2.2) (c.cachedTranslate i m a access).2.1 := by
  obtain ⟨hlen, -⟩ := List.getElem?_eq_some_iff.mp hm
  have hcoh : ∀ slot e, (cacheFor c.translations i (trackedWriteVersion m)).entries slot = some e →
      Coherent c.control m e := fun slot e he => coherent_cacheFor hm h hver he
  obtain ⟨hmem, hfild⟩ := cacheFor_memory c.translations i (trackedWriteVersion m)
  unfold cachedTranslate
  simp only
  generalize cacheFor c.translations i (trackedWriteVersion m) = t at hcoh hmem hfild
  have hset : ∀ q : AddressSpace, (spaces.set i q)[i]? = some q := fun q => getElem?_set_self hlen
  split
  next e hhit =>
    obtain ⟨hent, hkey⟩ := Option.filter_eq_some_iff.mp hhit
    obtain ⟨hpage, hacc⟩ := of_decide_eq_true hkey
    have hwalk := (hcoh _ e hent).walk_eq hi hpage.symm
    rw [hacc] at hwalk
    exact ⟨hwalk.symm, .refl hi, .current (hset m) hmem hfild hcoh⟩
  next hmiss =>
  have hquiet := quiet_walk hi c a access
  have hwalk : walk { c with translations := t } m a access = c.walk m a access := rfl
  rw [hwalk]
  cases hres : c.walk m a access with
  | mk result m' =>
  rw [hres] at hquiet
  have hmoved : ∀ slot e, t.entries slot = some e → Coherent c.control m' e :=
    fun slot e he => (hcoh slot e he).mono hi hquiet.agrees
  have hfild' : t.version = trackedWriteVersion m' := by
    rw [hfild, trackedWriteVersion, trackedWriteVersion, hquiet.version]
  cases result with
  | error f => exact ⟨rfl, hquiet, .current (hset m') hmem hfild' hmoved⟩
  | ok found =>
  obtain ⟨pa, attrs⟩ := found
  refine ⟨rfl, hquiet, .current (hset m') hmem hfild' ?_⟩
  intro slot e he
  by_cases hslot : slot = entryIndex (a >>> 12) access
  · subst hslot
    simp only [update_self, Option.some.injEq] at he
    subst he
    exact coherent_of_walk hi hon hen hres
  · simp only [update_of_ne hslot] at he
    exact hmoved slot e he

/-- A translation is the walk, and keeps the cache coherent. -/
lemma translate_spec (a : UInt64) (access : Access) :
    (c.translate i m a access).1 = (c.walk m a access).1 ∧ Quiet m (c.translate i m a access).2.2 ∧
      CacheOK (spaces.set i (c.translate i m a access).2.2) (c.translate i m a access).2.1 := by
  unfold Cpu.translate
  split
  next hon => exact cachedTranslate_spec hm hi h hver hon.1 (by simpa using hon.2) a access
  · have hquiet := quiet_walk hi c a access
    exact ⟨rfl, hquiet, h.set hm hi hquiet.changes⟩

end

end

/-! ## Runs -/

/-- The invariant after `n` operations: no version is above `n`, and the caches are coherent. -/
structure MachineOK (n : Nat) (s : Machine) : Prop where
  spaces : ∀ m ∈ s.spaces, Inv m ∧ m.trackedVersion ≤ n
  cpus : ∀ c ∈ s.cpus, CacheOK s.spaces c

namespace MachineOK

variable {n : Nat} {s : Machine}

section

variable (h : MachineOK n s)

include h

lemma later : MachineOK (n + 1) s := by
  refine ⟨?_, h.cpus⟩
  intro m hm
  obtain ⟨hi, hver⟩ := h.spaces m hm
  exact ⟨hi, by omega⟩

lemma spaces_append {m' : AddressSpace} (hm' : Inv m' ∧ m'.trackedVersion ≤ n) :
    MachineOK n { s with spaces := s.spaces ++ [m'] } := by
  refine ⟨?_, fun c hc => (h.cpus c hc).append m'⟩
  intro m hm
  rcases mem_append.mp hm with hm | hm
  · exact h.spaces m hm
  · rw [mem_singleton.mp hm]
    exact hm'

lemma spaces_set {i : Nat} {m m' : AddressSpace} (hm : s.spaces[i]? = some m) (hchanges : Changes m m')
    : MachineOK (n + 1) { s with spaces := s.spaces.set i m' } := by
  obtain ⟨hi, hver⟩ := h.spaces m (mem_of_getElem? hm)
  refine ⟨?_, fun c hc => (h.cpus c hc).set hm hi hchanges⟩
  intro q hq
  rcases mem_or_eq_of_mem_set hq with hq | rfl
  · exact h.later.spaces q hq
  · refine ⟨hchanges.inv, ?_⟩
    rcases hchanges.version with hraised | ⟨hsame, -⟩ <;> omega

lemma cpus_append {c' : Cpu} (hc' : CacheOK s.spaces c') : MachineOK n { s with cpus := s.cpus ++ [c'] } := by
  refine ⟨h.spaces, ?_⟩
  intro c hc
  rcases mem_append.mp hc with hc | hc
  · exact h.cpus c hc
  · rw [mem_singleton.mp hc]
    exact hc'

lemma modifyCpu (k : Nat) {f : Cpu → Cpu} (hf : ∀ c, CacheOK s.spaces c → CacheOK s.spaces (f c))
    : MachineOK n (s.modifyCpu k f) := by
  refine ⟨h.spaces, ?_⟩
  intro c hc
  obtain ⟨j, hj⟩ := getElem?_of_mem hc
  change (s.cpus.modify k f)[j]? = some c at hj
  rw [getElem?_modify] at hj
  obtain ⟨c0, hc0, rfl⟩ := Option.map_eq_some_iff.mp hj
  have hold := h.cpus c0 (mem_of_getElem? hc0)
  show CacheOK s.spaces (if k = j then f c0 else c0)
  split
  · exact hf c0 hold
  · exact hold

lemma callSpace (i : Nat) (c : Call) : MachineOK (n + 1) (s.callSpace i c).2 := by
  unfold Machine.callSpace
  split
  · exact h.later
  next m hm => exact h.spaces_set hm (exec_changes (h.spaces m (mem_of_getElem? hm)).1 c)

lemma translate (hn : n < 2 ^ 64) (k i : Nat) (a : UInt64) (access : Access) :
    MachineOK (n + 1) (s.performCpu k i (.translate a access)).2 := by
  unfold performCpu
  simp only
  split
  next c m hc hm =>
    obtain ⟨hi, hver⟩ := h.spaces m (mem_of_getElem? hm)
    obtain ⟨-, hquiet, hcache⟩ := translate_spec hm hi (h.cpus c (mem_of_getElem? hc)) (by omega) a access
    have hset := h.spaces_set hm hquiet.changes
    refine ⟨hset.spaces, ?_⟩
    intro q hq
    rcases mem_or_eq_of_mem_set hq with hq | rfl
    · exact hset.cpus q hq
    · exact hcache
  · exact h.later

lemma performCpu (hn : n < 2 ^ 64) (k i : Nat) (op : CpuOp) : MachineOK (n + 1) (s.performCpu k i op).2 := by
  cases op with
  | translate a access => exact h.translate hn k i a access
  | call c => exact h.callSpace i c
  | systemWrite encoding v => exact (h.modifyCpu k fun c hc => hc.systemWrite encoding v).later
  | setPar v => exact (h.modifyCpu k fun c hc => hc.setPar v).later
  | tlbi => exact (h.modifyCpu k fun c _ => .cleared rfl).later

/-- One operation keeps the invariant. -/
lemma perform (hn : n < 2 ^ 64) (o : Operation) : MachineOK (n + 1) (s.perform o).2 := by
  cases o with
  | create limit => exact (h.spaces_append ⟨AddressSpace.inv_new _, Nat.zero_le _⟩).later
  | cloneSpace i =>
    unfold Machine.perform
    simp only
    split
    · exact h.later
    next m hm =>
      have hi := (h.spaces m (mem_of_getElem? hm)).1
      exact (h.spaces_append ⟨AddressSpace.inv_clone hi, Nat.zero_le _⟩).later
  | call i c => exact h.callSpace i c
  | newCpu => exact (h.cpus_append cacheOK_new).later
  | cloneCpu k =>
    unfold Machine.perform
    simp only
    split
    · exact h.later
    · exact (h.cpus_append (.cleared rfl)).later
  | setRegister k name v => exact (h.modifyCpu k fun c hc => hc.setRegister name v).later
  | setDisableTranslationCache k b =>
    exact (h.modifyCpu k (f := fun c => { c with disableTranslationCache := b }) fun c hc => hc.of_eq rfl rfl).later
  | cpu k i op => exact h.performCpu hn k i op

end

/-- A step of a processor, by induction on what it does. -/
lemma runProgram (k i : Nat) (p : Program) :
    ∀ {n : Nat} {s : Machine}, MachineOK n s → n + (runProgram k i p s).2 ≤ 2 ^ 64 →
      MachineOK (n + (runProgram k i p s).2) (runProgram k i p s).1 := by
  induction p with
  | done =>
    intro n s h _
    exact h
  | perform op next ih =>
  intro n s h hn
  simp only [Machine.runProgram] at hn ⊢
  have hrest := ih (s.performCpu k i op).1 (h.performCpu (by omega) k i op) (by omega)
  rw [add_assoc, add_comm 1] at hrest
  exact hrest

/-- One action keeps the invariant. -/
lemma act (h : MachineOK n s) (action : Action) (hn : n + (s.act action).2 ≤ 2 ^ 64) :
    MachineOK (n + (s.act action).2) (s.act action).1 := by
  cases action with
  | operation o =>
    simp only [Machine.act] at hn ⊢
    exact h.perform (by omega) o
  | step k i p => exact runProgram k i p h hn

/-- Every run of at most 2^64 operations keeps the invariant. -/
lemma run (acts : List Action) : ∀ {n : Nat} {s : Machine}, MachineOK n s → n + (s.run acts).2 ≤ 2 ^ 64 →
      MachineOK (n + (s.run acts).2) (s.run acts).1 := by
  induction acts with
  | nil =>
    intro n s h _
    exact h
  | cons action acts ih =>
  intro n s h hn
  simp only [Machine.run] at hn ⊢
  have hrest := ih (h.act action (by omega)) (by omega)
  rw [add_assoc] at hrest
  exact hrest

end MachineOK

/-- After every run of fewer than `2 ^ 64` operations a translation returns what a walk of the
tables returns: the physical address with its attributes, or the fault. -/
theorem translate_eq_walk (actions : List Action) (hcount : (Machine.run {} actions).2 < 2 ^ 64) {k i : Nat} {c : Cpu}
    {m : AddressSpace} (hc : (Machine.run {} actions).1.cpus[k]? = some c)
    (hm : (Machine.run {} actions).1.spaces[i]? = some m) (address : UInt64) (access : Access) :
    (c.translate i m address access).1 = (c.walk m address access).1 := by
  have hinit : MachineOK 0 {} := by
    constructor
    · intro m hm
      cases hm
    · intro c hc
      cases hc
  have hrun := MachineOK.run actions hinit (by omega)
  obtain ⟨hi, hver⟩ := hrun.spaces m (List.mem_of_getElem? hm)
  exact (translate_spec hm hi (hrun.cpus c (List.mem_of_getElem? hc)) (by omega) address access).1

/-- A block of 2 MiB is mapped to 0 and translated, and then its descriptor is written: it maps to 0x200000. -/
def tableWritten : List Action :=
  [.operation (.create 4096), .operation (.call 0 (.map 0x1000 [0x41, 0x04, 0, 0, 0, 0, 0, 0] 3)), .operation .newCpu,
    .operation (.setRegister 0 "ttbr0_el1" 0x1000), .operation (.setRegister 0 "tcr_el1" 39),
    .operation (.setRegister 0 "sctlr_el1" 1),
    .step 0 0 (.perform (.translate 0x80 Read) fun _ => .perform (.call (.writeMemory 0x1002 [0x20])) fun _ => .done)]

/-- The cache still holds the page as it was, and the translation follows the new descriptor. -/
theorem translate_eq_walk_tableWritten :
    (Machine.run {} tableWritten).2 = 8 ∧ ∃ c m, (Machine.run {} tableWritten).1.cpus[0]? = some c ∧
      (Machine.run {} tableWritten).1.spaces[0]? = some m ∧
      (c.translations.entries (entryIndex 0 Read)).map TranslationEntry.physical = some 0 ∧
      (c.translate 0 m 0x80 Read).1 = (c.walk m 0x80 Read).1 ∧
      (c.translate 0 m 0x80 Read).1 = .ok (0x200080, 0xa00) := by
  have hcount : (Machine.run {} tableWritten).2 = 8 := rfl
  refine ⟨hcount, _, _, rfl, rfl, by decide +kernel, ?_, by decide +kernel⟩
  exact translate_eq_walk (k := 0) tableWritten (by rw [hcount]; decide) rfl rfl 0x80 Read

end Trex.Emulator.Arm64
