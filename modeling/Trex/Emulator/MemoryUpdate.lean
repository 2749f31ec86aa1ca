import Mathlib.Algebra.BigOperators.Group.List.Basic
import Trex.Emulator.MemoryProof

/-!
# How the operations change the view of an address space

A write replaces the bytes of its range, `Map` adds its range, `Unmap` takes out one mapping, `Protect`
changes permissions.  Each keeps `Inv` and fails exactly when its condition does not hold.
-/

namespace Trex.Emulator

open List Option Region

/-- What a region keeps through writes. -/
def Region.shape (r : Region) : Nat × Nat × Access := (r.start, r.data.length, r.access)

lemma Region.holds_of_shape {r r' : Region} (h : r.shape = r'.shape) {x : Nat} (hx : r.Holds x) : r'.Holds x := by
  simp only [shape, Prod.mk.injEq] at h
  unfold Region.Holds at hx ⊢
  omega

namespace AddressSpace

/-! ## Writes -/

/-- The bytes of `source` over a map, which keeps its permissions. -/
def overlay (address : Nat) (source : Bytes) (f : Nat → Option (UInt8 × Access)) (x : Nat) :
    Option (UInt8 × Access) :=
  (f x).map fun v => (if address ≤ x ∧ x < address + source.length then source.getD (x - address) 0 else v.1, v.2)

variable {a x last : Nat} {ps : List Protection} {p : Protection}

lemma overlay_of_not_mem {src : Bytes} {f : Nat → Option (UInt8 × Access)}
    (h : ¬ (a ≤ x ∧ x < a + src.length)) : overlay a src f x = f x := by
  unfold overlay
  simp only [if_neg h]
  cases f x <;> rfl

/-- A write in two parts. -/
lemma overlay_split (a : Nat) (src : Bytes) (f : Nat → Option (UInt8 × Access)) {n : Nat}
    (hn : n ≤ src.length) (x : Nat) :
    overlay (a + n) (src.drop n) (overlay a (src.take n) f) x = overlay a src f x := by
  unfold overlay
  rw [Option.map_map]
  congr 1
  funext v
  simp only [Function.comp_apply, length_drop, length_take, Prod.mk.injEq, and_true, min_eq_left hn]
  by_cases hhigh : a + n ≤ x ∧ x < a + n + (src.length - n)
  · rw [if_pos hhigh, if_pos (by omega), getD_eq_getElem?_getD, getElem?_drop, getD_eq_getElem?_getD]
    congr 2
    omega
  · rw [if_neg hhigh]
    by_cases hlow : a ≤ x ∧ x < a + n
    · rw [if_pos hlow, if_pos (by omega), getD_eq_getElem?_getD, getElem?_take, if_pos (by omega),
        getD_eq_getElem?_getD]
    · rw [if_neg hlow, if_neg (by omega)]

section

variable {m : AddressSpace}

/-- What is seen depends on the mapping that holds the address and on the overrides there. -/
lemma view_congr {m' : AddressSpace} (hi : Inv m) (hi' : Inv m')
    (hregs : ∀ r : Region, r.Holds x → (r ∈ m'.regions ↔ r ∈ m.regions))
    (hacc : ∀ access, effective m'.protections access x = effective m.protections access x) :
    m'.view x = m.view x := by
  by_cases hex : ∃ r ∈ m.regions, r.Holds x
  · obtain ⟨r, hr, hx⟩ := hex
    obtain ⟨v, hv, hview⟩ := view_of_mem hi hr hx
    obtain ⟨v', hv', hview'⟩ := view_of_mem hi' ((hregs r hx).mpr hr) hx
    rw [hv] at hv'
    cases hv'
    rw [hview, hview', hacc]
  · have hold : ∀ r ∈ m.regions, ¬ r.Holds x := by simpa using hex
    rw [view_eq_none hold, view_eq_none]
    intro r hr hx
    exact hold r ((hregs r hx).mp hr) hx

/-- The invariant needs the places of the mappings only, apart from their bytes. -/
lemma inv_regions (hi : Inv m) {regions : List Region}
    (hshape : regions.map shape = m.regions.map shape) : Inv { m with regions := regions } := by
  have hfrom : ∀ r' ∈ regions, ∃ r ∈ m.regions, r.shape = r'.shape := by
    intro r' hr'
    have hmem := mem_map_of_mem (f := shape) hr'
    rw [hshape] at hmem
    exact mem_map.mp hmem
  have hto : ∀ r ∈ m.regions, ∃ r' ∈ regions, r'.shape = r.shape := by
    intro r hr
    have hmem := mem_map_of_mem (f := shape) hr
    rw [← hshape] at hmem
    exact mem_map.mp hmem
  refine ⟨?_, ?_, ?_, ?_, hi.budget, ?_, ?_, hi.filter⟩
  · have hsorted : (m.regions.map shape).Pairwise fun a b => a.1 + a.2.1 ≤ b.1 := pairwise_map.mpr hi.sorted
    rw [← hshape] at hsorted
    exact pairwise_map.mp hsorted
  · intro r' hr'
    obtain ⟨r, hr, h⟩ := hfrom r' hr'
    have := hi.nonempty r hr
    simp only [shape, Prod.mk.injEq] at h
    omega
  · intro r' hr'
    obtain ⟨r, hr, h⟩ := hfrom r' hr'
    have := hi.bound r hr
    simp only [shape, Prod.mk.injEq] at h
    omega
  · have hsum : regions.map (fun r => r.data.length) = m.regions.map fun r => r.data.length := by
      have := congrArg (List.map fun s : Nat × Nat × Access => s.2.1) hshape
      rwa [List.map_map, List.map_map] at this
    show m.used = _
    rw [hsum]
    exact hi.used
  · intro p hp
    obtain ⟨hpos, hcov⟩ := hi.protections p hp
    refine ⟨hpos, ?_⟩
    intro x hx
    obtain ⟨r, hr, hholds⟩ := hcov x hx
    obtain ⟨r', hr', h⟩ := hto r hr
    exact ⟨r', hr', holds_of_shape h.symm hholds⟩
  intro i e he
  obtain ⟨r, hr, hbase, hlo, hhi, hsame⟩ := hi.cache i e he
  obtain ⟨r', hr', h⟩ := hto r hr
  simp only [shape, Prod.mk.injEq] at h
  refine ⟨r', hr', by omega, by omega, by omega, ?_⟩
  rw [h.2.2]
  exact hsame

variable {l src : Bytes} {n i a : Nat} {r : Region}

lemma getElem?_written (h : n + src.length ≤ l.length) (k : Nat) :
    (l.take n ++ src ++ l.drop (n + src.length))[k]? =
      if n ≤ k ∧ k < n + src.length then src[k - n]? else l[k]? := by
  have hlength : (l.take n).length = n := by
    rw [length_take]
    omega
  rcases lt_or_ge k n with hlow | hlow
  · rw [if_neg (by omega), append_assoc, getElem?_append_left (by omega), getElem?_take, if_pos hlow]
  rcases lt_or_ge k (n + src.length) with hhigh | hhigh
  · rw [if_pos ⟨hlow, hhigh⟩, getElem?_append_left (by rw [length_append]; omega),
      getElem?_append_right (by omega), hlength]
  · rw [if_neg (by omega), getElem?_append_right (by rw [length_append]; omega), length_append,
      hlength, getElem?_drop]
    congr 1
    omega

lemma length_written (h : n + src.length ≤ l.length) :
    (l.take n ++ src ++ l.drop (n + src.length)).length = l.length := by
  simp only [length_append, length_take, length_drop]
  omega

/-- A mapping after a write. -/
def written (r : Region) (address : Nat) (source : Bytes) : Region :=
  { r with data := r.data.take (address - r.start) ++ source ++ r.data.drop (address - r.start + source.length) }

lemma getElem?_writeRegion (hr : m.regions[i]? = some r) (a : Nat) (src : Bytes) (j : Nat) :
    (m.writeRegion i a src).regions[j]? =
      if i = j then some (written r a src) else m.regions[j]? := by
  show (m.regions.modify i _)[j]? = _
  rw [getElem?_modify]
  split
  next hij =>
    subst hij
    rw [hr]
    rfl
  · exact map_id'

lemma shape_writeRegion (hr : m.regions[i]? = some r) (hlo : r.start ≤ a)
    (hhi : a + src.length ≤ r.start + r.data.length) :
    (m.writeRegion i a src).regions.map shape = m.regions.map shape := by
  apply ext_getElem?
  intro j
  rw [getElem?_map, getElem?_map, getElem?_writeRegion hr]
  split
  next hij =>
    subst hij
    rw [hr]
    simp only [map_some, shape, written]
    rw [length_written (by omega)]
  · rfl

/-- Writing into a mapping is writing to what is seen. -/
lemma view_writeRegion (hi : Inv m) (hr : m.regions[i]? = some r) (hlo : r.start ≤ a)
    (hhi : a + src.length ≤ r.start + r.data.length) (x : Nat) :
    (m.writeRegion i a src).view x = overlay a src m.view x := by
  have hshape := shape_writeRegion hr hlo hhi
  have hi' : Inv (m.writeRegion i a src) := inv_regions hi hshape
  have hget := getElem?_writeRegion hr a src
  have hholds : (written r a src).Holds x ↔ r.Holds x := by
    unfold Region.Holds written
    rw [length_written (by omega)]
  by_cases hx : r.Holds x
  · -- the written region itself
    have hr' := hget i
    rw [if_pos rfl] at hr'
    obtain ⟨v, hv, hview⟩ := view_of_mem hi (mem_of_getElem? hr) hx
    obtain ⟨v', hv', hview'⟩ := view_of_mem hi' (mem_of_getElem? hr') (hholds.mpr hx)
    rw [hview', overlay, hview]
    unfold written at hv'
    simp only at hv'
    rw [getElem?_written (by omega)] at hv'
    simp only [map_some, some.injEq, Prod.mk.injEq]
    refine ⟨?_, rfl⟩
    have hxlo := hx.1
    split
    next hin =>
      rw [if_pos (by omega)] at hv'
      have hplace : x - r.start - (a - r.start) = x - a := by omega
      rw [getD_eq_getElem?_getD, ← hplace, hv']
      rfl
    next hout =>
      rw [if_neg (by omega), hv] at hv'
      exact (some.inj hv').symm
  have hout : ¬ (a ≤ x ∧ x < a + src.length) := by
    unfold Region.Holds at hx
    omega
  rw [overlay_of_not_mem hout]
  refine view_congr hi hi' (fun q hqx => ⟨fun hq => ?_, fun hq => ?_⟩) fun _ => rfl
  · obtain ⟨j, hj⟩ := getElem?_of_mem hq
    rw [hget] at hj
    split at hj
    · cases hj
      exact absurd (hholds.mp hqx) hx
    · exact mem_of_getElem? hj
  obtain ⟨j, hj⟩ := getElem?_of_mem hq
  have hj' := hget j
  rw [if_neg, hj] at hj'
  · exact mem_of_getElem? hj'
  · rintro rfl
    rw [hr] at hj
    cases hj
    exact hx hqx

/-- The loop of `WriteMemory`: each turn writes up to the end of one region. -/
lemma writeLoop_eq : ∀ turns (m : AddressSpace) a (src : Bytes), Inv m → src.length ≤ turns →
      (∀ x, a ≤ x → x < a + src.length → (m.view x).isSome) →
      ∃ regions, m.writeLoop turns a src = some { m with regions := regions } ∧
        regions.map shape = m.regions.map shape ∧
        ∀ x, view { m with regions := regions } x = overlay a src m.view x := by
  intro turns
  induction turns with
  | zero =>
    intro m a src _ hturns _
    have hnil : src = [] := length_eq_zero_iff.mp (by omega)
    subst hnil
    refine ⟨m.regions, rfl, rfl, ?_⟩
    intro x
    rw [overlay_of_not_mem (by simp only [length_nil]; omega)]
  | succ turns ih =>
  intro m a src hi hturns hmapped
  rw [writeLoop]
  split
  next hnil =>
    subst hnil
    refine ⟨m.regions, rfl, rfl, ?_⟩
    intro x
    rw [overlay_of_not_mem (by simp only [length_nil]; omega)]
  next hne =>
  have hpos : 0 < src.length := length_pos_iff.mpr hne
  obtain ⟨r, hr, hx⟩ := (view_isSome_iff hi).mp (hmapped a le_rfl (by omega))
  obtain ⟨i, hri⟩ := getElem?_of_mem hr
  have hlo := hx.1
  have hhi := hx.2
  rw [findIndex_eq hi hri hx]
  simp only [bind_eq_bind, bind_some, hri]
  obtain ⟨n, hn⟩ : ∃ n, n = min src.length (r.data.length - (a - r.start)) := ⟨_, rfl⟩
  rw [← hn]
  have htake : (src.take n).length = n := by
    rw [length_take]
    omega
  have hfit : a + (src.take n).length ≤ r.start + r.data.length := by omega
  have hshape := shape_writeRegion hri hlo hfit
  have hview := view_writeRegion hi hri hlo hfit
  obtain ⟨regions, hloop, hrest, hall⟩ := ih (m.writeRegion i a (src.take n)) (a + n) (src.drop n)
    (inv_regions hi hshape) (by rw [length_drop]; omega) (by
      intro x hxlo hxhi
      rw [length_drop] at hxhi
      rw [hview, overlay, isSome_map]
      exact hmapped x (by omega) (by omega))
  refine ⟨regions, hloop, hrest.trans hshape, ?_⟩
  intro x
  have hstep : (m.writeRegion i a (src.take n)).view = overlay a (src.take n) m.view :=
    funext hview
  rw [← overlay_split a src m.view (show n ≤ src.length by omega) x, ← hstep]
  exact hall x

lemma trackWrite_eq (m : AddressSpace) (a size : Nat) :
    m.trackWrite a size = { m with trackedVersion := (m.trackWrite a size).trackedVersion } := by
  unfold trackWrite
  simp only
  split
  · rfl
  · split <;> rfl

lemma inv_trackedVersion (hi : Inv m) (version : Nat) : Inv { m with trackedVersion := version } :=
  { hi with }

/-- An allowed write is seen, and moves no mapping. -/
lemma writeMemory_ok (hi : Inv m) (h : m.Allowed a src.length Write) :
    ∃ regions, m.writeMemory a src = .ok { m with
        regions, trackedVersion := (m.trackWrite a src.length).trackedVersion } ∧
      regions.map shape = m.regions.map shape ∧
      ∀ x, view { m with regions := regions } x = overlay a src m.view x := by
  have hcheck := (check_iff hi a src.length Write).mpr ⟨by omega, by simpa using h⟩
  have hver := trackWrite_eq m a src.length
  obtain ⟨regions, hloop, hshape, hview⟩ := writeLoop_eq src.length
    { m with trackedVersion := (m.trackWrite a src.length).trackedVersion } a src
    (inv_trackedVersion hi _) le_rfl (isSome_of_allowed h)
  refine ⟨regions, ?_, hshape, hview⟩
  unfold writeMemory
  rw [hcheck]
  show Except.ok (((m.trackWrite a src.length).writeLoop src.length a src).getD m) = _
  rw [hver, hloop]
  rfl

/-- A write that is not allowed fails. -/
lemma writeMemory_error (hi : Inv m) (h : ¬ m.Allowed a src.length Write) :
    ∃ e, m.writeMemory a src = .error e := by
  unfold writeMemory
  cases hc : m.check a src.length Write with
  | error e => exact ⟨e, rfl⟩
  | ok u => exact absurd (by simpa using ((check_iff hi a src.length Write).mp hc).2) h

end

/-! ## `Map` -/

/-- When `map` succeeds. -/
def CanMap (m : AddressSpace) (address : Nat) (data : Bytes) (access : Access) : Prop :=
  data ≠ [] ∧ address + data.length ≤ 2 ^ 64 ∧ access ≠ 0 ∧ knownAccess access = true ∧
    m.used + data.length ≤ m.limit ∧ ∀ x, address ≤ x → x < address + data.length → m.view x = none

def mapped (m : AddressSpace) (address : Nat) (data : Bytes) (access : Access) : AddressSpace :=
  { m with
    regions := (m.regions ++ [Region.mk address data access]).mergeSort fun a b => decide (a.start ≤ b.start)
    used := m.used + data.length
    readCache := fun _ => none
    trackedVersion := m.trackedVersion + 1 }

lemma effective_of_not_covered (h : ∀ p ∈ ps, ¬ p.Covers x) (access : Access) : effective ps access x = access := by
  unfold effective
  induction ps with
  | nil => rfl
  | cons p ps ih =>
    rw [foldl_cons, if_neg (h p mem_cons_self)]
    exact ih fun q hq => h q (mem_cons_of_mem _ hq)

section

variable {m : AddressSpace} {a : Nat} {data : Bytes} {access : Access}

/-- The test for an overlap is right. -/
lemma overlaps_iff (hi : Inv m) (hpos : 0 < data.length) :
    (m.regions.any fun r => decide (a ≤ r.start + (r.data.length - 1)) &&
        decide (r.start ≤ a + (data.length - 1))) = true ↔
      ∃ x, a ≤ x ∧ x < a + data.length ∧ m.view x ≠ none := by
  simp only [List.any_eq_true, Bool.and_eq_true, decide_eq_true_eq]
  constructor
  · rintro ⟨r, hr, h1, h2⟩
    have hlen := hi.nonempty r hr
    refine ⟨max a r.start, by omega, by omega, ?_⟩
    obtain ⟨v, -, hview⟩ := view_of_mem hi hr (x := max a r.start) ⟨by omega, by omega⟩
    rw [hview]
    nofun
  · rintro ⟨x, hlo, hhi, hne⟩
    obtain ⟨r, hr, hx⟩ := (view_isSome_iff hi).mp (isSome_iff_ne_none.mpr hne)
    obtain ⟨hx1, hx2⟩ := hx
    exact ⟨r, hr, by omega, by omega⟩

/-- A mapping that can be made is made. -/
lemma map_ok (hi : Inv m) (h : m.CanMap a data access) :
    m.map a data access = .ok (m.mapped a data access) := by
  obtain ⟨hne, hrange, hacc, hknown, hbud, hfree⟩ := h
  have hpos : 0 < data.length := length_pos_iff.mpr hne
  have hval : validRange a data.length = true := (validRange_iff _ _).mpr ⟨by omega, by omega⟩
  unfold map
  rw [if_neg (by simp [hne, hval, hacc, hknown]), if_neg (by omega)]
  rw [if_neg]
  · rfl
  · rw [overlaps_iff hi hpos]
    rintro ⟨x, hlo, hhi, hx⟩
    exact hx (hfree x hlo hhi)

/-- Any other mapping is refused. -/
lemma map_error (hi : Inv m) (h : ¬ m.CanMap a data access) : ∃ e, m.map a data access = .error e := by
  unfold map
  split
  · exact ⟨_, rfl⟩
  next hargs =>
  split
  · exact ⟨_, rfl⟩
  next hbud =>
  simp only
  split
  · exact ⟨_, rfl⟩
  next hfree =>
  simp only [not_or, Bool.not_eq_true', Bool.not_eq_false] at hargs
  obtain ⟨hne, hval, hacc, hknown⟩ := hargs
  have hpos : 0 < data.length := length_pos_iff.mpr hne
  obtain ⟨-, hrange⟩ := (validRange_iff _ _).mp hval
  rw [overlaps_iff hi hpos] at hfree
  refine absurd ⟨hne, by omega, hacc, hknown, by omega, ?_⟩ h
  intro x hlo hhi
  by_contra hx
  exact hfree ⟨x, hlo, hhi, hx⟩

lemma mem_mapped {r : Region} :
    r ∈ (m.mapped a data access).regions ↔ r ∈ m.regions ∨ r = ⟨a, data, access⟩ := by
  show r ∈ mergeSort _ _ ↔ _
  rw [mem_mergeSort, mem_append, mem_singleton]

/-- An old region lies below or above a range that nothing is mapped in. -/
lemma apart_of_free (hi : Inv m) (hpos : 0 < data.length)
    (hfree : ∀ x, a ≤ x → x < a + data.length → m.view x = none) {r : Region} (hr : r ∈ m.regions) :
    r.start + r.data.length ≤ a ∨ a + data.length ≤ r.start := by
  by_contra hmeet
  have hlen := hi.nonempty r hr
  obtain ⟨v, -, hview⟩ := view_of_mem hi hr (x := max a r.start) ⟨by omega, by omega⟩
  rw [hfree _ (by omega) (by omega)] at hview
  cases hview

/-- A new mapping keeps the invariant. -/
lemma inv_mapped (hi : Inv m) (h : m.CanMap a data access) : Inv (m.mapped a data access) := by
  obtain ⟨hne, hrange, -, -, hbud, hfree⟩ := h
  have hpos : 0 < data.length := length_pos_iff.mpr hne
  have hperm : (m.mapped a data access).regions.Perm (m.regions ++ [Region.mk a data access]) :=
    mergeSort_perm _ _
  have hnonempty : ∀ r ∈ (m.mapped a data access).regions, 0 < r.data.length := by
    intro r hr
    rcases mem_mapped.mp hr with hr | rfl
    · exact hi.nonempty r hr
    · exact hpos
  refine ⟨?_, hnonempty, ?_, ?_, hbud, ?_, nofun, hi.filter⟩
  · -- sorted by the start, and apart from each other: each ends before the next begins
    have hstarts : (m.mapped a data access).regions.Pairwise fun a b => decide (a.start ≤ b.start) = true :=
      pairwise_mergeSort (fun a b c => by simpa using fun h h' => le_trans h h')
        (fun a b => by simpa using Nat.le_total a.start b.start) _
    have hapt : (m.mapped a data access).regions.Pairwise fun a b =>
        a.start + a.data.length ≤ b.start ∨ b.start + b.data.length ≤ a.start := by
      refine hperm.symm.pairwise ?_ fun h => h.symm
      refine pairwise_append.mpr ⟨hi.sorted.imp Or.inl, pairwise_singleton _ _, ?_⟩
      intro r hr q hq
      rw [mem_singleton.mp hq]
      exact apart_of_free hi hpos hfree hr
    refine List.Pairwise.imp_of_mem ?_ (hstarts.and hapt)
    intro a b ha hb hab
    have hlen := hnonempty b hb
    have hle := of_decide_eq_true hab.1
    rcases hab.2 with h | h <;> omega
  · intro r hr
    rcases mem_mapped.mp hr with hr | rfl
    · exact hi.bound r hr
    · exact hrange
  · show m.used + data.length = _
    rw [(hperm.map fun r => r.data.length).sum_nat, map_append, sum_append, hi.used]
    rfl
  intro p hp
  obtain ⟨hsize, hcov⟩ := hi.protections p hp
  refine ⟨hsize, ?_⟩
  intro x hx
  obtain ⟨r, hr, hholds⟩ := hcov x hx
  exact ⟨r, mem_mapped.mpr (.inl hr), hholds⟩

/-- The new range has its own permission: every record covers bytes that were mapped before. -/
lemma view_mapped (hi : Inv m) (h : m.CanMap a data access) (x : Nat) : (m.mapped a data access).view x =
      if a ≤ x ∧ x < a + data.length then some (data.getD (x - a) 0, access) else m.view x := by
  have hi' := inv_mapped hi h
  obtain ⟨-, -, -, -, -, hfree⟩ := h
  split
  next hin =>
    have hnew : Region.Holds ⟨a, data, access⟩ x := hin
    obtain ⟨v, hv, hview⟩ := view_of_mem hi' (mem_mapped.mpr (.inr rfl)) hnew
    have hplain : effective m.protections access x = access := by
      apply effective_of_not_covered
      intro p hp hx
      obtain ⟨r, hr, hholds⟩ := (hi.protections p hp).2 x hx
      obtain ⟨w, -, hw⟩ := view_of_mem hi hr hholds
      rw [hfree x hin.1 hin.2] at hw
      cases hw
    rw [hview, getD_eq_getElem?_getD, show data[x - a]? = some v from hv]
    show some (v, effective m.protections access x) = _
    rw [hplain]
    rfl
  next hout =>
  refine view_congr hi hi' (fun r hx => ?_) fun _ => rfl
  rw [mem_mapped, or_iff_left]
  rintro rfl
  exact hout hx

end

/-! ## `Unmap` -/

def unmapped (m : AddressSpace) (i : Nat) (r : Region) : AddressSpace :=
  { m with
    protections := m.protections.flatMap (cutProtection r.start (r.start + (r.data.length - 1)))
    used := m.used - r.data.length
    regions := m.regions.eraseIdx i
    readCache := fun _ => none
    trackedVersion := m.trackedVersion + 1 }

/-- Cutting an override takes away the range that is unmapped. -/
lemma exists_cut_covers_iff (hle : a ≤ last) (hsize : 0 < p.size) (x : Nat) :
    (∃ q ∈ cutProtection a last p, q.Covers x) ↔ p.Covers x ∧ ¬ (a ≤ x ∧ x ≤ last) := by
  unfold cutProtection Protection.Covers
  simp only
  split_ifs <;> simp <;> omega

lemma cut_keeps {p q : Protection} (hsize : 0 < p.size)
    (hq : q ∈ cutProtection a last p) : 0 < q.size ∧ q.access = p.access := by
  unfold cutProtection at hq
  simp only at hq
  split at hq
  · rw [mem_singleton.mp hq]
    exact ⟨hsize, rfl⟩
  rcases mem_append.mp hq with hq | hq
  · split at hq
    · rw [mem_singleton.mp hq]
      exact ⟨by simp only; omega, rfl⟩
    · cases hq
  · split at hq
    · rw [mem_singleton.mp hq]
      exact ⟨by simp only; omega, rfl⟩
    · cases hq

lemma effective_of_access {access : Access} (h : ∀ p ∈ ps, p.access = access) (x : Nat) (other : Access) :
    effective ps other x = if ∃ p ∈ ps, p.Covers x then access else other := by
  unfold effective
  induction ps generalizing other with
  | nil => simp
  | cons p ps ih =>
  rw [foldl_cons, ih fun q hq => h q (mem_cons_of_mem _ hq)]
  have hp := h p mem_cons_self
  by_cases hrest : ∃ q ∈ ps, q.Covers x
  · have hall : ∃ q ∈ p :: ps, q.Covers x := by
      obtain ⟨q, hq, hx⟩ := hrest
      exact ⟨q, mem_cons_of_mem _ hq, hx⟩
    rw [if_pos hrest, if_pos hall]
  rw [if_neg hrest]
  by_cases hx : p.Covers x
  · have hall : ∃ q ∈ p :: ps, q.Covers x := ⟨p, mem_cons_self, hx⟩
    rw [if_pos hx, if_pos hall, hp]
  have hnone : ¬ ∃ q ∈ p :: ps, q.Covers x := by
    rintro ⟨q, hq, hqx⟩
    rcases mem_cons.mp hq with rfl | hq
    · exact hx hqx
    · exact hrest ⟨q, hq, hqx⟩
  rw [if_neg hx, if_neg hnone]

lemma effective_append (ps qs : List Protection) (access : Access) (x : Nat) :
    effective (ps ++ qs) access x = effective qs (effective ps access x) x := by
  unfold effective
  rw [foldl_append]

/-- Cutting the records keeps the permissions outside the range. -/
lemma effective_cut (hsize : ∀ p ∈ ps, 0 < p.size) (hle : a ≤ last)
    (hx : ¬ (a ≤ x ∧ x ≤ last)) (access : Access) :
    effective (ps.flatMap (cutProtection a last)) access x = effective ps access x := by
  induction ps generalizing access with
  | nil => rfl
  | cons p ps ih =>
  have hp := hsize p mem_cons_self
  have hone : effective (cutProtection a last p) access x = if p.Covers x then p.access else access := by
    rw [effective_of_access (fun q hq => (cut_keeps hp hq).2)]
    have hiff := exists_cut_covers_iff hle hp x
    by_cases hcov : p.Covers x
    · rw [if_pos hcov, if_pos (hiff.mpr ⟨hcov, hx⟩)]
    · rw [if_neg hcov, if_neg fun h => hcov (hiff.mp h).1]
  rw [flatMap_cons, effective_append, hone, ih fun q hq => hsize q (mem_cons_of_mem _ hq)]
  rfl

section

variable {m : AddressSpace} {i : Nat} {r : Region}

section

variable (hi : Inv m) (hr : m.regions[i]? = some r)

include hi hr

lemma mem_unmapped {q : Region} : q ∈ (m.unmapped i r).regions ↔ q ∈ m.regions ∧ q.start ≠ r.start := by
  show q ∈ m.regions.eraseIdx i ↔ _
  rw [mem_eraseIdx_iff_getElem?]
  constructor
  · rintro ⟨j, hj, hq⟩
    refine ⟨mem_of_getElem? hq, ?_⟩
    intro hstart
    obtain ⟨hilen, higet⟩ := List.getElem?_eq_some_iff.mp hr
    obtain ⟨hjlen, hjget⟩ := List.getElem?_eq_some_iff.mp hq
    have hrpos := hi.nonempty r (mem_of_getElem? hr)
    have hqpos := hi.nonempty q (mem_of_getElem? hq)
    rcases Nat.lt_or_gt_of_ne hj with hlt | hlt
    · have := pairwise_iff_getElem.mp hi.sorted j i hjlen hilen hlt
      rw [higet, hjget] at this
      omega
    · have := pairwise_iff_getElem.mp hi.sorted i j hilen hjlen hlt
      rw [higet, hjget] at this
      omega
  rintro ⟨hq, hstart⟩
  obtain ⟨j, hj⟩ := getElem?_of_mem hq
  refine ⟨j, ?_, hj⟩
  rintro rfl
  rw [hr] at hj
  cases hj
  exact hstart rfl

lemma start_ne_of_holds {q : Region} (hq : q ∈ m.regions) {x : Nat} (hx : q.Holds x)
    (hout : ¬ r.Holds x) : q.start ≠ r.start := by
  intro hstart
  have hmem := mem_of_getElem? hr
  have hrpos := hi.nonempty r hmem
  have hqpos := hi.nonempty q hq
  have heq : q = r := eq_of_holds hi hq hmem (x := r.start) ⟨by omega, by omega⟩ ⟨le_rfl, by omega⟩
  rw [heq] at hx
  exact hout hx

/-- Unmapping keeps the invariant. -/
lemma inv_unmapped : Inv (m.unmapped i r) := by
  have hused := hi.used
  have hbud := hi.budget
  obtain ⟨hlen, hget⟩ := List.getElem?_eq_some_iff.mp hr
  have hsum : r.data.length + ((m.regions.eraseIdx i).map fun r => r.data.length).sum = m.used := by
    have hperm := (getElem_cons_eraseIdx_perm hlen).map fun r => r.data.length
    rw [hused, ← hperm.sum_nat, hget]
    rfl
  refine ⟨hi.sorted.sublist (eraseIdx_sublist _ _), ?_, ?_, ?_, ?_, ?_, nofun, hi.filter⟩
  · intro q hq
    exact hi.nonempty q ((mem_unmapped hi hr).mp hq).1
  · intro q hq
    exact hi.bound q ((mem_unmapped hi hr).mp hq).1
  · show m.used - r.data.length = _
    exact Nat.sub_eq_of_eq_add (by rw [add_comm]; exact hsum.symm)
  · show m.used - r.data.length ≤ m.limit
    omega
  intro p hp
  obtain ⟨q, hq, hcut⟩ := mem_flatMap.mp hp
  obtain ⟨hsize, hcov⟩ := hi.protections q hq
  refine ⟨(cut_keeps hsize hcut).1, ?_⟩
  intro x hx
  obtain ⟨hqx, hout⟩ := (exists_cut_covers_iff (by omega) hsize x).mp ⟨p, hcut, hx⟩
  obtain ⟨s, hs, hholds⟩ := hcov x hqx
  have hnot : ¬ r.Holds x := by
    unfold Region.Holds
    omega
  exact ⟨s, (mem_unmapped hi hr).mpr ⟨hs, start_ne_of_holds hi hr hs hholds hnot⟩, hholds⟩

/-- Unmapping takes the bytes of one mapping away. -/
lemma view_unmapped (x : Nat) : (m.unmapped i r).view x = if r.Holds x then none else m.view x := by
  have hi' := inv_unmapped hi hr
  have hmem := mem_of_getElem? hr
  split
  next hin =>
    apply view_eq_none
    intro q hq hx
    obtain ⟨hq, hne⟩ := (mem_unmapped hi hr).mp hq
    exact hne (by rw [eq_of_holds hi hq hmem hx hin])
  next hout =>
  refine view_congr hi hi' (fun q hx => ?_) fun access => ?_
  · rw [mem_unmapped hi hr]
    exact ⟨fun hq => hq.1, fun hq => ⟨hq, start_ne_of_holds hi hr hq hx hout⟩⟩
  · have hpos := hi.nonempty r hmem
    exact effective_cut (fun p hp => (hi.protections p hp).1) (by omega)
      (by unfold Region.Holds at hout; omega) access

end

lemma unmap_ok {a : Nat} (h : ∃ q ∈ m.regions, q.start = a) :
    ∃ i r, m.regions[i]? = some r ∧ r.start = a ∧ m.unmap a = .ok (m.unmapped i r) := by
  obtain ⟨q, hq, hstart⟩ := h
  unfold unmap
  cases hfind : m.regions.findIdx? (fun r => decide (r.start = a)) with
  | none =>
    have := findIdx?_eq_none_iff.mp hfind q hq
    exact absurd hstart (by simpa using this)
  | some i =>
  obtain ⟨hlen, hat, -⟩ := findIdx?_eq_some_iff_getElem.mp hfind
  have hstart' : m.regions[i].start = a := by simpa using hat
  refine ⟨i, m.regions[i], getElem?_eq_getElem hlen, hstart', ?_⟩
  simp only [getElem?_eq_getElem hlen, map_some, getD_some]
  unfold unmapped
  rw [hstart']

lemma unmap_error {a : Nat} (h : ¬ ∃ q ∈ m.regions, q.start = a) : ∃ e, m.unmap a = .error e := by
  have hnone : m.regions.findIdx? (fun r => decide (r.start = a)) = none :=
    findIdx?_eq_none_iff.mpr fun q hq => by simpa using fun hstart => h ⟨q, hq, hstart⟩
  unfold unmap
  rw [hnone]
  exact ⟨_, rfl⟩

end

/-! ## `Protect` -/

def protectedWith (m : AddressSpace) (address size : Nat) (access : Access) : AddressSpace :=
  { m with
    protections := m.protections ++ [⟨address, size, access⟩]
    readCache := fun _ => none
    trackedVersion := m.trackedVersion + 1 }

/-- When `protect` succeeds. -/
def CanProtect (m : AddressSpace) (address : Nat) (size : Int) (access : Access) : Prop :=
  0 < size ∧ knownAccess access = true ∧ ∀ x, address ≤ x → x < address + size.toNat → (m.view x).isSome

/-- The overrides, address by address. -/
def spread (ps : List Protection) : List (Nat × Access) :=
  ps.flatMap fun p => (List.range p.size).map fun k => (p.start + k, p.access)

/-- The permissions of a range, address by address. -/
def accessesAt (m : AddressSpace) (address size : Nat) : List (Nat × Access) :=
  (List.range size).map fun k => (address + k, ((m.view (address + k)).map Prod.snd).getD 0)

lemma accessesAt_add (m : AddressSpace) (a n k : Nat) :
    m.accessesAt a (n + k) = m.accessesAt a n ++ m.accessesAt (a + n) k := by
  unfold accessesAt
  rw [List.range_add, List.map_append, List.map_map]
  simp only [Function.comp_def, add_assoc]

section

variable {m : AddressSpace} {a : Nat} {size : Int} {access : Access}

lemma allowed_zero_iff (m : AddressSpace) (a size : Nat) :
    m.Allowed a size 0 ↔ ∀ x, a ≤ x → x < a + size → (m.view x).isSome := by
  constructor
  · intro h
    exact isSome_of_allowed h
  · intro h x hlo hhi
    obtain ⟨v, hv⟩ := isSome_iff_exists.mp (h x hlo hhi)
    exact ⟨v, hv, UInt8.and_zero⟩

/-- The previous permissions, address by address. -/
lemma spread_previousLoop (hi : Inv m) : ∀ turns a remaining, remaining ≤ turns →
      (∀ x, a ≤ x → x < a + remaining → (m.view x).isSome) →
      spread (m.previousLoop turns a remaining) = m.accessesAt a remaining := by
  intro turns
  induction turns with
  | zero =>
    intro a remaining hturns _
    have hzero : remaining = 0 := by omega
    subst hzero
    rfl
  | succ turns ih =>
  intro a remaining hturns hmapped
  rw [previousLoop]
  split
  next hzero =>
    subst hzero
    rfl
  next hpos =>
  obtain ⟨r, hr, hx⟩ := (view_isSome_iff hi).mp (hmapped a le_rfl (by omega))
  have hfind := find_of_mem hi hr hx
  obtain ⟨havailable, -, -⟩ := accessAt_spec m hx
  rw [hfind]
  simp only
  obtain ⟨n, hn⟩ : ∃ n, n = min remaining (m.accessAt a r).2 := ⟨_, rfl⟩
  rw [← hn]
  have hrest := ih (a + n) (remaining - n) (by omega) (fun y hlo hhi => hmapped y (by omega) (by omega))
  have hfirst : (range n).map (fun k => (a + k, (m.accessAt a r).1)) = m.accessesAt a n := by
    apply map_congr_left
    intro k hk
    have hlt := mem_range.mp hk
    obtain ⟨v, hv⟩ := view_segment hi hfind (x := a + k) (by omega) (by omega)
    rw [hv]
    rfl
  have hsplit : remaining = n + (remaining - n) := by omega
  unfold spread at hrest ⊢
  rw [flatMap_cons, hrest, hfirst, ← accessesAt_add, ← hsplit]

/-- An override that can be made is made. -/
lemma protect_ok (hi : Inv m) (h : m.CanProtect a size access) :
    ∃ prev, m.protect a size access = .ok (prev, m.protectedWith a size.toNat access) ∧
      spread prev = m.accessesAt a size.toNat := by
  obtain ⟨hsize, hknown, hmapped⟩ := h
  refine ⟨m.previousLoop size.toNat a size.toNat, ?_, spread_previousLoop hi _ _ _ le_rfl hmapped⟩
  have hcheck := (check_iff hi a size 0).mpr ⟨by omega, (allowed_zero_iff m _ _).mpr hmapped⟩
  unfold protect
  rw [if_neg (by simp [hknown]; omega), hcheck]
  rfl

/-- Any other override is refused. -/
lemma protect_error (hi : Inv m) (h : ¬ m.CanProtect a size access) :
    ∃ e, m.protect a size access = .error e := by
  unfold protect
  split
  · exact ⟨_, rfl⟩
  next hargs =>
  simp only [not_or, Bool.not_eq_true', Bool.not_eq_false] at hargs
  cases hc : m.check a size 0 with
  | error e => exact ⟨e, rfl⟩
  | ok u =>
    have hall := ((check_iff hi a size 0).mp hc).2
    exact absurd ⟨by omega, hargs.2, (allowed_zero_iff m _ _).mp hall⟩ h

lemma inv_protectedWith (hi : Inv m) (h : m.CanProtect a size access) :
    Inv (m.protectedWith a size.toNat access) := by
  obtain ⟨hsize, -, hmapped⟩ := h
  refine { hi with protections := ?_, cache := nofun }
  intro p hp
  rcases mem_append.mp hp with hp | hp
  · exact hi.protections p hp
  · rw [mem_singleton.mp hp]
    refine ⟨by simp only; omega, ?_⟩
    rintro x ⟨hlo, hhi⟩
    exact (view_isSome_iff hi).mp (hmapped x hlo hhi)

/-- An override changes permissions and no bytes. -/
lemma view_protectedWith (m : AddressSpace) (a size : Nat) (access : Access) (x : Nat) :
    (m.protectedWith a size access).view x =
      (m.view x).map fun v => (v.1, if a ≤ x ∧ x < a + size then access else v.2) := by
  unfold view
  show Option.bind (m.regions.find? _) _ = _
  cases m.regions.find? fun r => decide (r.Holds x) with
  | none => rfl
  | some r =>
  simp only [Option.bind_some, Option.map_map]
  congr 1
  funext v
  show (v, effective (m.protections ++ [_]) r.access x) = _
  rw [effective_append]
  rfl

end

/-! ## `Clone` -/

lemma inv_clone {m : AddressSpace} (hi : Inv m) : Inv m.clone :=
  { hi with cache := nofun, filter := by intro page hp; cases hp }

end AddressSpace

end Trex.Emulator
