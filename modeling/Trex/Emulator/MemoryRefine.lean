import Trex.Emulator.MemoryUpdate

/-!
# The address space refines a byte map with permissions

`ByteMap` is what an address space is for, `Spec` says for each call when it succeeds, what it answers
and what it changes.  `run_refines` follows any calls over any number of spaces, and shows that the span
cache does not matter.
-/

namespace Trex.Emulator

open List Function Option

open AddressSpace (spread)

/-- The calls on an address space. -/
inductive Call where
  | map (address : UInt64) (data : Bytes) (access : Access)
  | unmap (address : UInt64)
  | protect (address : UInt64) (size : Int) (access : Access)
  | readMemory (address : UInt64) (size : Nat) (access : Access)
  | writeMemory (address : UInt64) (source : Bytes)
  | checkMemory (address : UInt64) (size : Int) (access : Access)
deriving DecidableEq, Repr

inductive Answer where
  | done
  | bytes (l : Bytes)
  | previous (ps : List Protection)
  | failed (e : MemoryError)
deriving DecidableEq, Repr

/-! ## The byte map -/

/-- Memory as a map of bytes with their permissions. -/
structure ByteMap where
  limit : Nat
  used : Nat := 0
  bytes : Nat → Option (UInt8 × Access) := fun _ => none
  mappings : Nat → Option Nat := fun _ => none

namespace ByteMap

/-- Every byte of the range is there with the permission. -/
def Granted (b : ByteMap) (address size : Nat) (access : Access) : Prop :=
  ∀ x, address ≤ x → x < address + size → ∃ v, b.bytes x = some v ∧ v.2 &&& access = access

/-- When a call succeeds. -/
def Can (b : ByteMap) : Call → Prop
  | .map address data access =>
    data ≠ [] ∧ address.toNat + data.length ≤ 2 ^ 64 ∧ access ≠ 0 ∧ knownAccess access = true ∧
      b.used + data.length ≤ b.limit ∧
      ∀ x, address.toNat ≤ x → x < address.toNat + data.length → b.bytes x = none
  | .unmap address => (b.mappings address.toNat).isSome
  | .protect address size access =>
    0 < size ∧ knownAccess access = true ∧
      ∀ x, address.toNat ≤ x → x < address.toNat + size.toNat → (b.bytes x).isSome
  | .readMemory address size access => (access = Read ∨ access = Execute) ∧ b.Granted address.toNat size access
  | .writeMemory address source => b.Granted address.toNat source.length Write
  | .checkMemory address size access =>
    access ≠ 0 ∧ knownAccess access = true ∧ 0 ≤ size ∧ b.Granted address.toNat size.toNat access

/-- What a call that succeeds returns. -/
def Answers (b : ByteMap) : Call → Answer → Prop
  | .readMemory address size _, answer =>
    ∃ l, answer = .bytes l ∧ l.length = size ∧ ∀ i < size, l[i]? = (b.bytes (address.toNat + i)).map Prod.fst
  | .protect address size _, answer =>
    ∃ ps, answer = .previous ps ∧
      (spread ps).map Prod.fst = (List.range size.toNat).map (fun k => address.toNat + k) ∧
      ∀ q ∈ spread ps, (b.bytes q.1).map Prod.snd = some q.2
  | _, answer => answer = .done

/-- The map behind a call that succeeds. -/
def after (b : ByteMap) : Call → ByteMap
  | .map address data access =>
    { b with
      used := b.used + data.length
      bytes := fun x =>
        if address.toNat ≤ x ∧ x < address.toNat + data.length then some (data.getD (x - address.toNat) 0, access)
        else b.bytes x
      mappings := Function.update b.mappings address.toNat (some data.length) }
  | .unmap address =>
    let size := (b.mappings address.toNat).getD 0
    { b with
      used := b.used - size
      bytes := fun x => if address.toNat ≤ x ∧ x < address.toNat + size then none else b.bytes x
      mappings := Function.update b.mappings address.toNat none }
  | .protect address size access =>
    { b with bytes := fun x => (b.bytes x).map fun v =>
        (v.1, if address.toNat ≤ x ∧ x < address.toNat + size.toNat then access else v.2) }
  | .writeMemory address source =>
    { b with bytes := fun x => (b.bytes x).map fun v =>
        (if address.toNat ≤ x ∧ x < address.toNat + source.length then source.getD (x - address.toNat) 0 else v.1,
          v.2) }
  | .readMemory .. => b
  | .checkMemory .. => b

/-- A call either succeeds or leaves everything as it is. -/
def Spec (b : ByteMap) (c : Call) (answer : Answer) (b' : ByteMap) : Prop :=
  (b.Can c ∧ b.Answers c answer ∧ b' = b.after c) ∨ (¬ b.Can c ∧ (∃ e, answer = .failed e) ∧ b' = b)

end ByteMap

/-! ## One call -/

namespace AddressSpace

/-- A call on the model of the code. -/
def exec (m : AddressSpace) : Call → Answer × AddressSpace
  | .map address data access =>
    match m.map address.toNat data access with
    | .ok m' => (.done, m')
    | .error e => (.failed e, m)
  | .unmap address =>
    match m.unmap address.toNat with
    | .ok m' => (.done, m')
    | .error e => (.failed e, m)
  | .protect address size access =>
    match m.protect address.toNat size access with
    | .ok (previous, m') => (.previous previous, m')
    | .error e => (.failed e, m)
  | .readMemory address size access =>
    match m.readMemory address.toNat size access with
    | (.ok l, m') => (.bytes l, m')
    | (.error e, m') => (.failed e, m')
  | .writeMemory address source =>
    match m.writeMemory address.toNat source with
    | .ok m' => (.done, m')
    | .error e => (.failed e, m)
  | .checkMemory address size access =>
    match m.checkMemory address.toNat size access with
    | .ok _ => (.done, m)
    | .error e => (.failed e, m)

/-- The size of the mapping that starts at an address. -/
def mapping (m : AddressSpace) (start : Nat) : Option Nat :=
  (m.regions.find? fun r => decide (r.start = start)).map fun r => r.data.length

/-- The map of bytes that an address space stands for. -/
def abs (m : AddressSpace) : ByteMap := ⟨m.limit, m.used, m.view, m.mapping⟩

section

variable {m : AddressSpace}

lemma mapping_eq_some_iff (hi : Inv m) {start size : Nat} :
    m.mapping start = some size ↔ ∃ r ∈ m.regions, r.start = start ∧ r.data.length = size := by
  unfold mapping
  rw [map_eq_some_iff]
  constructor
  · rintro ⟨r, hf, hsize⟩
    exact ⟨r, mem_of_find?_eq_some hf, by simpa using find?_some hf, hsize⟩
  rintro ⟨r, hr, hstart, hsize⟩
  cases hf : m.regions.find? (fun r => decide (r.start = start)) with
  | none =>
    have := find?_eq_none.mp hf r hr
    exact absurd hstart (by simpa using this)
  | some q =>
  have hq := mem_of_find?_eq_some hf
  have hqstart : q.start = start := by simpa using find?_some hf
  have hqpos := hi.nonempty q hq
  have hrpos := hi.nonempty r hr
  have heq : q = r := eq_of_holds hi hq hr (x := start) ⟨by omega, by omega⟩ ⟨by omega, by omega⟩
  exact ⟨q, rfl, by rw [heq, hsize]⟩

lemma mapping_of_shape (regions : List Region) (h : regions.map Region.shape = m.regions.map Region.shape) :
    mapping { m with regions := regions } = m.mapping := by
  funext start
  have hfind : ∀ l : List Region, (l.find? fun r => decide (r.start = start)).map (fun r => r.data.length) =
      ((l.map Region.shape).find? fun s => decide (s.1 = start)).map fun s => s.2.1 := by
    intro l
    rw [find?_map, Option.map_map]
    rfl
  unfold mapping
  rw [hfind, hfind, h]

/-! What each call does, said once. -/

/-- `map` succeeds exactly if it can. -/
lemma exec_map (hi : Inv m) (a : UInt64) (data : Bytes) (acc : Access) :
    (m.CanMap a.toNat data acc ∧
        m.exec (.map a data acc) = (.done, m.mapped a.toNat data acc)) ∨
      (¬ m.CanMap a.toNat data acc ∧ ∃ e, m.exec (.map a data acc) = (.failed e, m)) := by
  by_cases hcan : m.CanMap a.toNat data acc
  · exact .inl ⟨hcan, by unfold exec; simp only [map_ok hi hcan]⟩
  · obtain ⟨e, he⟩ := map_error hi hcan
    exact .inr ⟨hcan, e, by unfold exec; simp only [he]⟩

/-- `unmap` succeeds exactly at the start of a mapping. -/
lemma exec_unmap (m : AddressSpace) (a : UInt64) :
    (∃ i r, m.regions[i]? = some r ∧ r.start = a.toNat ∧ m.exec (.unmap a) = (.done, m.unmapped i r)) ∨
      ((¬ ∃ q ∈ m.regions, q.start = a.toNat) ∧ ∃ e, m.exec (.unmap a) = (.failed e, m)) := by
  by_cases hcan : ∃ q ∈ m.regions, q.start = a.toNat
  · obtain ⟨i, r, hr, hstart, hok⟩ := unmap_ok hcan
    exact .inl ⟨i, r, hr, hstart, by unfold exec; simp only [hok]⟩
  · obtain ⟨e, he⟩ := unmap_error hcan
    exact .inr ⟨hcan, e, by unfold exec; simp only [he]⟩

section

variable (hi : Inv m) (a : UInt64)

include hi

/-- `protect` succeeds exactly if it can, and returns the permissions of before. -/
lemma exec_protect (size : Int) (acc : Access) :
    (m.CanProtect a.toNat size acc ∧ ∃ prev, spread prev = m.accessesAt a.toNat size.toNat ∧
        m.exec (.protect a size acc) = (.previous prev, m.protectedWith a.toNat size.toNat acc)) ∨
      (¬ m.CanProtect a.toNat size acc ∧ ∃ e, m.exec (.protect a size acc) = (.failed e, m)) := by
  by_cases hcan : m.CanProtect a.toNat size acc
  · obtain ⟨prev, hok, hprev⟩ := protect_ok hi hcan
    exact .inl ⟨hcan, prev, hprev, by unfold exec; simp only [hok]⟩
  · obtain ⟨e, he⟩ := protect_error hi hcan
    exact .inr ⟨hcan, e, by unfold exec; simp only [he]⟩

lemma exec_writeMemory (src : Bytes) :
    (m.Allowed a.toNat src.length Write ∧ ∃ regions, regions.map Region.shape = m.regions.map Region.shape ∧
        (∀ x, view { m with regions := regions } x = overlay a.toNat src m.view x) ∧
        m.exec (.writeMemory a src) = (.done, { m with
          regions, trackedVersion := (m.trackWrite a.toNat src.length).trackedVersion })) ∨
      (¬ m.Allowed a.toNat src.length Write ∧ ∃ e, m.exec (.writeMemory a src) = (.failed e, m)) := by
  by_cases hcan : m.Allowed a.toNat src.length Write
  · obtain ⟨regions, hok, hshape, hview⟩ := writeMemory_ok hi hcan
    exact .inl ⟨hcan, regions, hshape, hview, by unfold exec; simp only [hok]⟩
  · obtain ⟨e, he⟩ := writeMemory_error hi hcan
    exact .inr ⟨hcan, e, by unfold exec; simp only [he]⟩

lemma exec_readMemory (size : Nat) (acc : Access) : ∃ cache,
      Inv { m with readCache := cache } ∧ m.exec (.readMemory a size acc) =
        (match (m.readMemory a.toNat size acc).1 with
          | .ok l => Answer.bytes l
          | .error e => .failed e, { m with readCache := cache }) := by
  obtain ⟨cache, hstate, hi'⟩ := readMemory_state hi a.toNat size acc
  refine ⟨cache, hi', ?_⟩
  cases hread : m.readMemory a.toNat size acc with
  | mk result m' =>
  rw [hread] at hstate
  subst hstate
  cases result <;> (unfold exec; simp only [hread])

end

lemma exec_checkMemory (m : AddressSpace) (a : UInt64) (size : Int) (acc : Access) :
    (m.checkMemory a.toNat size acc = .ok () ∧ m.exec (.checkMemory a size acc) = (.done, m)) ∨
      ∃ e, m.checkMemory a.toNat size acc = .error e ∧
        m.exec (.checkMemory a size acc) = (.failed e, m) := by
  cases hcheck : m.checkMemory a.toNat size acc with
  | ok u => exact .inl ⟨rfl, by unfold exec; simp only [hcheck]⟩
  | error e => exact .inr ⟨e, rfl, by unfold exec; simp only [hcheck]⟩

/-- A call keeps the invariant and does what the byte map says. -/
def Meets (m : AddressSpace) (c : Call) : Prop :=
  Inv (m.exec c).2 ∧ m.abs.Spec c (m.exec c).1 (m.exec c).2.abs

/-- A refused call meets the specification. -/
lemma meets_failed (hi : Inv m) {c : Call} (hcan : ¬ m.abs.Can c) {e : MemoryError}
    (hexec : m.exec c = (.failed e, m)) : m.Meets c := by
  unfold Meets
  rw [hexec]
  exact ⟨hi, .inr ⟨hcan, ⟨e, rfl⟩, rfl⟩⟩

section

variable (hi : Inv m) (a : UInt64)

include hi a

lemma spec_map (data : Bytes) (acc : Access) : m.Meets (.map a data acc) := by
  rcases exec_map hi a data acc with ⟨hcan, hexec⟩ | ⟨hcan, e, hexec⟩
  · have hi' := inv_mapped hi hcan
    rw [Meets, hexec]
    refine ⟨hi', .inl ⟨hcan, rfl, ?_⟩⟩
    have hmap : (m.mapped a.toNat data acc).mapping =
        Function.update m.mapping a.toNat (some data.length) := by
      funext start
      apply ext
      intro size
      rw [mapping_eq_some_iff hi']
      by_cases hstart : start = a.toNat
      · subst hstart
        rw [update_self, some.injEq]
        obtain ⟨hne, -, -, -, -, hfree⟩ := hcan
        have hpos : 0 < data.length := length_pos_iff.mpr hne
        constructor
        · rintro ⟨r, hr, hstart, hsize⟩
          rcases mem_mapped.mp hr with hr | rfl
          · have hrpos := hi.nonempty r hr
            rcases apart_of_free hi hpos hfree hr with h | h <;> omega
          · exact hsize
        · rintro rfl
          exact ⟨_, mem_mapped.mpr (.inr rfl), rfl, rfl⟩
      rw [update_of_ne hstart, mapping_eq_some_iff hi]
      constructor
      · rintro ⟨r, hr, h⟩
        rcases mem_mapped.mp hr with hr | rfl
        · exact ⟨r, hr, h⟩
        · exact absurd h.1.symm hstart
      · rintro ⟨r, hr, h⟩
        exact ⟨r, mem_mapped.mpr (.inl hr), h⟩
    show ByteMap.mk m.limit (m.used + data.length) (m.mapped a.toNat data acc).view
      (m.mapped a.toNat data acc).mapping = _
    rw [hmap, funext (view_mapped hi hcan)]
    rfl
  · exact meets_failed hi hcan hexec

lemma spec_unmap : m.Meets (.unmap a) := by
  have hiff : (m.mapping a.toNat).isSome ↔ ∃ q ∈ m.regions, q.start = a.toNat := by
    rw [isSome_iff_exists]
    simp only [mapping_eq_some_iff hi]
    constructor
    · rintro ⟨size, r, hr, hstart, -⟩
      exact ⟨r, hr, hstart⟩
    · rintro ⟨r, hr, hstart⟩
      exact ⟨_, r, hr, hstart, rfl⟩
  rcases exec_unmap m a with ⟨i, r, hr, hstart, hexec⟩ | ⟨hcan, e, hexec⟩
  · have hi' := inv_unmapped hi hr
    have hmem := mem_of_getElem? hr
    have hsize : m.mapping a.toNat = some r.data.length := (mapping_eq_some_iff hi).mpr ⟨r, hmem, hstart, rfl⟩
    rw [Meets, hexec]
    refine ⟨hi', .inl ⟨hiff.mpr ⟨r, hmem, hstart⟩, rfl, ?_⟩⟩
    have hmap : (m.unmapped i r).mapping = Function.update m.mapping a.toNat none := by
      funext start
      apply ext
      intro size
      rw [mapping_eq_some_iff hi']
      by_cases hat : start = a.toNat
      · subst hat
        rw [update_self]
        refine iff_of_false ?_ nofun
        rintro ⟨q, hq, hqstart, -⟩
        exact ((mem_unmapped hi hr).mp hq).2 (by rw [hqstart, hstart])
      rw [update_of_ne hat, mapping_eq_some_iff hi]
      constructor
      · rintro ⟨q, hq, h⟩
        exact ⟨q, ((mem_unmapped hi hr).mp hq).1, h⟩
      · rintro ⟨q, hq, h⟩
        exact ⟨q, (mem_unmapped hi hr).mpr ⟨hq, by rw [h.1, hstart]; exact hat⟩, h⟩
    have hview : (m.unmapped i r).view = fun x =>
        if a.toNat ≤ x ∧ x < a.toNat + r.data.length then none else m.view x := by
      funext x
      have hrange : r.Holds x ↔ a.toNat ≤ x ∧ x < a.toNat + r.data.length := by
        unfold Region.Holds
        rw [hstart]
      rw [view_unmapped hi hr]
      by_cases hx : r.Holds x
      · rw [if_pos hx, if_pos (hrange.mp hx)]
      · rw [if_neg hx, if_neg fun h => hx (hrange.mpr h)]
    show ByteMap.mk m.limit (m.used - r.data.length) (m.unmapped i r).view (m.unmapped i r).mapping = _
    unfold ByteMap.after
    simp only [show m.abs.mappings a.toNat = some r.data.length from hsize, getD_some]
    rw [hmap, hview]
    rfl
  · exact meets_failed hi (fun h => hcan (hiff.mp h)) hexec

lemma spec_protect (size : Int) (acc : Access) : m.Meets (.protect a size acc) := by
  rcases exec_protect hi a size acc with ⟨hcan, prev, hprev, hexec⟩ | ⟨hcan, e, hexec⟩
  · rw [Meets, hexec]
    refine ⟨inv_protectedWith hi hcan, .inl ⟨hcan, ⟨prev, rfl, ?_, ?_⟩, ?_⟩⟩
    · rw [hprev, accessesAt, List.map_map]
      rfl
    · intro q hq
      rw [hprev] at hq
      obtain ⟨k, hk, rfl⟩ := mem_map.mp hq
      have hlt := mem_range.mp hk
      obtain ⟨v, hv⟩ := isSome_iff_exists.mp (hcan.2.2 (a.toNat + k) (by omega) (by omega))
      show (m.view (a.toNat + k)).map Prod.snd = some (((m.view (a.toNat + k)).map Prod.snd).getD 0)
      rw [hv]
      rfl
    · show ByteMap.mk m.limit m.used (m.protectedWith a.toNat size.toNat acc).view m.mapping = _
      rw [funext (view_protectedWith m a.toNat size.toNat acc)]
      rfl
  · exact meets_failed hi hcan hexec

lemma spec_readMemory (size : Nat) (acc : Access) : m.Meets (.readMemory a size acc) := by
  have hiff := readMemory_ok_iff hi a.toNat size acc
  obtain ⟨cache, hi', hexec⟩ := exec_readMemory hi a size acc
  rw [Meets, hexec]
  refine ⟨hi', ?_⟩
  cases hread : (m.readMemory a.toNat size acc).1 with
  | ok l =>
    obtain ⟨hacc, hall, hl⟩ := (hiff l).mp hread
    refine .inl ⟨⟨hacc, hall⟩, ⟨l, rfl, by rw [hl, length_bytesAt], ?_⟩, rfl⟩
    intro i hlt
    obtain ⟨v, hv, -⟩ := hall (a.toNat + i) (by omega) (by omega)
    rw [hl, getElem?_bytesAt m _ _ i hlt]
    show some (((m.view (a.toNat + i)).map Prod.fst).getD 0) = (m.view (a.toNat + i)).map Prod.fst
    rw [hv]
    rfl
  | error e =>
  refine .inr ⟨?_, ⟨e, rfl⟩, rfl⟩
  rintro ⟨hacc, hall⟩
  rw [(hiff _).mpr ⟨hacc, hall, rfl⟩] at hread
  cases hread

lemma spec_writeMemory (src : Bytes) : m.Meets (.writeMemory a src) := by
  rcases exec_writeMemory hi a src with ⟨hcan, regions, hshape, hview, hexec⟩ | ⟨hcan, e, hexec⟩
  · rw [Meets, hexec]
    refine ⟨inv_trackedVersion (inv_regions hi hshape) _, .inl ⟨hcan, rfl, ?_⟩⟩
    show ByteMap.mk m.limit m.used (view { m with regions := regions }) (mapping { m with regions := regions }) = _
    rw [funext hview, mapping_of_shape regions hshape]
    rfl
  · exact meets_failed hi hcan hexec

end

lemma checkMemory_ok_iff (hi : Inv m) (a : Nat) (size : Int) (access : Access) :
    m.checkMemory a size access = .ok () ↔
      access ≠ 0 ∧ knownAccess access = true ∧ 0 ≤ size ∧ m.Allowed a size.toNat access := by
  unfold checkMemory
  split
  next hbad =>
    refine iff_of_false nofun ?_
    rintro ⟨hne, hknown, -⟩
    simp [hne, hknown] at hbad
  next hgood =>
  simp only [not_or, Bool.not_eq_true', Bool.not_eq_false] at hgood
  rw [check_iff hi]
  exact ⟨fun h => ⟨hgood.1, hgood.2, h⟩, fun h => h.2.2⟩

lemma spec_checkMemory (hi : Inv m) (a : UInt64) (size : Int) (acc : Access) :
    m.Meets (.checkMemory a size acc) := by
  have hiff := checkMemory_ok_iff hi a.toNat size acc
  rcases exec_checkMemory m a size acc with ⟨hok, hexec⟩ | ⟨e, he, hexec⟩
  · rw [Meets, hexec]
    exact ⟨hi, .inl ⟨hiff.mp hok, rfl, rfl⟩⟩
  · refine meets_failed hi (fun hcan => ?_) hexec
    rw [hiff.mpr hcan] at he
    cases he

/-- Every call meets the specification. -/
lemma exec_spec (hi : Inv m) (c : Call) : m.Meets c := by
  cases c with
  | map a data access => exact spec_map hi a data access
  | unmap a => exact spec_unmap hi a
  | protect a size access => exact spec_protect hi a size access
  | readMemory a size access => exact spec_readMemory hi a size access
  | writeMemory a source => exact spec_writeMemory hi a source
  | checkMemory a size access => exact spec_checkMemory hi a size access

end

/-! ## The machine without a cache -/

/-- A read that does not look into the cache. -/
def readDirect (m : AddressSpace) (address size : Nat) (access : Access) : Except MemoryError Bytes :=
  if access ≠ Read ∧ access ≠ Execute then .error (.invalidReadAccess access) else m.readSlow address size access

/-- The calls without the cache. -/
def execDirect (m : AddressSpace) : Call → Answer × AddressSpace
  | .readMemory address size access =>
    match m.readDirect address.toNat size access with
    | .ok l => (.bytes l, m)
    | .error e => (.failed e, m)
  | c => m.exec c

section

variable {m : AddressSpace}

lemma previousLoop_uncached (m : AddressSpace) : ∀ turns location remaining,
      m.uncached.previousLoop turns location remaining = m.previousLoop turns location remaining := by
  intro turns
  induction turns with
  | zero =>
    intro location remaining
    rfl
  | succ turns ih =>
  intro location remaining
  have hfind : m.uncached.find location = m.find location := rfl
  have hacc : ∀ r, m.uncached.accessAt location r = m.accessAt location r := fun _ => rfl
  simp only [previousLoop, ih, hfind, hacc]

lemma protect_uncached (hi : Inv m) (a : Nat) (size : Int) (access : Access) :
    m.uncached.protect a size access = m.protect a size access := by
  unfold protect
  rw [check_uncached hi, previousLoop_uncached]
  rfl

lemma trackWrite_uncached (m : AddressSpace) (a size : Nat) :
    m.uncached.trackWrite a size = (m.trackWrite a size).uncached := by
  have htracked : ∀ page, m.uncached.isTracked page = m.isTracked page := fun _ => rfl
  unfold trackWrite
  simp only [htracked]
  show (if size = 0 ∨ m.trackedPages = [] then _ else _) = _
  split
  · rfl
  · split <;> rfl

lemma writeLoop_uncached : ∀ turns (m : AddressSpace) a src,
      m.uncached.writeLoop turns a src = (m.writeLoop turns a src).map uncached := by
  intro turns
  induction turns with
  | zero =>
    intro m a src
    rfl
  | succ turns ih =>
  intro m a src
  have hfind : m.uncached.findIndex a = m.findIndex a := rfl
  have hregs : m.uncached.regions = m.regions := rfl
  have hwrite : ∀ i part, m.uncached.writeRegion i a part = (m.writeRegion i a part).uncached :=
    fun _ _ => rfl
  simp only [writeLoop, hfind, hregs, hwrite, ih]
  split
  · rfl
  cases m.findIndex a with
  | none => rfl
  | some i =>
    simp only [bind_eq_bind, bind_some]
    cases m.regions[i]? <;> rfl

lemma writeMemory_uncached (hi : Inv m) (a : Nat) (src : Bytes) :
    m.uncached.writeMemory a src = (m.writeMemory a src).map uncached := by
  unfold writeMemory
  rw [check_uncached hi, trackWrite_uncached, writeLoop_uncached]
  cases m.check a src.length Write with
  | error e => rfl
  | ok u =>
    show Except.ok _ = Except.ok _
    cases (m.trackWrite a src.length).writeLoop src.length a src <;> rfl

/-- Without the cache every call gives the same answer. -/
lemma execDirect_uncached (hi : Inv m) (c : Call) :
    m.uncached.execDirect c = ((m.exec c).1, (m.exec c).2.uncached) := by
  cases c with
  | map a data access =>
    -- a mapping clears the cache
    have hmap : m.uncached.map a.toNat data access = m.map a.toNat data access := rfl
    simp only [execDirect, exec, hmap]
    by_cases hcan : m.CanMap a.toNat data access
    · rw [map_ok hi hcan]
      rfl
    · obtain ⟨e, he⟩ := map_error hi hcan
      rw [he]
  | unmap a =>
    have hunmap : m.uncached.unmap a.toNat = m.unmap a.toNat := rfl
    simp only [execDirect, exec, hunmap]
    by_cases hcan : ∃ q ∈ m.regions, q.start = a.toNat
    · obtain ⟨i, r, -, -, hok⟩ := unmap_ok hcan
      rw [hok]
      rfl
    · obtain ⟨e, he⟩ := unmap_error hcan
      rw [he]
  | protect a size access =>
    simp only [execDirect, exec, protect_uncached hi]
    by_cases hcan : m.CanProtect a.toNat size access
    · obtain ⟨prev, hok, -⟩ := protect_ok hi hcan
      rw [hok]
      rfl
    · obtain ⟨e, he⟩ := protect_error hi hcan
      rw [he]
  | readMemory a size access =>
    obtain ⟨cache, -, hexec⟩ := exec_readMemory hi a size access
    have hdir : m.uncached.readDirect a.toNat size access = (m.readMemory a.toNat size access).1 := by
      rw [readMemory_fst hi, readDirect, readSlow_uncached hi]
    rw [hexec]
    simp only [execDirect, hdir]
    cases (m.readMemory a.toNat size access).1 <;> rfl
  | writeMemory a source =>
    simp only [execDirect, exec, writeMemory_uncached hi]
    cases m.writeMemory a.toNat source <;> rfl
  | checkMemory a size access =>
  simp only [execDirect, exec, checkMemory, check_uncached hi]
  split
  · rfl
  · cases m.check a.toNat size access <;> rfl

end

end AddressSpace

/-! ## Sequences of calls -/

/-- What a client does with several address spaces. -/
inductive Action where
  | create (limit : UInt64)
  | clone (i : Nat)
  | call (i : Nat) (c : Call)
deriving DecidableEq, Repr

/-- One action. -/
def act (exec : AddressSpace → Call → Answer × AddressSpace) (s : List AddressSpace) :
    Action → Answer × List AddressSpace
  | .create limit => (.done, s ++ [{ limit := limit.toNat }])
  | .clone i =>
    match s[i]? with
    | some m => (.done, s ++ [m.clone])
    | none => (.done, s)
  | .call i c =>
    match s[i]? with
    | some m => ((exec m c).1, s.set i (exec m c).2)
    | none => (.done, s)

def runActions (exec : AddressSpace → Call → Answer × AddressSpace) (s : List AddressSpace) :
    List Action → List Answer × List AddressSpace
  | [] => ([], s)
  | action :: actions =>
    let (answer, s) := act exec s action
    let (answers, s) := runActions exec s actions
    (answer :: answers, s)

/-- What an action may do to the byte maps. -/
inductive SpecStep : List ByteMap → Action → Answer → List ByteMap → Prop where
  | create (s : List ByteMap) (limit : UInt64) : SpecStep s (.create limit) .done (s ++ [{ limit := limit.toNat }])
  | clone {s : List ByteMap} {i : Nat} {b : ByteMap} (hb : s[i]? = some b) : SpecStep s (.clone i) .done (s ++ [b])
  | call {s : List ByteMap} {i : Nat} {b b' : ByteMap} {c : Call} {answer : Answer} (hb : s[i]? = some b)
      (hspec : b.Spec c answer b') : SpecStep s (.call i c) answer (s.set i b')
  | noClone {s : List ByteMap} {i : Nat} (hb : s[i]? = none) : SpecStep s (.clone i) .done s
  | noCall {s : List ByteMap} {i : Nat} {c : Call} (hb : s[i]? = none) : SpecStep s (.call i c) .done s

/-- The runs that the map of bytes allows. -/
inductive SpecRun : List ByteMap → List Action → List Answer → List ByteMap → Prop where
  | nil (s : List ByteMap) : SpecRun s [] [] s
  | cons {s s' s'' : List ByteMap} {action : Action} {actions : List Action} {answer : Answer}
      {answers : List Answer} (head : SpecStep s action answer s') (tail : SpecRun s' actions answers s'') :
      SpecRun s (action :: actions) (answer :: answers) s''

section

variable {s : List AddressSpace}

/-- One action keeps every space well formed and does what the byte maps say. -/
lemma act_spec (hs : ∀ m ∈ s, m.Inv) (action : Action) : (∀ m ∈ (act AddressSpace.exec s action).2, m.Inv) ∧
      SpecStep (s.map AddressSpace.abs) action (act AddressSpace.exec s action).1
        ((act AddressSpace.exec s action).2.map AddressSpace.abs) := by
  have happ : ∀ {m' : AddressSpace}, m'.Inv → ∀ m ∈ s ++ [m'], m.Inv := by
    intro m' hm' m hm
    rcases mem_append.mp hm with hm | hm
    · exact hs m hm
    · rw [mem_singleton.mp hm]
      exact hm'
  cases action with
  | create limit =>
    refine ⟨happ (AddressSpace.inv_new _), ?_⟩
    show SpecStep _ _ .done (map _ (s ++ [_]))
    rw [map_append]
    exact .create _ limit
  | clone i =>
    have hget : (s.map AddressSpace.abs)[i]? = s[i]?.map AddressSpace.abs := getElem?_map ..
    cases hm : s[i]? with
    | none =>
      rw [hm] at hget
      simp only [act, hm]
      exact ⟨hs, .noClone hget⟩
    | some m =>
    rw [hm] at hget
    simp only [act, hm, map_append]
    have hi := hs m (mem_of_getElem? hm)
    exact ⟨happ (AddressSpace.inv_clone hi), .clone hget⟩
  | call i c =>
  have hget : (s.map AddressSpace.abs)[i]? = s[i]?.map AddressSpace.abs := getElem?_map ..
  cases hm : s[i]? with
  | none =>
    rw [hm] at hget
    simp only [act, hm]
    exact ⟨hs, .noCall hget⟩
  | some m =>
  rw [hm] at hget
  simp only [act, hm, map_set]
  obtain ⟨hi', hspec⟩ := AddressSpace.exec_spec (hs m (mem_of_getElem? hm)) c
  constructor
  · intro q hq
    rcases mem_or_eq_of_mem_set hq with hq | rfl
    · exact hs q hq
    · exact hi'
  · exact .call hget hspec

/-- Without the cache every action gives the same answer. -/
lemma act_uncached (hs : ∀ m ∈ s, m.Inv) (action : Action) :
    act AddressSpace.execDirect (s.map AddressSpace.uncached) action =
      ((act AddressSpace.exec s action).1, (act AddressSpace.exec s action).2.map AddressSpace.uncached) := by
  cases action with
  | create limit =>
    simp only [act, map_append]
    rfl
  | clone i =>
    simp only [act, getElem?_map]
    cases s[i]? with
    | none => rfl
    | some m =>
      simp only [map_some, map_append]
      rfl
  | call i c =>
  simp only [act, getElem?_map]
  cases hm : s[i]? with
  | none => rfl
  | some m => simp only [map_some, map_set, AddressSpace.execDirect_uncached (hs m (mem_of_getElem? hm)) c]

/-- A run is one of the map of bytes, and the cache does not change its answers. -/
lemma runActions_spec (acts : List Action) (hs : ∀ m ∈ s, m.Inv) :
    SpecRun (s.map AddressSpace.abs) acts (runActions AddressSpace.exec s acts).1
        ((runActions AddressSpace.exec s acts).2.map AddressSpace.abs) ∧
      runActions AddressSpace.execDirect (s.map AddressSpace.uncached) acts =
        ((runActions AddressSpace.exec s acts).1,
          (runActions AddressSpace.exec s acts).2.map AddressSpace.uncached) := by
  induction acts generalizing s with
  | nil => exact ⟨.nil _, rfl⟩
  | cons action acts ih =>
  obtain ⟨hs', hstep⟩ := act_spec hs action
  obtain ⟨hrun, hdir⟩ := ih hs'
  refine ⟨.cons hstep hrun, ?_⟩
  simp only [runActions, act_uncached hs action, hdir]

end

/-- Every sequence of calls on address spaces behaves as on byte maps with permissions, and a
machine whose cache stays empty gives the same answers. -/
theorem run_refines (actions : List Action) :
    SpecRun [] actions (runActions AddressSpace.exec [] actions).1
        ((runActions AddressSpace.exec [] actions).2.map AddressSpace.abs) ∧
      (runActions AddressSpace.execDirect [] actions).1 = (runActions AddressSpace.exec [] actions).1 ∧
      ∀ m ∈ (runActions AddressSpace.execDirect [] actions).2, ∀ i, m.readCache i = none := by
  have hnone : ∀ m ∈ ([] : List AddressSpace), m.Inv := by
    intro m hm
    cases hm
  obtain ⟨hspec, hdir⟩ := runActions_spec actions hnone
  rw [List.map_nil] at hspec hdir
  refine ⟨hspec, by rw [hdir], ?_⟩
  intro m hm i
  rw [hdir] at hm
  obtain ⟨q, -, rfl⟩ := List.mem_map.mp hm
  rfl

end Trex.Emulator
