import Mathlib.Data.List.Pairwise
import Trex.Emulator.Memory

/-!
# The address space as a map from addresses to bytes and permissions

`view m x` is the byte and the effective permission at `x`.  A cached span has one permission
(`Inv.cache`), so the cache and the loops over the regions answer alike.
-/

namespace Trex.Emulator

open List

/-! ## Regions -/

/-- The address lies in the mapping. -/
def Region.Holds (r : Region) (x : Nat) : Prop := r.start ≤ x ∧ x < r.start + r.data.length

instance (r : Region) (x : Nat) : Decidable (r.Holds x) := inferInstanceAs (Decidable (_ ∧ _))

/-- The address lies in the range of the override. -/
def Protection.Covers (p : Protection) (x : Nat) : Prop := p.start ≤ x ∧ x < p.start + p.size

instance (p : Protection) (x : Nat) : Decidable (p.Covers x) := inferInstanceAs (Decidable (_ ∧ _))

/-- The permission at `x`: that of the last record that covers it. -/
def effective (protections : List Protection) (access : Access) (x : Nat) : Access :=
  protections.foldl (fun access p => if p.Covers x then p.access else access) access

namespace AddressSpace

/-- The byte and the permission at an address. -/
def view (m : AddressSpace) (x : Nat) : Option (UInt8 × Access) :=
  (m.regions.find? fun r => decide (r.Holds x)).bind fun r =>
    (r.data[x - r.start]?).map fun v => (v, effective m.protections r.access x)

/-- A cached span lies in a mapping and has the permissions that it records. -/
def SpanOK (m : AddressSpace) (e : Span) : Prop :=
  ∃ r ∈ m.regions, r.start = e.base ∧ r.start ≤ e.start ∧ e.start + e.length ≤ r.start + r.data.length ∧
    ∀ x, e.start ≤ x → x < e.start + e.length → effective m.protections r.access x = e.access

/-- The invariant of an address space. -/
structure Inv (m : AddressSpace) : Prop where
  sorted : m.regions.Pairwise fun a b => a.start + a.data.length ≤ b.start
  nonempty : ∀ r ∈ m.regions, 0 < r.data.length
  bound : ∀ r ∈ m.regions, r.start + r.data.length ≤ 2 ^ 64
  used : m.used = (m.regions.map fun r => r.data.length).sum
  budget : m.used ≤ m.limit
  protections : ∀ p ∈ m.protections, 0 < p.size ∧ ∀ x, p.Covers x → ∃ r ∈ m.regions, r.Holds x
  cache : ∀ i e, m.readCache i = some e → m.SpanOK e
  filter : ∀ page ∈ m.trackedPages, m.trackedFilter (filterBit page) = true

/-- An empty address space. -/
lemma inv_new (limit : Nat) : Inv { limit := limit } := by
  refine ⟨List.Pairwise.nil, ?_, ?_, rfl, Nat.zero_le _, ?_, nofun, ?_⟩ <;> intro r hr <;> cases hr

section

variable {m : AddressSpace}

variable {x : Nat} {r : Region}

/-- An address lies in one mapping at most. -/
lemma eq_of_holds (hi : Inv m) {r r' : Region} (hr : r ∈ m.regions) (hr' : r' ∈ m.regions)
    (hx : r.Holds x) (hx' : r'.Holds x) : r = r' := by
  by_contra hne
  have hapt : m.regions.Pairwise fun a b =>
      a.start + a.data.length ≤ b.start ∨ b.start + b.data.length ≤ a.start := hi.sorted.imp Or.inl
  have hsymm : Std.Symm fun a b : Region =>
      a.start + a.data.length ≤ b.start ∨ b.start + b.data.length ≤ a.start := ⟨fun _ _ h => h.symm⟩
  have hpair := hapt.forall hr hr' hne
  obtain ⟨h1, h2⟩ := hx
  obtain ⟨h3, h4⟩ := hx'
  rcases hpair with h | h <;> omega

lemma find?_eq_some_of_unique {l : List Region} {p : Region → Prop} [DecidablePred p]
    (hr : r ∈ l) (hp : p r) (huniq : ∀ r' ∈ l, p r' → r' = r) : l.find? (fun r => decide (p r)) = some r := by
  have hsome : (l.find? fun r => decide (p r)).isSome := find?_isSome.mpr ⟨r, hr, decide_eq_true hp⟩
  obtain ⟨r', hfind⟩ := Option.isSome_iff_exists.mp hsome
  have hp' : p r' := by simpa using find?_some hfind
  rw [hfind, huniq r' (mem_of_find?_eq_some hfind) hp']

/-- What is seen at an address of a mapping. -/
lemma view_of_mem (hi : Inv m) (hr : r ∈ m.regions) (hx : r.Holds x) :
    ∃ v, r.data[x - r.start]? = some v ∧ m.view x = some (v, effective m.protections r.access x) := by
  obtain ⟨hlo, hhi⟩ := hx
  have hlt : x - r.start < r.data.length := by omega
  refine ⟨r.data[x - r.start], getElem?_eq_getElem hlt, ?_⟩
  have hfind : m.regions.find? (fun r => decide (r.Holds x)) = some r :=
    find?_eq_some_of_unique hr ⟨hlo, hhi⟩ fun r' hr' hx' => eq_of_holds hi hr' hr hx' ⟨hlo, hhi⟩
  rw [view, hfind, Option.bind_some, getElem?_eq_getElem hlt]
  rfl

lemma view_eq_none (h : ∀ r ∈ m.regions, ¬ r.Holds x) : m.view x = none := by
  have hfind : m.regions.find? (fun r => decide (r.Holds x)) = none :=
    find?_eq_none.mpr fun r hr => by simpa using h r hr
  rw [view, hfind]
  rfl

lemma view_isSome_iff (hi : Inv m) : (m.view x).isSome ↔ ∃ r ∈ m.regions, r.Holds x := by
  constructor
  · intro h
    by_contra hnone
    rw [view_eq_none (by simpa using hnone)] at h
    cases h
  · rintro ⟨r, hr, hx⟩
    obtain ⟨v, -, hv⟩ := view_of_mem hi hr hx
    rw [hv]
    rfl

/-- The binary search finds the mapping of an address. -/
lemma findIndex_eq (hi : Inv m) {x i : Nat} (hr : m.regions[i]? = some r) (hx : r.Holds x) :
    m.findIndex x = some i := by
  obtain ⟨hlen, hget⟩ := List.getElem?_eq_some_iff.mp hr
  obtain ⟨hlo, hhi⟩ := hx
  have hsearch : Search.search m.regions.length
      (fun j => decide (((m.regions[j]?).map Region.start).getD 0 > x)) = i + 1 := by
    apply Search.search_eq (by omega)
    · intro j hj
      have hjlen : j < m.regions.length := by omega
      rw [getElem?_eq_getElem hjlen]
      rcases Nat.lt_or_eq_of_le (Nat.le_of_lt_succ hj) with hlt | rfl
      · have := pairwise_iff_getElem.mp hi.sorted j i hjlen hlen hlt
        rw [hget] at this
        simp
        omega
      · rw [hget]
        simp
        omega
    intro j hj hjlen
    have := pairwise_iff_getElem.mp hi.sorted i j hlen hjlen (by omega)
    rw [hget] at this
    rw [getElem?_eq_getElem hjlen]
    simp
    omega
  unfold findIndex
  simp only [hsearch]
  rw [if_neg (by omega), Nat.add_sub_cancel, hr]
  simp only
  rw [if_neg (by omega)]

lemma find_of_mem (hi : Inv m) (hr : r ∈ m.regions) (hx : r.Holds x) : m.find x = some r := by
  obtain ⟨i, hri⟩ := getElem?_of_mem hr
  rw [find, findIndex_eq hi hri hx, Option.bind_some, hri]

lemma holds_of_find (h : m.find x = some r) : r ∈ m.regions ∧ r.Holds x := by
  obtain ⟨i, hidx, hr⟩ := Option.bind_eq_some_iff.mp h
  unfold findIndex at hidx
  dsimp only at hidx
  split at hidx
  · cases hidx
  next hpos =>
  split at hidx
  next r' hr' =>
    obtain ⟨hhi, hlast⟩ := Option.ite_none_left_eq_some.mp hidx
    obtain rfl := Option.some.inj hlast
    obtain rfl : r' = r := Option.some.inj (hr'.symm.trans hr)
    have hlo := Search.before_loop _ 0 _ nofun (Nat.pos_of_ne_zero hpos)
    rw [← Search.search, hr', decide_eq_false_iff_not, Option.map_some, Option.getD_some] at hlo
    exact ⟨mem_of_getElem? hr, by omega, by omega⟩
  · cases hidx

/-- `find` is the search for the mapping that holds the address. -/
lemma find_eq_some_iff (hi : Inv m) : m.find x = some r ↔ r ∈ m.regions ∧ r.Holds x :=
  ⟨holds_of_find, fun h => find_of_mem hi h.1 h.2⟩

end

/-! ## Permissions -/

/-- The loop of `accessAt`: the permission is the same all along the bytes it reports. -/
lemma accessStep_fold (a : Nat) (ps : List Protection) (s : Access × Nat) (hs : 0 < s.2) :
    0 < (ps.foldl (accessStep a) s).2 ∧ (ps.foldl (accessStep a) s).2 ≤ s.2 ∧
      ∀ x, a ≤ x → x < a + (ps.foldl (accessStep a) s).2 →
        effective ps s.1 x = (ps.foldl (accessStep a) s).1 := by
  induction ps generalizing s with
  | nil => exact ⟨hs, le_rfl, fun _ _ _ => rfl⟩
  | cons p ps ih =>
  rw [foldl_cons]
  -- what the record says about the bytes that are left behind it
  have hstep : 0 < (accessStep a s p).2 ∧ (accessStep a s p).2 ≤ s.2 ∧
      ∀ x, a ≤ x → x < a + (accessStep a s p).2 →
        (if p.Covers x then p.access else s.1) = (accessStep a s p).1 := by
    unfold accessStep
    split_ifs with hin habove
    · refine ⟨by simp only; omega, min_le_left _ _, ?_⟩
      intro x hlo hhi
      have hcov : p.Covers x := by exact ⟨by omega, by omega⟩
      rw [if_pos hcov]
    · refine ⟨by simp only; omega, by simp only; omega, ?_⟩
      intro x hlo hhi
      have hnot : ¬ p.Covers x := by
        rintro ⟨h, -⟩
        simp only at hhi
        omega
      rw [if_neg hnot]
    refine ⟨hs, le_rfl, ?_⟩
    intro x hlo hhi
    have hnot : ¬ p.Covers x := by
      rintro ⟨h, h'⟩
      omega
    rw [if_neg hnot]
  obtain ⟨hpos, hle, hsame⟩ := hstep
  obtain ⟨ihpos, ihle, ihsame⟩ := ih (accessStep a s p) hpos
  refine ⟨ihpos, by omega, ?_⟩
  intro x hlo hhi
  have hfirst := hsame x hlo (by omega)
  have hrest := ihsame x hlo hhi
  unfold effective at hrest ⊢
  rw [foldl_cons, hfirst, hrest]

/-- The permissions hold as far as `accessAt` says. -/
lemma accessAt_spec (m : AddressSpace) {a : Nat} {r : Region} (hx : r.Holds a) :
    0 < (m.accessAt a r).2 ∧ a + (m.accessAt a r).2 ≤ r.start + r.data.length ∧
      ∀ x, a ≤ x → x < a + (m.accessAt a r).2 →
        effective m.protections r.access x = (m.accessAt a r).1 := by
  obtain ⟨hlo, hhi⟩ := hx
  obtain ⟨hpos, hle, hsame⟩ := accessStep_fold a m.protections
    (r.access, r.data.length - (a - r.start)) (by simp only; omega)
  refine ⟨hpos, ?_, hsame⟩
  simp only [accessAt] at hle ⊢
  omega

/-! ## Checks -/

/-- Every address of the range is mapped with the permission. -/
def Allowed (m : AddressSpace) (address size : Nat) (access : Access) : Prop :=
  ∀ x, address ≤ x → x < address + size → ∃ v, m.view x = some v ∧ v.2 &&& access = access

/-- The bytes of a range, zero where nothing is mapped. -/
def bytesAt (m : AddressSpace) (address size : Nat) : Bytes :=
  (List.range size).map fun i => ((m.view (address + i)).map Prod.fst).getD 0

section

variable (m : AddressSpace)

@[simp] lemma length_bytesAt (a size : Nat) : (m.bytesAt a size).length = size := by
  simp [bytesAt]

lemma getElem?_bytesAt (a size i : Nat) (h : i < size) :
    (m.bytesAt a size)[i]? = some (((m.view (a + i)).map Prod.fst).getD 0) := by
  simp [bytesAt, h]

lemma bytesAt_add (a n k : Nat) :
    m.bytesAt a (n + k) = m.bytesAt a n ++ m.bytesAt (a + n) k := by
  unfold bytesAt
  rw [range_add, map_append, map_map]
  simp only [Function.comp_def, add_assoc]

end

section

variable {m : AddressSpace}

variable {r : Region} {a size x : Nat}

section

variable (hi : Inv m)

include hi

/-- A slice of a mapping is what is seen there. -/
lemma region_bytes (hr : r ∈ m.regions) (hlo : r.start ≤ a) (hhi : a + size ≤ r.start + r.data.length) :
    (r.data.drop (a - r.start)).take size = m.bytesAt a size := by
  apply ext_getElem?
  intro i
  rw [getElem?_take]
  split
  next hlt =>
    have hx : r.Holds (a + i) := ⟨by omega, by omega⟩
    obtain ⟨v, hv, hview⟩ := view_of_mem hi hr hx
    have hplace : a + i - r.start = a - r.start + i := by omega
    rw [hplace] at hv
    rw [getElem?_drop, hv, getElem?_bytesAt m a size i hlt, hview]
    rfl
  next hge => rw [getElem?_eq_none (by rw [length_bytesAt]; omega)]

/-- What `accessAt` reports about the region that holds an address. -/
lemma view_segment (hfind : m.find a = some r) (hlo : a ≤ x)
    (hhi : x < a + (m.accessAt a r).2) : ∃ v, m.view x = some (v, (m.accessAt a r).1) := by
  obtain ⟨hr, hx⟩ := (find_eq_some_iff hi).mp hfind
  obtain ⟨-, hle, hsame⟩ := accessAt_spec m hx
  obtain ⟨hstart, -⟩ := hx
  obtain ⟨v, -, hview⟩ := view_of_mem hi hr (show r.Holds x from ⟨by omega, by omega⟩)
  rw [hsame x hlo hhi] at hview
  exact ⟨v, hview⟩

/-- The loop succeeds exactly if every address allows the access. -/
lemma checkLoop_ok_iff (access : Access) : ∀ turns a rem, rem ≤ turns →
      (m.checkLoop access turns a rem = .ok () ↔ m.Allowed a rem access) := by
  intro turns
  induction turns with
  | zero =>
    intro a rem hturns
    refine iff_of_true rfl ?_
    intro x hlo hhi
    omega
  | succ turns ih =>
  intro a rem hturns
  rw [checkLoop]
  split
  next hzero =>
    refine iff_of_true rfl ?_
    intro x hlo hhi
    omega
  next hpos =>
  cases hfind : m.find a with
  | none =>
    refine iff_of_false nofun ?_
    intro hall
    obtain ⟨v, hv, -⟩ := hall a le_rfl (by omega)
    obtain ⟨r, hmem, hx⟩ := (view_isSome_iff hi).mp (by rw [hv]; rfl)
    have hr := find_of_mem hi hmem hx
    rw [hfind] at hr
    cases hr
  | some r =>
  obtain ⟨-, hx⟩ := (find_eq_some_iff hi).mp hfind
  obtain ⟨havailable, -, -⟩ := accessAt_spec m hx
  simp only
  split
  next hdenied =>
    refine iff_of_false nofun ?_
    intro hall
    obtain ⟨v, hv, hacc⟩ := hall a le_rfl (by omega)
    obtain ⟨w, hw⟩ := view_segment hi hfind le_rfl (by omega)
    rw [hw] at hv
    cases hv
    exact hdenied hacc
  next hgranted =>
  rw [ih _ _ (by omega)]
  constructor
  · intro hall x hlo hhi
    rcases lt_or_ge x (a + min rem (m.accessAt a r).2) with hlt | hge
    · obtain ⟨v, hv⟩ := view_segment hi hfind hlo (by omega)
      exact ⟨_, hv, not_not.mp hgranted⟩
    · exact hall x hge (by omega)
  · intro hall x hlo hhi
    exact hall x (by omega) (by omega)

/-- A hit of the cache is allowed and right. -/
lemma cachedSpan_some {access : Access} {src : Bytes} (h : m.cachedSpan a size access = some src) :
    m.Allowed a size access ∧ src = m.bytesAt a size := by
  unfold cachedSpan at h
  split at h
  · cases h
  next e he =>
  split at h
  · cases h
  next hgranted =>
  simp only at h
  split at h
  · cases h
  next hins =>
  obtain ⟨r, hr, hbase, hlo, hhi, hsame⟩ := hi.cache _ e he
  rw [not_or, not_not, not_lt] at hgranted
  have hsource := Option.some.inj h
  have hregion : m.regions.find? (fun r => decide (r.start = e.base)) = some r := by
    refine find?_eq_some_of_unique hr hbase fun r' hr' hstart => ?_
    have hpos := hi.nonempty r hr
    have hpos' := hi.nonempty r' hr'
    exact eq_of_holds hi hr' hr (x := r.start) ⟨by omega, by omega⟩ ⟨le_rfl, by omega⟩
  constructor
  · intro x hx hx'
    obtain ⟨v, -, hview⟩ := view_of_mem hi hr (show r.Holds x from ⟨by omega, by omega⟩)
    rw [hsame x (by omega) (by omega)] at hview
    exact ⟨_, hview, hgranted.2⟩
  · rw [← hsource, spanBytes, hregion]
    simp only
    rw [← region_bytes hi hr (by omega) (by omega)]
    congr 2
    omega

/-- A range behind the end of the address space is not allowed. -/
lemma not_allowed_of_overflow (hpos : 0 < size) (hover : 2 ^ 64 < a + size)
    (access : Access) : ¬ m.Allowed a size access := by
  intro hall
  obtain ⟨v, hv, -⟩ := hall (a + size - 1) (by omega) (by omega)
  obtain ⟨r, hr, hx⟩ := (view_isSome_iff hi).mp (by rw [hv]; rfl)
  have := hi.bound r hr
  obtain ⟨-, hlt⟩ := hx
  omega

end

lemma validRange_iff (a : Nat) (size : Int) :
    validRange a size = true ↔ 0 ≤ size ∧ (size = 0 ∨ a + size ≤ 2 ^ 64) := by
  unfold validRange
  simp only [Bool.and_eq_true, Bool.or_eq_true, decide_eq_true_eq]
  omega

/-- The check succeeds exactly if every address allows the access. -/
lemma check_iff (hi : Inv m) (a : Nat) (size : Int) (access : Access) :
    m.check a size access = .ok () ↔ 0 ≤ size ∧ m.Allowed a size.toNat access := by
  unfold check
  have hval := validRange_iff a size
  cases hv : validRange a size with
  | false =>
    rw [hv] at hval
    refine iff_of_false nofun ?_
    rintro ⟨hnn, hall⟩
    have hover : ¬ (size = 0 ∨ a + size ≤ 2 ^ 64) := fun h => by
      have := hval.mpr ⟨hnn, h⟩
      cases this
    exact not_allowed_of_overflow hi (by omega) (by omega) access hall
  | true =>
  obtain ⟨hnn, -⟩ := hval.mp hv
  simp only [Bool.not_true, Bool.false_eq_true, if_false]
  split
  next hcached =>
    obtain ⟨src, hsource⟩ := Option.isSome_iff_exists.mp hcached
    exact iff_of_true rfl ⟨hnn, (cachedSpan_some hi hsource).1⟩
  · rw [checkLoop_ok_iff hi access _ _ _ le_rfl]
    exact ⟨fun h => ⟨hnn, h⟩, fun h => h.2⟩

end

/-! ## Reads -/

section

variable {m : AddressSpace}

/-- The loop reads what is seen, if everything is mapped. -/
lemma readLoop_eq (hi : Inv m) : ∀ turns a rem, rem ≤ turns →
      (∀ x, a ≤ x → x < a + rem → (m.view x).isSome) →
      m.readLoop turns a rem = some (m.bytesAt a rem) := by
  intro turns
  induction turns with
  | zero =>
    intro a rem hturns _
    have hzero : rem = 0 := by omega
    subst hzero
    rfl
  | succ turns ih =>
  intro a rem hturns hmapped
  rw [readLoop]
  split
  next hzero =>
    subst hzero
    rfl
  next hpos =>
  obtain ⟨r, hr, hx⟩ := (view_isSome_iff hi).mp (hmapped a le_rfl (by omega))
  have hlo := hx.1
  have hhi := hx.2
  -- one turn reads up to the end of the region
  have hlength : ((r.data.drop (a - r.start)).take rem).length =
      min rem (r.start + r.data.length - a) := by
    rw [length_take, length_drop]
    omega
  have hpart : (r.data.drop (a - r.start)).take rem =
      m.bytesAt a (min rem (r.start + r.data.length - a)) := by
    rw [← region_bytes hi hr hlo (by omega)]
    apply take_eq_take_iff.mpr
    rw [length_drop]
    omega
  have hrest := ih (a + min rem (r.start + r.data.length - a))
    (rem - min rem (r.start + r.data.length - a)) (by omega)
    (fun x hxlo hxhi => hmapped x (by omega) (by omega))
  rw [find_of_mem hi hr hx]
  simp only [Option.bind_eq_bind, Option.bind_some, hlength, hrest, Option.pure_def]
  rw [hpart, ← bytesAt_add]
  congr 2
  omega

lemma isSome_of_allowed {a size : Nat} {access : Access} (h : m.Allowed a size access) (x : Nat)
    (hlo : a ≤ x) (hhi : x < a + size) : (m.view x).isSome := by
  obtain ⟨v, hv, -⟩ := h x hlo hhi
  rw [hv]
  rfl

/-- A read past the cache succeeds exactly if it is allowed. -/
lemma readSlow_ok_iff (hi : Inv m) (a size : Nat) (access : Access) (l : Bytes) :
    m.readSlow a size access = .ok l ↔ m.Allowed a size access ∧ l = m.bytesAt a size := by
  have hcheck := check_iff hi a size access
  unfold readSlow
  cases hc : m.check a size access with
  | error e =>
    refine iff_of_false nofun ?_
    rintro ⟨hall, -⟩
    have := hcheck.mpr ⟨by omega, by simpa using hall⟩
    rw [hc] at this
    cases this
  | ok u =>
  have hall : m.Allowed a size access := by simpa using (hcheck.mp hc).2
  have hread := readLoop_eq hi size a size le_rfl (isSome_of_allowed hall)
  show Except.ok ((m.readLoop size a size).getD []) = .ok l ↔ _
  rw [hread, Option.getD_some, Except.ok.injEq]
  exact ⟨fun h => ⟨hall, h.symm⟩, fun h => h.2.symm⟩

lemma spanStart_bounds (m : AddressSpace) {a : Nat} {r : Region} (hx : r.Holds a) :
    r.start ≤ m.spanStart a r ∧ m.spanStart a r ≤ a := by
  obtain ⟨hlo, -⟩ := hx
  unfold spanStart
  have hfold : ∀ (ps : List Protection) (start : Nat), r.start ≤ start → start ≤ a →
      r.start ≤ ps.foldl (fun start p =>
        if p.start ≤ a then
          if a - p.start ≥ p.size then max (max start p.start) (p.start + p.size) else max start p.start
        else start) start ∧
      ps.foldl (fun start p =>
        if p.start ≤ a then
          if a - p.start ≥ p.size then max (max start p.start) (p.start + p.size) else max start p.start
        else start) start ≤ a := by
    intro ps
    induction ps with
    | nil =>
      intro start h h'
      exact ⟨h, h'⟩
    | cons p ps ih =>
    intro start h h'
    rw [foldl_cons]
    apply ih
    · split_ifs <;> omega
    · split_ifs <;> omega
  exact hfold m.protections _ (by omega) (by omega)

lemma inv_readCache (hi : Inv m) {cache : Nat → Option Span} (hcache : ∀ i e, cache i = some e → m.SpanOK e) :
    Inv { m with readCache := cache } :=
  { hi with cache := hcache }

lemma cacheSpan_eq (m : AddressSpace) (a : Nat) (r : Region) : m.cacheSpan a r = { m with
      readCache := Function.update m.readCache (cacheIndex a) (some ⟨m.spanStart a r,
          min (m.accessAt (m.spanStart a r) r).2 (4096 - m.spanStart a r % 4096), r.start,
          (m.accessAt (m.spanStart a r) r).1⟩) } := rfl

/-- Filling a slot of the cache keeps the invariant. -/
lemma inv_cacheSpan (hi : Inv m) {a : Nat} {r : Region} (hr : r ∈ m.regions) (hx : r.Holds a) :
    Inv (m.cacheSpan a r) := by
  obtain ⟨hlo, hhi⟩ := spanStart_bounds m hx
  have hholds : r.Holds (m.spanStart a r) := ⟨hlo, by have := hx.2; omega⟩
  obtain ⟨-, hle, hsame⟩ := accessAt_spec m hholds
  rw [cacheSpan_eq]
  apply inv_readCache hi
  intro i e he
  by_cases hidx : i = cacheIndex a
  · subst hidx
    rw [Function.update_self] at he
    cases he
    refine ⟨r, hr, rfl, hlo, ?_, ?_⟩
    · simp only
      omega
    · intro x hxlo hxhi
      simp only at hxlo hxhi
      exact hsame x hxlo (by omega)
  · rw [Function.update_of_ne hidx] at he
    exact hi.cache i e he

/-- A read changes the cache only. -/
lemma readMemory_state (hi : Inv m) (a size : Nat) (access : Access) :
    ∃ cache, (m.readMemory a size access).2 = { m with readCache := cache } ∧
      Inv { m with readCache := cache } := by
  have hsame : ∃ cache, m = { m with readCache := cache } ∧ Inv { m with readCache := cache } := ⟨m.readCache, rfl, hi⟩
  unfold readMemory
  split
  · exact hsame
  split
  · exact hsame
  split
  next r hfind =>
    have hmem : m.find a = some r := by
      split at hfind
      · exact hfind
      · cases hfind
    obtain ⟨hr, hx⟩ := (find_eq_some_iff hi).mp hmem
    have hcached : ∃ cache, m.cacheSpan a r = { m with readCache := cache } ∧
        Inv { m with readCache := cache } := ⟨_, rfl, inv_cacheSpan hi hr hx⟩
    simp only
    split
    · exact hcached
    · exact hcached
  · exact hsame

/-! ### Without the cache -/

/-- The same memory with an empty cache. -/
def uncached (m : AddressSpace) : AddressSpace := { m with readCache := fun _ => none }

/-- The cache does not change the answer of a check. -/
lemma check_eq (hi : Inv m) (a : Nat) (size : Int) (access : Access) : m.check a size access =
      if !validRange a size then .error (.rangeOverflows a)
      else m.checkLoop access size.toNat a size.toNat := by
  unfold check
  split
  · rfl
  split
  next hcached =>
    obtain ⟨src, hsource⟩ := Option.isSome_iff_exists.mp hcached
    exact ((checkLoop_ok_iff hi access _ _ _ le_rfl).mpr (cachedSpan_some hi hsource).1).symm
  · rfl

lemma checkLoop_uncached (m : AddressSpace) (access : Access) : ∀ turns a remaining,
      m.uncached.checkLoop access turns a remaining = m.checkLoop access turns a remaining := by
  intro turns
  induction turns with
  | zero =>
    intro a remaining
    rfl
  | succ turns ih =>
  intro a remaining
  have hfind : m.uncached.find a = m.find a := rfl
  have hacc : ∀ r, m.uncached.accessAt a r = m.accessAt a r := fun _ => rfl
  simp only [checkLoop, ih, hfind, hacc]

/-- A check does not depend on the cache. -/
lemma check_uncached (hi : Inv m) (a : Nat) (size : Int) (access : Access) :
    m.uncached.check a size access = m.check a size access := by
  rw [check_eq hi, check_eq (m := m.uncached) (inv_readCache hi nofun), checkLoop_uncached]

lemma readLoop_uncached (m : AddressSpace) :
    ∀ turns a remaining, m.uncached.readLoop turns a remaining = m.readLoop turns a remaining := by
  intro turns
  induction turns with
  | zero =>
    intro a remaining
    rfl
  | succ turns ih =>
  intro a remaining
  have hfind : m.uncached.find a = m.find a := rfl
  simp only [readLoop, ih, hfind]

section

variable (hi : Inv m) (a size : Nat) (access : Access)

include hi

lemma readSlow_uncached : m.uncached.readSlow a size access = m.readSlow a size access := by
  unfold readSlow
  rw [check_uncached hi, readLoop_uncached]

/-- The answer of a read does not depend on the cache. -/
lemma readMemory_fst : (m.readMemory a size access).1 =
      if access ≠ Read ∧ access ≠ Execute then .error (.invalidReadAccess access)
      else m.readSlow a size access := by
  unfold readMemory
  split
  · rfl
  split
  next src hsource => exact ((readSlow_ok_iff hi _ _ _ _).mpr (cachedSpan_some hi hsource)).symm
  split
  next r hfind =>
    have hmem : m.find a = some r := by
      split at hfind
      · exact hfind
      · cases hfind
    obtain ⟨hr, hx⟩ := (find_eq_some_iff hi).mp hmem
    have hi' := inv_cacheSpan hi hr hx
    have hslow : (m.cacheSpan a r).readSlow a size access = m.readSlow a size access := by
      rw [← readSlow_uncached hi', ← readSlow_uncached hi]
      rfl
    simp only
    split
    next src hsource =>
      rw [← hslow]
      exact ((readSlow_ok_iff hi' _ _ _ _).mpr (cachedSpan_some hi' hsource)).symm
    · exact hslow
  · rfl

/-- A read succeeds exactly if it is allowed, with the bytes that are seen. -/
lemma readMemory_ok_iff (l : Bytes) : (m.readMemory a size access).1 = .ok l ↔
      (access = Read ∨ access = Execute) ∧ m.Allowed a size access ∧ l = m.bytesAt a size := by
  rw [readMemory_fst hi]
  split
  next hbad =>
    refine iff_of_false nofun ?_
    rintro ⟨hacc | hacc, -⟩
    · exact hbad.1 hacc
    · exact hbad.2 hacc
  next hgood =>
  have hacc : access = Read ∨ access = Execute := by
    by_contra hnot
    exact hgood (not_or.mp hnot)
  rw [readSlow_ok_iff hi]
  exact ⟨fun h => ⟨hacc, h⟩, fun h => h.2⟩

end

end

end AddressSpace

end Trex.Emulator
