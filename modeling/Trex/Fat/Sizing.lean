import Mathlib.Data.List.TakeWhile
import Trex.Fat.Volume

/-!
# The size of the FAT

A larger FAT leaves fewer clusters, and fewer clusters need a smaller FAT.  So the loop of FAT12
and FAT16 is left in its second turn.
-/

namespace Trex.Fat

open List Option

open Trex.Filesystem (ceilDiv align)

open Trex.WrapAlloc (Run)

/-! ## Whole sectors and clusters -/

variable {v q n fatBits totalSectors : Nat}

lemma ceilDiv_le_iff (hq : 0 < q) : ceilDiv v q ≤ n ↔ v ≤ n * q := by
  unfold ceilDiv
  split
  next hv => simp [hv]
  · rw [← Nat.lt_succ_iff, Nat.div_lt_iff_lt_mul hq, Nat.succ_mul]
    omega

lemma le_align (v : Nat) (hq : 0 < q) : v ≤ align v q := (ceilDiv_le_iff hq).mp le_rfl

lemma ceilDiv_mono {v' : Nat} (hq : 0 < q) (h : v ≤ v') : ceilDiv v q ≤ ceilDiv v' q :=
  (ceilDiv_le_iff hq).mpr (le_trans h (le_align v' hq))

/-! ## FAT12 and FAT16 -/

section

variable (fatBits totalSectors candidate : Nat)

/-- The sectors that the table needs if it has `sectorsPerFAT`. -/
def fat16Required (sectorsPerFAT : Nat) : Nat :=
  let clusters := (totalSectors - 1 - 2 * sectorsPerFAT - 32) / candidate
  ceilDiv (ceilDiv ((clusters + 2) * fatBits) 8) sectorSize

/-- The loop is left in the turn with `sectorsPerFAT`; the next one would be with what is required. -/
def Fat16Left (sectorsPerFAT : Nat) : Prop :=
  totalSectors - 1 - 2 * sectorsPerFAT - 32 = 0 ∨
    fat16Required fatBits totalSectors candidate sectorsPerFAT ≤ sectorsPerFAT

/-- The loop over the size of the table has ended after two turns. -/
lemma fat16_left : Fat16Left fatBits totalSectors candidate 1 ∨
    Fat16Left fatBits totalSectors candidate (fat16Required fatBits totalSectors candidate 1) := by
  rcases Nat.le_total (fat16Required fatBits totalSectors candidate 1) 1 with hfits | hlarger
  · exact .inl (.inr hfits)
  · refine .inr (.inr (ceilDiv_mono (by decide) (ceilDiv_mono (by decide) (Nat.mul_le_mul_right _ ?_))))
    exact Nat.add_le_add_right (Nat.div_le_div_right (by omega)) 2

/-- More than two turns of the loop change nothing. -/
lemma fat16Sectors_turns (turns : Nat) : fat16Sectors fatBits totalSectors candidate (turns + 2) 1 =
    fat16Sectors fatBits totalSectors candidate 2 1 := by
  simp only [fat16Sectors]
  split
  · rfl
  next hroom =>
  split
  · rfl
  next hlarger =>
  split
  · rfl
  next hroom' =>
  have hleft := (fat16_left fatBits totalSectors candidate).resolve_left fun h => h.elim hroom hlarger
  have hfits := hleft.resolve_left hroom'
  exact (if_pos hfits).trans (if_pos hfits).symm

end

/-- What the loop accepts is valid and large enough. -/
lemma fat16Sectors_valid {candidate turns sectorsPerFAT result : Nat}
    (h : fat16Sectors fatBits totalSectors candidate turns sectorsPerFAT = some result) :
    fat16Valid fatBits ((totalSectors - 1 - 2 * result - 32) / candidate) = true ∧
      fat16Required fatBits totalSectors candidate result ≤ result := by
  induction turns generalizing sectorsPerFAT with
  | zero => cases h
  | succ turns ih =>
  rw [fat16Sectors] at h
  simp only at h
  split at h
  · cases h
  split at h
  next hfits =>
    split at h
    next hval =>
      cases h
      exact ⟨hval, hfits⟩
    · cases h
  · exact ih h

/-- The geometry that is chosen is valid and its table large enough. -/
lemma fat16Geometry_valid {g : Nat × Nat} (h : fat16Geometry fatBits totalSectors = some g) :
    fat16Valid fatBits ((totalSectors - 1 - 2 * g.2 - 32) / g.1) = true ∧
      fat16Required fatBits totalSectors g.1 g.2 ≤ g.2 := by
  obtain ⟨candidate, -, hcandidate⟩ := exists_of_findSome?_eq_some h
  obtain ⟨sectorsPerFAT, hsecs, rfl⟩ := map_eq_some_iff.mp hcandidate
  exact fat16Sectors_valid hsecs

lemma fat16Valid_bounds {clusters : Nat} (h : fat16Valid fatBits clusters = true) :
    0 < clusters ∧ clusters < 65525 := by
  unfold fat16Valid at h
  split at h
  · simp only [decide_eq_true_eq] at h
    omega
  · simp only [decide_eq_true_eq] at h
    omega

lemma fat16Sectors_two {candidate result : Nat} (h : fat16Sectors fatBits totalSectors candidate 2 1 = some result) :
    result = 1 ∨ result = fat16Required fatBits totalSectors candidate 1 := by
  simp only [fat16Sectors] at h
  split_ifs at h
  · exact .inl (Option.some.inj h).symm
  · exact .inr (Option.some.inj h).symm

/-- The FAT is small: what the first turn requires is not much more than what 65525 clusters take. -/
lemma fat16Geometry_fields {g : Nat × Nat} (hbits : fatBits ≤ 16) (h : fat16Geometry fatBits totalSectors = some g) :
    (0 < g.1 ∧ g.1 < 256) ∧ g.2 < 2 ^ 16 := by
  obtain ⟨hval, -⟩ := fat16Geometry_valid h
  obtain ⟨hpos, hmax⟩ := fat16Valid_bounds hval
  obtain ⟨candidate, hmem, hcandidate⟩ := exists_of_findSome?_eq_some h
  obtain ⟨sectorsPerFAT, hsecs, rfl⟩ := map_eq_some_iff.mp hcandidate
  have hall : ∀ c ∈ [1, 2, 4, 8, 16, 32, 64, 128], 0 < c ∧ c < 256 := by decide
  obtain ⟨hcandidate0, hcandidate1⟩ := hall candidate hmem
  refine ⟨⟨hcandidate0, hcandidate1⟩, ?_⟩
  rcases fat16Sectors_two hsecs with rfl | hrequired
  · exact (by decide : 1 < 2 ^ 16)
  dsimp only at hpos hmax ⊢
  generalize hrest : totalSectors - 1 - 2 * sectorsPerFAT - 32 = rest at *
  -- the first turn counts the clusters that the larger FAT takes away
  have hmore : (totalSectors - 1 - 2 * 1 - 32) / candidate ≤ rest / candidate + 2 * sectorsPerFAT := by
    rw [← Nat.add_mul_div_left _ _ hcandidate0]
    refine Nat.div_le_div_right ?_
    have hmul : 2 * sectorsPerFAT ≤ candidate * (2 * sectorsPerFAT) := Nat.le_mul_of_pos_left _ hcandidate0
    have hrest0 : 0 < rest := Nat.pos_of_div_pos hpos
    omega
  unfold fat16Required at hrequired
  dsimp only at hrequired
  generalize (totalSectors - 1 - 2 * 1 - 32) / candidate = clusters at *
  have hbytes : ceilDiv ((clusters + 2) * fatBits) 8 ≤ (clusters + 2) * 2 := by
    rw [ceilDiv_le_iff (by decide)]
    have := Nat.mul_le_mul_left (clusters + 2) hbits
    omega
  have hsectors : sectorsPerFAT ≤ (clusters + 2) * 2 / sectorSize + 1 := by
    rw [hrequired, ceilDiv_le_iff (by decide)]
    unfold sectorSize
    omega
  unfold sectorSize at hsectors
  omega

/-- The reader finds the width that the builder used. -/
lemma fatType_of_valid {clusters : Nat} (hbits : fatBits = 12 ∨ fatBits = 16)
    (h : fat16Valid fatBits clusters = true) : fatType clusters = fatBits := by
  unfold fat16Valid at h
  unfold fatType
  rcases hbits with rfl | rfl
  · simp at h
    rw [if_pos h.2]
  · simp at h
    rw [if_neg (by omega), if_pos h.2]

/-! ## FAT32 -/

lemma fat32ClusterSectors_mem (totalSectors : Nat) : fat32ClusterSectors totalSectors ∈ [8, 4, 2, 1] := by
  unfold fat32ClusterSectors
  cases hfind : find? _ [8, 4, 2, 1] with
  | none => decide
  | some s => exact mem_of_find?_eq_some hfind

/-- The formula of FAT32 has room for the two entries in front. -/
lemma fat32SectorsPerFAT_room : let sectors := fat32ClusterSectors totalSectors
    let sectorsPerFAT := fat32SectorsPerFAT totalSectors sectors
    let clusters := (totalSectors - 32 - 2 * sectorsPerFAT) / sectors
    65525 ≤ clusters → (clusters + 2) * 32 ≤ sectorsPerFAT * sectorSize * 8 := by
  intro sectors sectorsPerFAT clusters h
  have hsecs : sectors ∈ [8, 4, 2, 1] := fat32ClusterSectors_mem totalSectors
  have hpos : ¬ (totalSectors ≤ 32 ∨ sectors = 0) := by
    rintro (hsmall | hzero)
    · rw [show clusters = 0 / sectors by simp only [clusters]; congr 1; omega] at h
      simp at h
    · simp [hzero] at hsecs
  have hround : totalSectors - 32 ≤ sectorsPerFAT * ((256 * sectors + 2) / 2) := by
    simp only [sectorsPerFAT]
    unfold fat32SectorsPerFAT
    rw [if_neg hpos]
    exact le_align _ (by omega)
  have hclus : clusters * sectors ≤ totalSectors - 32 - 2 * sectorsPerFAT := Nat.div_mul_le_self _ _
  clear_value clusters sectorsPerFAT sectors
  simp only [mem_cons, not_mem_nil, or_false] at hsecs
  unfold sectorSize
  rcases hsecs with rfl | rfl | rfl | rfl <;> omega

/-! ## Chains in the table -/

lemma map_fst_chainWrites (eoc width : Nat) (placed : List Placed) :
    (placed.flatMap (chainWrites eoc width)).map Prod.fst = placed.flatMap (Run.cells word) := by
  rw [List.map_flatMap]
  refine flatMap_congr fun p _ => ?_
  unfold chainWrites Run.cells
  rw [List.map_map]
  rfl

/-- The table links each cluster of a chain to the next one and marks the last, when no cluster belongs to
two chains. -/
lemma makeFAT_linked {first second eoc width limit : Nat} {placed : List Placed}
    (hwidth : limit ≤ width ∧ width < word ∨ width = word) (hinside : chainsInside limit placed = true)
    (honce : (placed.flatMap (Run.cells word)).Nodup) {p : Placed} (hp : p ∈ placed) {i : Nat} (hi : i < p.count) :
    makeFAT first second eoc width placed ((p.start + i) % word) =
      if i + 1 = p.count then eoc else (p.start + i + 1) % word := by
  have hcell : ∀ j < p.count, (p.start + j) % word < limit := by
    intro j hj
    have hmem : (p.start + j) % word ∈ p.cells word := mem_map.mpr ⟨j, mem_range.mpr hj, rfl⟩
    simpa using all_eq_true.mp (all_eq_true.mp hinside p hp) _ hmem
  refine WrapAlloc.writeAll_of_mem (by rwa [map_fst_chainWrites]) ?_
  refine mem_flatMap.mpr ⟨p, hp, mem_map.mpr ⟨i, mem_range.mpr hi, Prod.ext rfl ?_⟩⟩
  simp only
  split
  · rfl
  have hthis := hcell i hi
  have hnext := hcell (i + 1) (by omega)
  rcases hwidth with ⟨hlimit, hsmall⟩ | rfl
  · have hsucc : (p.start + i + 1) % word = (p.start + i) % word + 1 := by
      unfold word at *
      omega
    rw [← add_assoc, hsucc] at hnext
    rw [hsucc, Nat.mod_eq_of_lt (by omega)]
  · exact Nat.mod_add_mod ..

/-- The FAT has room for the clusters, which are as many as the layout leaves and show the width of the
format; the chains are inside, and the table is made of them. -/
structure Sufficient (f : Format) (size : Nat) (l : Layout) : Prop where
  size_eq : l.size = size
  room : (l.availableClusters + 2) * f.bits ≤ l.fatSize * 8
  geometry : ∃ sectorsPerCluster sectorsPerFAT, Geometry f l sectorsPerCluster sectorsPerFAT
  detected : fatType l.availableClusters = f.bits
  inside : chainsInside (l.availableClusters + 2) l.placed = true
  table : ∃ first second, l.fat = makeFAT first second f.eoc (if f = .fat32 then word else 2 ^ 16) l.placed

/-- The image is read as it was built: the entries of every chain, and the geometry with the width of the
table. -/
structure ReadBack (f : Format) (l : Layout) : Prop where
  entries : ∀ c < l.availableClusters + 2, entryAt f.bits (l.fatBytes f.bits) c = some (l.fat c % 2 ^ f.bits)
  chains : (l.placed.flatMap (Run.cells word)).Nodup → ∀ p ∈ l.placed, ∀ i < p.count,
    entryAt f.bits (l.fatBytes f.bits) ((p.start + i) % word) =
      some (if i + 1 = p.count then f.eoc else (p.start + i + 1) % word)
  image : ∀ base : Bytes, base.length = sectorSize → newFATImage (l.bootSector f base) = .ok {
    fatType := f.bits
    clusters := l.availableClusters
    clusterSize := l.clusterSize
    fatOffset := l.fatStart
    fatLength := l.fatSize
    dataOffset := l.dataOffset }

namespace Sufficient

variable {f : Format} {size : Nat} {l : Layout} (h : Sufficient f size l)

include h

lemma cell_lt {p : Placed} (hp : p ∈ l.placed) {i : Nat} (hi : i < p.count) :
    (p.start + i) % word < l.availableClusters + 2 := by
  have hmem : (p.start + i) % word ∈ p.cells word := mem_map.mpr ⟨i, mem_range.mpr hi, rfl⟩
  simpa using all_eq_true.mp (all_eq_true.mp h.inside p hp) _ hmem

/-- The numbers of clusters and the mark fit the entries. -/
lemma entry_lt : (f ≠ .fat32 → l.availableClusters + 2 < 2 ^ f.bits) ∧ f.eoc < 2 ^ f.bits := by
  have hdetected := h.detected
  unfold fatType at hdetected
  cases f with
  | fat12 | fat16 | fat32 =>
    simp only [Format.bits, Format.eoc] at *
    refine ⟨fun hf => ?_, by decide⟩
    split_ifs at hdetected <;> first | omega | exact absurd rfl hf

/-- The reader follows the chain of a node through the bytes of the table. -/
lemma chain (honce : (l.placed.flatMap (Run.cells word)).Nodup) {p : Placed} (hp : p ∈ l.placed) {i : Nat}
    (hi : i < p.count) : entryAt f.bits (l.fatBytes f.bits) ((p.start + i) % word) =
      some (if i + 1 = p.count then f.eoc else (p.start + i + 1) % word) := by
  obtain ⟨first, second, htable⟩ := h.table
  obtain ⟨hfew, heoc⟩ := h.entry_lt
  have hwidth : l.availableClusters + 2 ≤ (if f = .fat32 then word else 2 ^ 16) ∧
      (if f = .fat32 then word else 2 ^ 16) < word ∨ (if f = .fat32 then word else 2 ^ 16) = word := by
    cases f with
    | fat12 | fat16 =>
      have hfew := hfew (by decide)
      refine .inl ⟨?_, by decide⟩
      simp only [Format.bits, reduceCtorEq, if_false] at *
      omega
    | fat32 => exact .inr rfl
  rw [entryAt_fatBytes f.width h.room (h.cell_lt hp hi), htable, makeFAT_linked hwidth h.inside honce hp hi]
  congr 1
  split
  · exact Nat.mod_eq_of_lt heoc
  next hlast =>
  have hnext := h.cell_lt hp (show i + 1 < p.count by omega)
  rw [← add_assoc] at hnext
  refine Nat.mod_eq_of_lt ?_
  cases f with
  | fat12 | fat16 => exact lt_trans hnext (hfew (by decide))
  | fat32 => exact Nat.mod_lt _ (by decide)

/-- FAT12 and FAT16 have few sectors. -/
lemma size_lt (hf : f ≠ .fat32) : l.size / sectorSize < 2 ^ 32 := by
  obtain ⟨sectorsPerCluster, sectorsPerFAT, g⟩ := h.geometry
  have hfew := h.entry_lt.1 hf
  have hfat := g.tableField.2 hf
  have hbits : 2 ^ f.bits ≤ 2 ^ 16 ∧ f.reserved = 1 ∧ f.rootSectors = 32 := by
    cases f with
    | fat12 | fat16 => decide
    | fat32 => exact absurd rfl hf
  have hcount := g.count
  have hlt := Nat.lt_mul_div_succ (l.size / sectorSize - (f.reserved + 2 * sectorsPerFAT + f.rootSectors))
    g.clusterField.1
  rw [← hcount] at hlt
  have hmul : sectorsPerCluster * (l.availableClusters + 1) ≤ 256 * 2 ^ 16 :=
    Nat.mul_le_mul g.clusterField.2.le (by omega)
  omega

/-- The reader finds the geometry and the chains of the layout. -/
lemma readBack (hsize : f = .fat32 → size / sectorSize < 2 ^ 32) : ReadBack f l where
  entries := fun _ hc => entryAt_fatBytes f.width h.room hc
  chains := fun honce _ hp _ hi => h.chain honce hp hi
  image := fun base hbase => by
    obtain ⟨sectorsPerCluster, sectorsPerFAT, g⟩ := h.geometry
    refine newFATImage_bootSector g h.detected ?_ hbase
    by_cases hf : f = .fat32
    · rw [h.size_eq]
      exact hsize hf
    · exact h.size_lt hf

end Sufficient

end Trex.Fat
