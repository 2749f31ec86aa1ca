import Trex.Fat.ImportOrder
import Trex.Fat.Sizing

/-!
# The layout of a FAT image

What a directory needs and what is written for it are both numbers of entries; they are compared
here.  Everything else follows from the order in which the counter gives out clusters.
-/

namespace Trex.Fat

open List Option

open Bytes (ascii zeros le16 le32)

open Trex.Filesystem (Path Unicode ceilDiv align utf16Units FileRecord)

open Trex.WrapAlloc (Run allocate total writeAll)

/-! ## Soundness -/

def Region.Disjoint (a b : Region) : Prop := a.start + a.size ≤ b.start ∨ b.start + b.size ≤ a.start

/-- Every node has its clusters, its bytes fit in them, and they are its own; the FAT links them;
the extents are apart and inside the image. -/
structure Sound (t : Tree) (l : Layout) : Prop where
  all : ∀ r, r < t.nodes.length → (r = 0 ∧ l.rootRoom.isSome) ∨ ∃ p ∈ l.placed, p.owner = r
  fits : ∀ p ∈ l.placed, l.bytes t p.owner ≤ p.count * l.clusterSize
  rootFits : ∀ room, l.rootRoom = some room → (l.dirData 0).length ≤ room
  range : ∀ p ∈ l.placed, ∀ c ∈ p.cells word, 2 ≤ c ∧ c < l.availableClusters + 2
  once : (l.placed.flatMap (Run.cells word)).Nodup
  linked : ∀ p ∈ l.placed, ∀ i, i < p.count → l.fat (p.start + i) = if i + 1 = p.count then l.eoc else p.start + i + 1
  free : ∀ c, 2 ≤ c → c ∉ l.placed.flatMap (Run.cells word) → l.fat c = 0
  disjoint : (l.extents t).Pairwise Region.Disjoint
  inside : ∀ e ∈ l.extents t, e.start + e.size ≤ l.size

/-! ## Whole clusters -/

variable {v q n clusterSize stage size fatBits totalSectors : Nat} {bootCode : Bytes} {u : Unicode}
  {t t' : Tree} {order : List Ref} {label : Option Bytes} {l : Layout}

lemma align_le_iff (hq : 0 < q) : align v q ≤ n * q ↔ ceilDiv v q ≤ n :=
  ⟨fun h => Nat.le_of_mul_le_mul_right h hq, Nat.mul_le_mul_right q⟩

/-- One entry more needs no cluster more, unless the entries fill their clusters. -/
lemma ceilDiv_entry_le_iff {n k : Nat} :
    ceilDiv ((n + 1) * 32) (k * 32) ≤ ceilDiv (n * 32) (k * 32) ↔ ¬ k * 32 ∣ n * 32 ∨ k = 0 := by
  rcases Nat.eq_zero_or_pos k with rfl | hk
  · simp [ceilDiv]
  have hq : 0 < k * 32 := by omega
  rw [ceilDiv_le_iff hq]
  have hle : n * 32 ≤ ceilDiv (n * 32) (k * 32) * (k * 32) := le_align _ hq
  have hdivides : k * 32 ∣ n * 32 ↔ n * 32 = ceilDiv (n * 32) (k * 32) * (k * 32) := by
    constructor
    · rintro ⟨m, hm⟩
      have hm' : ceilDiv (n * 32) (k * 32) ≤ m := (ceilDiv_le_iff hq).mpr (by rw [hm, mul_comm])
      have := Nat.mul_le_mul_right (k * 32) hm'
      rw [mul_comm m, ← hm] at this
      omega
    · intro h
      exact ⟨_, h.trans (mul_comm _ _)⟩
  have hmul : ceilDiv (n * 32) (k * 32) * (k * 32) = ceilDiv (n * 32) (k * 32) * k * 32 := (mul_assoc _ _ _).symm
  rw [hdivides]
  generalize ceilDiv (n * 32) (k * 32) * (k * 32) = whole at *
  omega

/-! ## The length of a directory -/

@[simp] lemma length_le16 (v : Nat) : (le16 v).length = 2 := LittleEndian.length_put ..
@[simp] lemma length_le32 (v : Nat) : (le32 v).length = 4 := LittleEndian.length_put ..
@[simp] lemma length_zeros (n : Nat) : (zeros n).length = n := length_replicate
@[simp] lemma length_shortField (short : Bytes) : (shortField short).length = 11 := by
  simp [shortField]

@[simp] lemma length_dirEntry (u : Unicode) (name : Bytes) (cluster size : Nat) (attr : UInt8)
    (short : Bytes) : (dirEntry u name cluster size attr short).length = 32 := by
  simp [dirEntry]

lemma length_flatMap_const {α : Type} {f : α → Bytes} (hf : ∀ a, (f a).length = n) (l : List α) :
    (l.flatMap f).length = l.length * n := by
  induction l with
  | nil => simp
  | cons a l ih => rw [flatMap_cons, length_append, hf, ih, length_cons, Nat.succ_mul, add_comm]

@[simp] lemma length_lfnChars (units : List Nat) (i first count : Nat) :
    (lfnChars units i first count).length = count * 2 := by
  unfold lfnChars
  rw [length_flatMap_const (fun _ => length_le16 _), length_range']

@[simp] lemma length_lfnEntry (units : List Nat) (count : Nat) (checksum : UInt8) (i : Nat) :
    (lfnEntry units count checksum i).length = 32 := by
  simp [lfnEntry]

/-- A long name takes an entry for every thirteen units. -/
lemma length_lfnEntries (u : Unicode) (name short : Bytes) : (lfnEntries u name short).length =
      (if needsLFN u name short then ((utf16Units name).length + 12) / 13 else 0) * 32 := by
  unfold lfnEntries
  simp only
  split
  next h =>
    rcases h with h | h
    · simp [h]
    · simp [h]
  next h =>
    rw [not_or, not_not] at h
    rw [length_flatMap_const (length_lfnEntry _ _ _), length_reverse, length_range, if_pos h.2]

lemma length_childEntries (u : Unicode) (t : Tree) (placed : List Placed) (r : Ref) :
    (childEntries u t placed r).length = childEntryCount u t r * 32 := by
  unfold childEntries childEntryCount
  induction (t.node r).children with
  | nil => rfl
  | cons c cs ih =>
  rw [flatMap_cons, length_append, map_cons, sum_cons, ih]
  simp only [length_append, length_lfnEntries, length_dirEntry]
  omega

/-- The entries that are written in front of the terminator. -/
def entryCount (u : Unicode) (t : Tree) (label : Option Bytes) (r : Ref) : Nat :=
  (if r = 0 then if label.isSome then 1 else 0 else 2) + childEntryCount u t r

/-- What is written of a directory in front of the terminator. -/
lemma length_directoryEntries (u : Unicode) (t : Tree) (placed : List Placed) (label : Option Bytes)
    (r : Ref) : (directoryEntries u t placed label r).length = entryCount u t label r * 32 := by
  unfold directoryEntries entryCount
  rw [length_append, length_childEntries]
  split
  · cases label with
    | none => simp
    | some label =>
      simp only [length_dirEntry, isSome_some, if_true]
      omega
  · unfold dotEntries
    simp only [length_append, length_dirEntry]
    omega

/-- A directory is written up to whole clusters. -/
lemma length_fillClusters (entries : Bytes) (h : 0 < clusterSize) :
    (fillClusters entries clusterSize).length = align (entries.length + 32) clusterSize := by
  have hle := le_align (entries.length + 32) h
  unfold fillClusters
  rw [length_append, length_zeros]
  omega

/-! ## From clusters to the image -/

section

variable {t : Tree} {l : Layout} {need used : Ref → Nat} {nodes : List Ref} {first second width : Nat}

/-- What the layouts have in common: `need` is what a node gets and `used` what it takes. -/
structure Plan (t : Tree) (l : Layout) (need used : Ref → Nat) (nodes : List Ref)
    (first second width : Nat) : Prop where
  placed : l.placed = (allocate word need nodes 2).1
  inTable : chainsInside (l.availableClusters + 2) l.placed = true
  fat : l.fat = makeFAT first second l.eoc width l.placed
  width : ∀ c, c < l.availableClusters + 2 → c < word → c < width
  clusterSize : 0 < l.clusterSize
  bytes : ∀ r ∈ nodes, ∀ n, l.bytes t r ≤ n * l.clusterSize ↔ used r ≤ n
  need_le : ∀ r ∈ nodes, need r ≤ used r
  all : ∀ r, r < t.nodes.length → (r = 0 ∧ l.rootRoom.isSome) ∨ r ∈ nodes
  rootFits : ∀ room, l.rootRoom = some room → (l.dirData 0).length ≤ room
  system : l.system.Pairwise Region.Disjoint
  systemEnd : ∀ e ∈ l.system, e.start + e.size ≤ l.dataOffset
  dataEnd : l.dataOffset + l.availableClusters * l.clusterSize ≤ l.size

namespace Plan

variable {p : Placed} {c : Nat} (h : Plan t l need used nodes first second width)

include h

lemma owner_mem (hp : p ∈ l.placed) : p.owner ∈ nodes := by
  rw [← WrapAlloc.map_owner_allocate word need nodes 2, ← h.placed]
  exact mem_map_of_mem hp

lemma exists_placed {r : Ref} (hr : r ∈ nodes) : ∃ p ∈ l.placed, p.owner = r := by
  rw [← WrapAlloc.map_owner_allocate word need nodes 2, ← h.placed] at hr
  obtain ⟨p, hp, rfl⟩ := mem_map.mp hr
  exact ⟨p, hp, rfl⟩

/-- The counter wraps, so a run has what the node needs modulo 2^32. -/
lemma count_eq (hp : p ∈ l.placed) : p.count = need p.owner % word := by
  rw [h.placed] at hp
  exact WrapAlloc.count_allocate hp

lemma cell_lt (hp : p ∈ l.placed) (hc : c ∈ p.cells word) : c < l.availableClusters + 2 := by
  have hall := all_eq_true.mp h.inTable p hp
  simpa using all_eq_true.mp hall c hc

/-- A sound layout has not wrapped the counter, and each node takes what it needs. -/
lemma of_sound (hsound : Sound t l) : 2 + total need nodes ≤ word ∧ ∀ r ∈ nodes, used r ≤ need r := by
  have hused : ∀ r ∈ nodes, used r ≤ need r % word := by
    intro r hr
    obtain ⟨p, hp, rfl⟩ := h.exists_placed hr
    rw [← h.count_eq hp]
    exact (h.bytes _ hr _).mp (hsound.fits p hp)
  refine ⟨?_, fun r hr => le_trans (hused r hr) (Nat.mod_le _ _)⟩
  refine WrapAlloc.total_le_of_avoid (by decide) (fun r hr => ?_) fun p hp hzero => ?_
  · have hle := le_trans (h.need_le r hr) (hused r hr)
    exact lt_of_le_of_lt hle (Nat.mod_lt _ (by decide))
  · rw [← h.placed] at hp
    have hrange := (hsound.range p hp 0 hzero).1
    omega

variable (htotal : 2 + total need nodes ≤ word)

include htotal

lemma count_eq_need (hp : p ∈ l.placed) : p.count = need p.owner := by
  have hle : need p.owner ≤ total need nodes := le_sum_of_mem (mem_map_of_mem (h.owner_mem hp))
  rw [h.count_eq hp, Nat.mod_eq_of_lt (by omega)]

/-- A run lies in the data area. -/
lemma within (hp : p ∈ l.placed) (hpos : 0 < p.count) :
    2 ≤ p.start ∧ p.start + p.count ≤ word ∧ p.start + p.count ≤ l.availableClusters + 2 := by
  have hp' := hp
  rw [h.placed] at hp'
  obtain ⟨hlo, hhi⟩ := (WrapAlloc.allocate_spec htotal).1 p hp' hpos
  have hword : p.start + p.count ≤ word := by omega
  have hlast := h.cell_lt hp ((WrapAlloc.mem_cells hword).mpr
    (show p.start ≤ p.start + p.count - 1 ∧ p.start + p.count - 1 < p.start + p.count by omega))
  omega

/-- The runs follow one another. -/
lemma ordered : l.placed.Pairwise fun p q => 0 < p.count → 0 < q.count → p.start + p.count ≤ q.start := by
  rw [h.placed]
  exact (WrapAlloc.allocate_spec htotal).2

/-- No cluster is given to two nodes. -/
lemma once : (l.placed.flatMap (Run.cells word)).Nodup :=
  WrapAlloc.nodup_flatMap_cells (fun _ hp hpos => (h.within htotal hp hpos).2.1) (h.ordered htotal)

/-- The chain of a run goes from cluster to cluster and ends with the mark. -/
lemma linked (hp : p ∈ l.placed) {i : Nat} (hi : i < p.count) :
    l.fat (p.start + i) = if i + 1 = p.count then l.eoc else p.start + i + 1 := by
  obtain ⟨-, hword, hend⟩ := h.within htotal hp (by omega)
  rw [h.fat]
  refine WrapAlloc.writeAll_of_mem ?_ ?_
  · rw [map_fst_chainWrites]
    exact h.once htotal
  refine mem_flatMap.mpr ⟨p, hp, mem_map.mpr ⟨i, mem_range.mpr hi, ?_⟩⟩
  rw [Nat.mod_eq_of_lt (show p.start + i < word by omega)]
  refine Prod.ext rfl ?_
  simp only
  split
  · rfl
  · exact Nat.mod_eq_of_lt (h.width _ (by omega) (by omega))

omit htotal in
/-- A cluster that no run has is free in the table. -/
lemma free (hc : 2 ≤ c) (hfree : c ∉ l.placed.flatMap (Run.cells word)) : l.fat c = 0 := by
  rw [h.fat]
  unfold makeFAT
  rw [WrapAlloc.writeAll_of_not_mem (by rwa [map_fst_chainWrites]), if_neg (by omega), if_neg (by omega)]

variable (hused : ∀ r ∈ nodes, used r ≤ need r)

include hused

/-- The bytes of a node fit in its run. -/
lemma fits (hp : p ∈ l.placed) : l.bytes t p.owner ≤ p.count * l.clusterSize := by
  rw [h.count_eq_need htotal hp]
  exact (h.bytes _ (h.owner_mem hp) _).mpr (hused _ (h.owner_mem hp))

/-- A node that takes bytes lies between the clusters of its neighbours. -/
lemma place (hp : p ∈ l.placed) (hbytes : l.bytes t p.owner ≠ 0) :
    0 < p.count ∧ l.clusterOffset p.start = l.dataOffset + (p.start - 2) * l.clusterSize ∧
      l.clusterOffset p.start + l.bytes t p.owner ≤ l.dataOffset + (p.start + p.count - 2) * l.clusterSize := by
  have hfits := h.fits htotal hused hp
  have hpos : 0 < p.count := by
    rcases Nat.eq_zero_or_pos p.count with hzero | hpos
    · rw [hzero, zero_mul] at hfits
      omega
    · exact hpos
  obtain ⟨hlo, hword, -⟩ := h.within htotal hp hpos
  have hoff : l.clusterOffset p.start = l.dataOffset + (p.start - 2) * l.clusterSize := by
    unfold Layout.clusterOffset
    rw [show p.start + word - 2 = p.start - 2 + word by omega, Nat.add_mod_right, Nat.mod_eq_of_lt (by omega)]
  refine ⟨hpos, hoff, ?_⟩
  rw [hoff, show p.start + p.count - 2 = p.start - 2 + p.count by omega, add_mul]
  omega

/-- No two areas of the image overlap. -/
lemma disjoint : (l.extents t).Pairwise Region.Disjoint := by
  unfold Layout.extents
  rw [pairwise_append]
  refine ⟨h.system, ?_, fun e he e' he' => ?_⟩
  · rw [pairwise_filterMap]
    refine (h.ordered htotal).imp_of_mem fun {p q} hp hq hle e he e' he' => ?_
    obtain ⟨hbytes, ⟨⟩⟩ := ite_none_left_eq_some.mp he
    obtain ⟨hbytes', ⟨⟩⟩ := ite_none_left_eq_some.mp he'
    obtain ⟨hpos, -, hend⟩ := h.place htotal hused hp hbytes
    obtain ⟨hpos', hstart, -⟩ := h.place htotal hused hq hbytes'
    have hmul : (p.start + p.count - 2) * l.clusterSize ≤ (q.start - 2) * l.clusterSize :=
      Nat.mul_le_mul_right _ (Nat.sub_le_sub_right (hle hpos hpos') 2)
    left
    show l.clusterOffset p.start + l.bytes t p.owner ≤ l.clusterOffset q.start
    omega
  obtain ⟨p, hp, hsome⟩ := mem_filterMap.mp he'
  obtain ⟨hbytes, ⟨⟩⟩ := ite_none_left_eq_some.mp hsome
  have hend := h.systemEnd e he
  have hoff := (h.place htotal hused hp hbytes).2.1
  left
  show e.start + e.size ≤ l.clusterOffset p.start
  rw [hoff]
  exact le_trans hend (Nat.le_add_right _ _)

/-- Every area lies in the image. -/
lemma inside {e : Region} (he : e ∈ l.extents t) : e.start + e.size ≤ l.size := by
  rcases mem_append.mp he with he | he
  · exact le_trans (h.systemEnd e he) (le_trans (Nat.le_add_right _ _) h.dataEnd)
  obtain ⟨p, hp, hsome⟩ := mem_filterMap.mp he
  obtain ⟨hbytes, ⟨⟩⟩ := ite_none_left_eq_some.mp hsome
  obtain ⟨hpos, -, hend⟩ := h.place htotal hused hp hbytes
  obtain ⟨-, -, hlast⟩ := h.within htotal hp hpos
  have hmul : (p.start + p.count - 2) * l.clusterSize ≤ l.availableClusters * l.clusterSize :=
    Nat.mul_le_mul_right _ (by omega)
  have hdata := h.dataEnd
  show l.clusterOffset p.start + l.bytes t p.owner ≤ l.size
  omega

lemma sound : Sound t l where
  all := fun r hr => (h.all r hr).imp_right h.exists_placed
  fits := fun _ hp => h.fits htotal hused hp
  rootFits := h.rootFits
  range := fun p hp c hc => by
    refine ⟨?_, h.cell_lt hp hc⟩
    rcases Nat.eq_zero_or_pos p.count with hzero | hpos
    · rw [WrapAlloc.cells_of_empty hzero] at hc
      cases hc
    · obtain ⟨hlo, hword, -⟩ := h.within htotal hp hpos
      exact le_trans hlo ((WrapAlloc.mem_cells hword).mp hc).1
  once := h.once htotal
  linked := fun _ hp _ hi => h.linked htotal hp hi
  free := fun _ hc hfree => h.free hc hfree
  disjoint := h.disjoint htotal hused
  inside := fun _ he => h.inside htotal hused he

omit htotal hused in
/-- The image is sound exactly if the counter does not wrap and every node gets what it writes. -/
lemma sound_iff : Sound t l ↔ 2 + total need nodes ≤ word ∧ ∀ r ∈ nodes, used r ≤ need r :=
  ⟨h.of_sound, fun hgood => h.sound hgood.1 hgood.2⟩

end Plan

end

/-! ## FAT32 -/

/-- The clusters that a node takes. -/
def usedClusters (u : Unicode) (t : Tree) (label : Option Bytes) (clusterSize : Nat) (r : Ref) : Nat :=
  ceilDiv (if (t.node r).dir then (entryCount u t label r + 1) * 32 else (t.node r).size) clusterSize

/-- The boot code stays in the reserved area. -/
lemma fat32BootSize_le (hstage : 2 ≤ stage) (hval : validateFAT32BootStage bootCode stage = true)
    : fat32BootSize bootCode stage ≤ 32 * sectorSize := by
  have hsec : 0 < sectorSize := by decide
  unfold fat32BootSize
  simp only
  by_cases hlen : bootCode.length ≤ sectorSize
  · have halign : align bootCode.length sectorSize ≤ 1 * sectorSize :=
      (align_le_iff hsec).mpr ((ceilDiv_le_iff hsec).mpr (by omega))
    unfold sectorSize at *
    split
    · omega
    · omega
  unfold validateFAT32BootStage at hval
  rw [if_neg hlen] at hval
  simp only [Bool.and_eq_true, decide_eq_true_eq, all_cons, all_nil, and_true] at hval
  obtain ⟨hend, -, hbackup, -⟩ := hval
  have hrest : bootCode.length - sectorSize ≤
      ceilDiv (bootCode.length - sectorSize) sectorSize * sectorSize := le_align _ hsec
  have halign : align bootCode.length sectorSize ≤
      (ceilDiv (bootCode.length - sectorSize) sectorSize + 1) * sectorSize :=
    (align_le_iff hsec).mpr ((ceilDiv_le_iff hsec).mpr (by rw [add_mul]; omega))
  have hne : bootCode ≠ [] := by
    rintro rfl
    simp at hlen
  rw [if_neg hne, if_neg hlen]
  generalize ceilDiv (bootCode.length - sectorSize) sectorSize = n at *
  generalize align bootCode.length sectorSize = whole at *
  unfold sectorSize at *
  split
  · omega
  · omega

lemma pos_of_div_pos {a b : Nat} (h : 0 < a / b) : 0 < b := by
  rcases Nat.eq_zero_or_pos b with rfl | hpos
  · rw [Nat.div_zero] at h
    omega
  · exact hpos

/-- The clusters end in front of the end of the image. -/
lemma clusters_le {size start sectors : Nat} (h : 0 < (size / sectorSize - start) / sectors) :
    start * sectorSize + (size / sectorSize - start) / sectors * sectors * sectorSize ≤ size := by
  have hdata := Nat.div_mul_le_self (size / sectorSize - start) sectors
  have hpos := Nat.mul_pos h (pos_of_div_pos h)
  have hsize := Nat.div_mul_le_self size sectorSize
  rw [← add_mul]
  exact (Nat.mul_le_mul_right _ (by omega)).trans hsize

/-- The bytes of a cluster that FAT32 chooses for an image of `size` bytes. -/
def fat32ClusterSize (size : Nat) : Nat := sectorSize * fat32ClusterSectors (size / sectorSize)

/-- What the FAT32 builder lays out. -/
lemma fat32_plan (h : fat32Layout u t order size label bootCode stage = .ok l) :
    Sufficient .fat32 size l ∧ (2 ≤ stage → validateFAT32BootStage bootCode stage = true →
      (∀ r, r < t.nodes.length → r ∈ order) →
      Plan t l (fat32Need u t l.clusterSize) (usedClusters u t label l.clusterSize) order
        0x0ffffff8 0x0fffffff word ∧ l.clusterSize = fat32ClusterSize size) := by
  unfold fat32Layout at h
  simp only at h
  split at h
  · cases h
  next hsome =>
  split at h
  · cases h
  split at h
  · cases h
  next hmany =>
  split at h
  · cases h
  next hins =>
  cases h
  refine ⟨⟨rfl, ?_, ?_, ?_, by simpa using hins, _, _, rfl⟩, fun hstage hval horder => ?_⟩
  · exact fat32SectorsPerFAT_room (Nat.le_of_not_lt hmany)
  · have hmem : ∀ c ∈ [8, 4, 2, 1], 0 < c ∧ c < 256 := by decide
    refine ⟨fat32ClusterSectors (size / sectorSize), _, Nat.mul_comm _ _, rfl, rfl, rfl, ?_, ?_,
      hmem _ (fat32ClusterSectors_mem _), Nat.pos_of_ne_zero hsome, fun hf => absurd rfl hf⟩
    · show _ / _ = (size / sectorSize - (32 + 2 * _ + 0)) / _
      rw [Nat.sub_sub, add_zero]
    · show 0 < _ / _
      omega
  · exact (if_neg fun hfew => hmany (lt_trans hfew (by decide))).trans (if_neg hmany)
  have hboot := fat32BootSize_le hstage hval
  have hchosen : fat32ClusterSize size = sectorSize * fat32ClusterSectors (size / sectorSize) := rfl
  generalize fat32ClusterSectors (size / sectorSize) = sectors at *
  generalize fat32SectorsPerFAT (size / sectorSize) sectors = sectorsPerFAT at *
  have hsecs : 0 < sectors := pos_of_div_pos (a := size / sectorSize - 32 - 2 * sectorsPerFAT) (by omega)
  have hclu : 0 < sectorSize * sectors := Nat.mul_pos (by decide) hsecs
  refine ⟨⟨rfl, by simpa using hins, rfl, fun c _ hc => hc, hclu, fun r hr n => ?_, fun r hr => ?_,
    fun r hr => .inr (horder r hr), nofun, ?_, ?_, ?_⟩, hchosen.symm⟩
  · unfold Layout.bytes usedClusters fat32DirectoryData
    split
    · rw [length_fillClusters _ hclu, align_le_iff hclu, length_directoryEntries, add_mul]
    · exact (ceilDiv_le_iff hclu).symm
  · unfold fat32Need usedClusters
    refine ceilDiv_mono hclu ?_
    split
    · unfold fat32DirectorySize entryCount
      refine Nat.mul_le_mul_right _ ?_
      by_cases hr0 : r = 0
      · rw [if_neg (not_not.mpr hr0)]
        omega
      · rw [if_pos hr0, if_neg hr0]
        omega
    · exact le_rfl
  · unfold sectorSize at *
    simp only [pairwise_cons, mem_cons, not_mem_nil, or_false, forall_eq_or_imp, forall_eq,
      IsEmpty.forall_iff, implies_true, List.Pairwise.nil, and_true]
    refine ⟨⟨.inl ?_, .inl ?_⟩, .inl ?_⟩
    · show 0 + fat32BootSize bootCode stage ≤ 32 * 512
      omega
    · show 0 + fat32BootSize bootCode stage ≤ (32 + sectorsPerFAT) * 512
      omega
    · show 32 * 512 + sectorsPerFAT * 512 ≤ (32 + sectorsPerFAT) * 512
      omega
  · unfold sectorSize at *
    simp only [mem_cons, not_mem_nil, or_false, forall_eq_or_imp, forall_eq]
    refine ⟨?_, ?_, ?_⟩ <;> omega
  · show (32 + 2 * sectorsPerFAT) * sectorSize + _ * (sectorSize * sectors) ≤ size
    rw [Nat.sub_sub] at hmany ⊢
    rw [mul_comm sectorSize, ← mul_assoc]
    exact clusters_le (by omega)

/-- Only the label of the root is written without having been counted. -/
lemma fat32_used_le_iff {sectors : Nat} (hroot : (t.node 0).dir = true) (hmem : (0 : Ref) ∈ order)
    (hsize : 0 < clusterSize) (hsectors : clusterSize = sectorSize * sectors) :
    (∀ r ∈ order, usedClusters u t label clusterSize r ≤ fat32Need u t clusterSize r) ↔
      (label.isSome → ¬ clusterSize ∣ (1 + childEntryCount u t 0) * 32) := by
  obtain ⟨k, rfl⟩ : ∃ k, clusterSize = k * 32 := ⟨16 * sectors, by unfold sectorSize at hsectors; omega⟩
  have hroot_iff : usedClusters u t label (k * 32) 0 ≤ fat32Need u t (k * 32) 0 ↔
      (label.isSome → ¬ k * 32 ∣ (1 + childEntryCount u t 0) * 32) := by
    unfold usedClusters fat32Need entryCount fat32DirectorySize
    have hzero : ¬ ((0 : Ref) ≠ 0) := not_not.mpr rfl
    rw [if_pos hroot, if_pos hroot, if_pos (rfl : (0 : Ref) = 0), if_neg hzero, add_zero]
    cases label with
    | none => simp [add_comm]
    | some label =>
    rw [isSome_some, if_pos rfl, ceilDiv_entry_le_iff]
    simp only [forall_const]
    exact or_iff_left (by omega)
  rw [← hroot_iff]
  refine ⟨fun h => h 0 hmem, fun h r hr => ?_⟩
  by_cases hr0 : r = 0
  · subst hr0
    exact h
  unfold usedClusters fat32Need entryCount fat32DirectorySize
  rw [if_neg hr0, if_pos hr0]
  refine ceilDiv_mono hsize ?_
  split
  · refine Nat.mul_le_mul_right _ ?_
    omega
  · exact le_rfl

/-! ## FAT12 and FAT16 -/

/-- The bytes of a cluster that FAT12 and FAT16 choose, 0 if there is no choice. -/
def fat16ClusterSize (fatBits size : Nat) : Nat :=
  ((fat16Geometry fatBits (size / sectorSize)).map Prod.fst).getD 0 * sectorSize

/-- What the FAT12 and FAT16 builder lays out. -/
lemma fat16_plan {f : Format} (hf : f ≠ .fat32) {o : Options} (hlayout : layoutOf u f o label t order = .ok l) :
    Sufficient f o.size l ∧ l.clusterSize = fat16ClusterSize f.bits o.size ∧
      ((∀ r, r < t.nodes.length → r ∈ order) →
        ∃ first second, Plan t l (fat16Need u t l.clusterSize) (fat16Need u t l.clusterSize)
          (order.filter (· ≠ 0)) first second (2 ^ 16)) := by
  have hbits : f.bits = 12 ∨ f.bits = 16 := by
    cases f with
    | fat12 => exact .inl rfl
    | fat16 => exact .inr rfl
    | fat32 => exact absurd rfl hf
  have h : fat16Layout f.bits u t order o.size label = .ok l := by
    cases f with
    | fat12 | fat16 => exact hlayout
    | fat32 => exact absurd rfl hf
  clear hlayout
  generalize o.size = size at *
  unfold fat16Layout at h
  simp only at h
  split at h
  · cases h
  next sectors sectorsPerFAT hgeometry =>
  obtain ⟨hval, hroom⟩ := fat16Geometry_valid hgeometry
  obtain ⟨hpos, hmax⟩ := fat16Valid_bounds hval
  simp only at hpos hmax
  split at h
  · cases h
  split at h
  · cases h
  next hins =>
  split at h
  · cases h
  next hroot =>
  cases h
  obtain ⟨hclusterField, hfatField⟩ := fat16Geometry_fields (by omega) hgeometry
  have hareas : f.reserved = 1 ∧ f.rootSectors = 32 ∧ (if f.bits = 12 then 0x0fff else 0xffff) = f.eoc ∧
      (if f = .fat32 then word else 2 ^ 16) = 2 ^ 16 := by
    cases f with
    | fat12 | fat16 => decide
    | fat32 => exact absurd rfl hf
  obtain ⟨hreserved, hrootSectors, heoc, hentry⟩ := hareas
  refine ⟨⟨rfl, ?_, ?_, fatType_of_valid hbits hval, by simpa using hins, _, _, by rw [heoc, hentry]⟩,
    by rw [fat16ClusterSize, hgeometry]; rfl, fun horder => ?_⟩
  · exact (ceilDiv_le_iff (by decide)).mp ((ceilDiv_le_iff (by decide)).mp hroom)
  · refine ⟨sectors, sectorsPerFAT, rfl, rfl, ?_, ?_, ?_, hpos, hclusterField, ?_, fun _ => hfatField⟩
    · rw [hreserved, one_mul]
      rfl
    · rw [hreserved, hrootSectors]
    · rw [hreserved, hrootSectors, Nat.sub_sub, Nat.sub_sub, ← add_assoc]
    · refine lt_of_lt_of_le ?_ hroom
      unfold fat16Required
      dsimp only
      rw [← not_le, ceilDiv_le_iff (by decide), zero_mul, ceilDiv_le_iff (by decide), zero_mul]
      have hmul : 2 * 12 ≤ ((size / sectorSize - 1 - 2 * sectorsPerFAT - 32) / sectors + 2) * f.bits :=
        Nat.mul_le_mul (by omega) (by omega)
      omega
  have hsecs : 0 < sectors := pos_of_div_pos hpos
  have hclu : 0 < sectors * sectorSize := Nat.mul_pos hsecs (by decide)
  refine ⟨_, _, ⟨rfl, by simpa using hins, rfl, fun c hc _ => ?_, hclu, fun r hr n => ?_,
    fun r hr => le_rfl, fun r hr => ?_, fun room hroom => ?_, ?_, ?_, ?_⟩⟩
  · simp only at hc
    omega
  · have hr0 : r ≠ 0 := by simpa using (mem_filter.mp hr).2
    have hneed : fat16Need u t (sectors * sectorSize) r =
      ceilDiv (if (t.node r).dir then fat16DirectorySize u t r else (t.node r).size) (sectors * sectorSize) := rfl
    simp only [hneed]
    unfold Layout.bytes fat16DirectoryData
    simp only [if_neg hr0]
    split
    · rw [length_fillClusters _ hclu, align_le_iff hclu, length_directoryEntries]
      unfold entryCount fat16DirectorySize
      rw [if_neg hr0, ← Nat.succ_mul]
    · exact (ceilDiv_le_iff hclu).symm
  · by_cases hr0 : r = 0
    · exact .inl ⟨hr0, rfl⟩
    · exact .inr (mem_filter.mpr ⟨horder r hr, by simpa using hr0⟩)
  · cases hroom
    unfold fat16DirectoryData
    simp only [if_true, length_append, length_zeros]
    show _ ≤ 512 * 32
    omega
  · unfold sectorSize at *
    simp only [pairwise_cons, mem_cons, not_mem_nil, or_false, forall_eq_or_imp, forall_eq,
      IsEmpty.forall_iff, implies_true, List.Pairwise.nil, and_true]
    unfold Region.Disjoint
    simp only
    omega
  · unfold sectorSize at *
    simp only [mem_cons, not_mem_nil, or_false, forall_eq_or_imp, forall_eq]
    refine ⟨?_, ?_, ?_, ?_⟩ <;> omega
  · show (1 + 2 * sectorsPerFAT + 32) * sectorSize + _ * (sectors * sectorSize) ≤ size
    rw [Nat.sub_sub, Nat.sub_sub, ← add_assoc] at hpos ⊢
    rw [← mul_assoc]
    exact clusters_le hpos

/-! ## The root -/

/-- The first node is a directory. -/
def RootDir (t : Tree) : Prop := (column Node.dir t)[0]? = some true

section

variable (h : RootDir t)

include h

lemma RootDir.node : (t.node 0).dir = true := by
  unfold RootDir column at h
  rw [getElem?_map] at h
  obtain ⟨n, hn, hdir⟩ := map_eq_some_iff.mp h
  unfold Tree.node
  rw [getD_eq_getElem?_getD, hn]
  exact hdir

lemma RootDir.nonempty : 0 < t.nodes.length := by
  obtain ⟨hlt, -⟩ := List.getElem?_eq_some_iff.mp h
  simpa [column] using hlt

lemma RootDir.of_column (hcolumn : column Node.dir t' = column Node.dir t) : RootDir t' := by
  unfold RootDir
  rw [hcolumn]
  exact h

lemma RootDir.update (r : Ref) {f : Node → Node} (hf : ∀ n, (f n).dir = n.dir) : RootDir (t.update r f) :=
  h.of_column (column_update t r hf)

lemma RootDir.addChild (par : Ref) (node : Node) : RootDir (t.addChild par node) := by
  unfold RootDir column Tree.addChild
  have hold := h.update par (f := fun n => { n with children := n.children ++ [t.nodes.length] }) fun _ => rfl
  have hlt := hold.nonempty
  unfold RootDir column at hold
  rw [map_append, getElem?_append_left (by rw [length_map]; exact hlt)]
  exact hold

end

section

variable (u : Unicode)

lemma RootDir.newDir (h : RootDir t) (parent : Ref) (p : Path) : RootDir (Fat.newDir u t parent p).1 :=
  h.addChild parent { name := p.base, fullPath := p, parent := some parent, dir := true, attr := attrDir }

lemma RootDir.ensureDir (turns : Nat) (h : RootDir t) (p : Path) : RootDir (Fat.ensureDir u turns t p).1 := by
  induction turns generalizing p with
  | zero => exact h
  | succ turns ih =>
  rw [Fat.ensureDir]
  split
  · exact h
  have hpar := ih p.dir
  generalize Fat.ensureDir u turns t p.dir = par at hpar
  obtain ⟨t', par⟩ := par
  simp only at hpar ⊢
  split
  · split
    · exact hpar
    · exact hpar.newDir u par p
  · exact hpar.newDir u par p

lemma RootDir.importFile (h : RootDir t) (p : Path) (vf : FileRecord) : RootDir (Fat.importFile u t p vf) := by
  have hpar := h.ensureDir u (p.dir.parts.length + 1) p.dir
  unfold Fat.importFile ensurePath
  generalize Fat.ensureDir u (p.dir.parts.length + 1) t p.dir = par at hpar
  obtain ⟨t', par⟩ := par
  simp only at hpar ⊢
  split
  · split
    · exact hpar
    · exact hpar.update _ fun _ => rfl
  · exact hpar.addChild par _

/-- The import keeps the root a directory. -/
lemma rootDir_importTree (directories : List Path) (files : List (Path × FileRecord)) :
    RootDir (importTree u directories files) := by
  refine foldlRecOn _ _ ?_ fun t h p _ => h.importFile u p _
  refine foldlRecOn _ _ (by rfl) fun t h p _ => ?_
  split
  · exact h.ensureDir u _ p
  · exact h

end

lemma rootDir_importDirectory {sortSlice : (Ref → Ref → Bool) → List Ref → List Ref}
    {s : Snapshot} (h : importDirectory sortSlice u s = some t) : RootDir t := by
  refine RootDir.of_column ?_ (column_finish (fun _ _ => rfl) (fun _ _ => rfl) h)
  refine foldlRecOn _ _ (rootDir_importTree u _ _) fun t ht record _ => ?_
  unfold applyAttributes
  split
  · exact ht.update _ fun _ => rfl
  · exact ht

/-- An accepted order lists every node once. -/
lemma applyFileOrder_ok {paths : List Bytes} (hroot : RootDir t)
    (h : applyFileOrder u t paths = .ok (t', order)) : RootDir t' ∧ order.Perm (range t'.nodes.length) := by
  unfold applyFileOrder at h
  simp only at h
  split at h
  · cases h
    exact ⟨hroot, Perm.refl _⟩
  split at h
  · cases h
  next ranked hranked =>
  cases h
  refine ⟨hroot.of_column ?_, ?_⟩
  · unfold column
    rw [List.map_map]
    rfl
  rw [length_map]
  have hsorted := (perm_insertionSort (fun a b => ordered ranked b a = false)
    ((range t.nodes.length).drop 1)).append_left ((range t.nodes.length).take 1)
  rwa [take_append_drop] at hsorted

/-! ## The builders -/

/-- The clusters that all nodes need, each as the ceiling of its bytes; the root of FAT12 and FAT16 has
none. -/
def clustersNeeded (u : Unicode) (f : Format) (t : Tree) (size : Nat) : Nat :=
  match f with
  | .fat32 => total (fat32Need u t (fat32ClusterSize size)) (range t.nodes.length)
  | _ => total (fat16Need u t (fat16ClusterSize f.bits size)) ((range t.nodes.length).filter (· ≠ 0))

/-- **Layout.**  A build is sound exactly if the nodes need no more clusters than the counter can count
and, for FAT32 with a label in the root, the other entries of the root do not fill its clusters. -/
theorem build_sound_iff (sortSlice : (Ref → Ref → Bool) → List Ref → List Ref) (u : Unicode) (f : Format)
    (s : Snapshot) (o : Options) {t : Tree} {l : Layout} (h : build sortSlice u f s o = .ok (t, l)) :
    Sound t l ↔ 2 + clustersNeeded u f t o.size ≤ 2 ^ 32 ∧
      (f = .fat32 → o.directoryLabel = true → ¬ fat32ClusterSize o.size ∣ (1 + childEntryCount u t 0) * 32) := by
  unfold build at h
  split at h
  · cases h
  next label hopts =>
  split at h
  · cases h
  next t0 himp =>
  split at h
  · cases h
  next t1 order horder =>
  split at h
  · cases h
  next l1 hlayout =>
  cases h
  obtain ⟨hroot, hperm⟩ := applyFileOrder_ok (rootDir_importDirectory himp) horder
  have hall : ∀ r, r < t.nodes.length → r ∈ order := fun r hr => hperm.mem_iff.mpr (mem_range.mpr hr)
  cases f with
  | fat32 =>
    unfold checkOptions at hopts
    simp only at hopts
    split at hopts
    · cases hopts
    split at hopts
    · cases hopts
    next hstage =>
    split at hopts
    · cases hopts
    next hval =>
    split at hopts
    · cases hopts
    next name hname =>
    cases hopts
    obtain ⟨hplan, hsize⟩ := (fat32_plan hlayout).2 (by omega) (not_not.mp hval) hall
    rw [hplan.sound_iff, fat32_used_le_iff hroot.node (hall 0 hroot.nonempty) hplan.clusterSize hsize,
      WrapAlloc.total_perm hperm, hsize]
    refine and_congr Iff.rfl ?_
    cases o.directoryLabel <;> simp
  | fat16 | fat12 =>
  obtain ⟨-, hsize, hplans⟩ := fat16_plan (by decide) hlayout
  obtain ⟨first, second, hplan⟩ := hplans hall
  rw [hplan.sound_iff, WrapAlloc.total_perm (hperm.filter _), hsize]
  exact ⟨fun hgood => ⟨hgood.1, fun hf => by cases hf⟩, fun hgood => ⟨hgood.1, fun _ _ => Nat.le_refl _⟩⟩

/-- A root and a file of three clusters on a floppy disk. -/
def floppyTree : Tree where
  nodes := [{ name := [], fullPath := Path.root, dir := true, children := [1] },
    { name := ascii "A", fullPath := Filesystem.cleanPath (ascii "A"), size := 1500, short := padRight (ascii "A") 11 }]
  byPath := ∅

def holdsOf {α : Type} (good : α → Bool) : Except LayoutError α → Bool
  | .ok a => good a
  | .error _ => false

/-- A check that evaluates to true gives a result that passes it. -/
lemma exists_of_holdsOf {α : Type} (good : α → Bool) {r : Except LayoutError α}
    (h : holdsOf good r = true) : ∃ a, r = .ok a ∧ good a = true := by
  unfold holdsOf at h
  split at h
  next a => exact ⟨a, rfl, h⟩
  · cases h

/-- A root with `n` empty files `A`, `B` and so on. -/
def lettersRoot (n : Nat) (hn : ((List.range n).map fun i => Filesystem.cleanPath [UInt8.ofNat (65 + i)]).Nodup) :
    Snapshot where
  directories := [Path.root]
  files := (List.range n).map fun i => (Filesystem.cleanPath [UInt8.ofNat (65 + i)], { size := 0 })
  attributes := []
  filesDistinct := by rwa [List.map_map]
  attributesDistinct := List.nodup_nil

def smallOptions : Options where
  size := 64 * 1024 * 1024

/-- Two empty files on a small FAT32 image. -/
theorem build_sound_iff_twoFiles : ∃ t l, build insertionSlice ⟨id, id, id⟩ .fat32
    (lettersRoot 2 (by decide +kernel)) smallOptions = .ok (t, l) ∧ Sound t l := by
  obtain ⟨⟨t, l⟩, hbuild, hgood⟩ := exists_of_holdsOf
    (fun r : Tree × Layout => decide (2 + clustersNeeded ⟨id, id, id⟩ .fat32 r.1 smallOptions.size ≤ 2 ^ 32 ∧
      ¬ fat32ClusterSize smallOptions.size ∣ (1 + childEntryCount ⟨id, id, id⟩ r.1 0) * 32))
    (show holdsOf _ (build insertionSlice ⟨id, id, id⟩ .fat32
      (lettersRoot 2 (by decide +kernel)) smallOptions) = true by decide +kernel)
  have hgood' := of_decide_eq_true hgood
  exact ⟨t, l, hbuild, (build_sound_iff _ _ _ _ _ hbuild).mpr ⟨hgood'.1, fun _ _ => hgood'.2⟩⟩

/-- Fifteen entries and the label take a whole cluster, and the terminator has no room: two
clusters are written and one is allocated. -/
theorem fifteenFiles_overflow : ∃ t l, build insertionSlice ⟨id, id, id⟩ .fat32
    (lettersRoot 15 (by decide +kernel)) smallOptions = .ok (t, l) ∧
    l.bytes t 0 = 1024 ∧ (∃ p ∈ l.placed, p.owner = 0 ∧ p.count * l.clusterSize = 512) ∧ ¬ Sound t l := by
  obtain ⟨⟨t, l⟩, hbuild, hgood⟩ := exists_of_holdsOf
    (fun r : Tree × Layout => decide (r.2.bytes r.1 0 = 1024) && r.2.placed.any fun p =>
      decide (p.owner = 0 ∧ p.count * r.2.clusterSize = 512))
    (show holdsOf _ (build insertionSlice ⟨id, id, id⟩ .fat32
      (lettersRoot 15 (by decide +kernel)) smallOptions) = true by decide +kernel)
  simp only [Bool.and_eq_true, decide_eq_true_eq, List.any_eq_true] at hgood
  obtain ⟨hbytes, p, hp, howner, hroom⟩ := hgood
  refine ⟨t, l, hbuild, hbytes, ⟨p, hp, howner, hroom⟩, fun hsound => ?_⟩
  have hfits := hsound.fits p hp
  rw [howner, hbytes, hroom] at hfits
  omega

end Trex.Fat
