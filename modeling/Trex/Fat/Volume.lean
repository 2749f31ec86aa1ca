import Trex.Fat.Layout
import Trex.Lib.Slice

/-!
# The bytes of a volume (`fatBytes`, `bootSector`) and its reader (`newFATImage` in `fat/fat.go`)

The builder writes the table and the fields of the boot sector; the reader takes the geometry and the
width of the table from those fields, and the entries from the bytes of the table.
-/

namespace Trex.Fat

open List

open Bytes (zeros le16 le32)

open Slice (slice overwrite patched)

/-- The bits of an entry. -/
def Format.bits : Format → Nat
  | .fat12 => 12
  | .fat16 => 16
  | .fat32 => 32

/-- The sectors in front of the first FAT. -/
def Format.reserved : Format → Nat
  | .fat32 => 32
  | _ => 1

/-- The sectors of a root directory that has no clusters. -/
def Format.rootSectors : Format → Nat
  | .fat32 => 0
  | _ => 32

/-- The mark of the end of a chain. -/
def Format.eoc : Format → Nat
  | .fat12 => 0x0fff
  | .fat16 => 0xffff
  | .fat32 => 0x0fffffff

/-! ## The table -/

def Layout.fatStart (l : Layout) : Nat := (l.system.map Region.start).getD 1 0

def Layout.fatSize (l : Layout) : Nat := (l.system.map Region.size).getD 1 0

/-- Where an entry begins; two entries of 12 bits share a byte. -/
def entryOffset (fatBits index : Nat) : Nat := if fatBits = 12 then index * 3 / 2 else index * (fatBits / 8)

/-- The bytes that an entry is read from and written to. -/
def entryWidth (fatBits : Nat) : Nat := if fatBits = 12 then 2 else fatBits / 8

/-- The table with one entry written.  Entries of 12 bits keep the half byte of their neighbour: the masks
of the source are remainders and quotients here. -/
def putEntry (fatBits index value : Nat) (data : Bytes) : Bytes :=
  let offset := entryOffset fatBits index
  if fatBits = 12 then
    let value := value % 2 ^ 12
    let low := (data.getD offset 0).toNat
    let high := (data.getD (offset + 1) 0).toNat
    overwrite data offset
      (if index % 2 = 0 then [UInt8.ofNat value, UInt8.ofNat (high / 16 * 16 + value / 256)]
      else [UInt8.ofNat (low % 16 + value % 16 * 16), UInt8.ofNat (value / 16)])
  else overwrite data offset (LittleEndian.put (fatBits / 8) value)

/-- The loop of `fatBytes`, which stops at the first entry that does not fit. -/
def fatLoop (fatBits : Nat) (fat : Nat → Nat) : List Nat → Bytes → Bytes
  | [], data => data
  | index :: rest, data =>
    if data.length < entryOffset fatBits index + entryWidth fatBits then data
    else fatLoop fatBits fat rest (putEntry fatBits index (fat index) data)

/-- The bytes of the table. -/
def Layout.fatBytes (fatBits : Nat) (l : Layout) : Bytes :=
  fatLoop fatBits l.fat (range (l.availableClusters + 2)) (zeros l.fatSize)

/-- The entry that `nextCluster` takes from the bytes, before the mask of FAT32; none outside the table. -/
def entryAt (fatBits : Nat) (data : Bytes) (cluster : Nat) : Option Nat :=
  let offset := entryOffset fatBits cluster
  if data.length < offset + entryWidth fatBits then none
  else if fatBits = 12 then
    let value := (data.getD offset 0).toNat + 256 * (data.getD (offset + 1) 0).toNat
    some (if cluster % 2 = 0 then value % 2 ^ 12 else value / 16)
  else some (LittleEndian.get (slice data offset (fatBits / 8)))

/-! ## The boot sector -/

/-- The fields of the boot sector that a reader looks at, with their offsets. -/
def Layout.bootFields (f : Format) (l : Layout) : List (Nat × Bytes) :=
  let totalSectors := l.size / sectorSize
  let sectorsPerCluster := l.clusterSize / sectorSize
  let sectorsPerFAT := l.fatSize / sectorSize
  match f with
  | .fat32 => [(11, le16 sectorSize), (13, [UInt8.ofNat sectorsPerCluster]), (14, le16 32), (16, [2]), (17, le16 0),
      (19, le16 0), (22, le16 0), (32, le32 totalSectors), (36, le32 sectorsPerFAT), (44, le32 2), (510, [0x55, 0xaa])]
  | _ => [(11, le16 sectorSize), (13, [UInt8.ofNat sectorsPerCluster]), (14, le16 1), (16, [2]), (17, le16 512),
      (19, le16 (if totalSectors < 65536 then totalSectors else 0)), (22, le16 sectorsPerFAT),
      (32, le32 (if totalSectors < 65536 then 0 else totalSectors)), (510, [0x55, 0xaa])]

/-- The boot sector; `base` is the rest of it: boot code, names, geometry and label. -/
def Layout.bootSector (f : Format) (base : Bytes) (l : Layout) : Bytes := patched base (l.bootFields f)

/-- What the reader keeps of the geometry. -/
structure FatImage where
  fatType : Nat
  clusters : Nat
  clusterSize : Nat
  fatOffset : Nat
  fatLength : Nat
  dataOffset : Nat
deriving DecidableEq, Repr

/-- The width that the reader takes from the number of clusters. -/
def fatType (clusters : Nat) : Nat := if clusters < 4085 then 12 else if clusters < 65525 then 16 else 32

/-- The reader's checks of a boot sector and the geometry that it finds. -/
def newFATImage (sector : Bytes) : Except String FatImage :=
  let field := fun offset width => LittleEndian.get (slice sector offset width)
  let bytesPerSector := field 11 2
  let sectorsPerCluster := field 13 1
  let reservedSectors := field 14 2
  let fats := field 16 1
  let rootEntries := field 17 2
  let totalSectors := if field 19 2 = 0 then field 32 4 else field 19 2
  let sectorsPerFAT := if field 22 2 = 0 then field 36 4 else field 22 2
  let rootDirSectors := (rootEntries * 32 + (bytesPerSector - 1)) / bytesPerSector
  let dataSectors := totalSectors - (reservedSectors + fats * sectorsPerFAT + rootDirSectors)
  if slice sector 510 2 ≠ [0x55, 0xaa] then .error "fat: missing boot sector signature"
  else if bytesPerSector = 0 ∨ bytesPerSector % 512 ≠ 0 ∨ sectorsPerCluster = 0 ∨ reservedSectors = 0 ∨ fats = 0 ∨
      totalSectors = 0 ∨ sectorsPerFAT = 0 then .error "fat: invalid BIOS parameter block"
  else if dataSectors = 0 then .error "fat: invalid data area"
  else
    let clusters := dataSectors / sectorsPerCluster
    let fatOffset := reservedSectors * bytesPerSector
    .ok {
      fatType := fatType clusters
      clusters := clusters
      clusterSize := sectorsPerCluster * bytesPerSector
      fatOffset := fatOffset
      fatLength := sectorsPerFAT * bytesPerSector
      dataOffset := fatOffset + fats * sectorsPerFAT * bytesPerSector + rootDirSectors * bytesPerSector }

/-! ## Entries that are read back -/

/-- The three widths. -/
def Width (fatBits : Nat) : Prop := fatBits = 12 ∨ fatBits = 16 ∨ fatBits = 32

lemma Format.width (f : Format) : Width f.bits := by
  cases f with
  | fat12 => exact .inl rfl
  | fat16 => exact .inr (.inl rfl)
  | fat32 => exact .inr (.inr rfl)

variable {fatBits index value : Nat} {data : Bytes}

lemma length_putEntry (hroom : entryOffset fatBits index + entryWidth fatBits ≤ data.length) :
    (putEntry fatBits index value data).length = data.length := by
  have hoffset : entryOffset fatBits index ≤ data.length := by omega
  unfold putEntry
  dsimp only
  split
  · exact Slice.length_overwrite _ _ _ hoffset
  · exact Slice.length_overwrite _ _ _ hoffset

/-- A byte of the table after two bytes were written. -/
lemma getD_overwrite_two {offset : Nat} {a b : UInt8} (h : offset + 2 ≤ data.length) (j : Nat) :
    (overwrite data offset [a, b]).getD j 0 =
      if j = offset then a else if j = offset + 1 then b else data.getD j 0 := by
  rw [getD_eq_getElem?_getD, Slice.getElem?_overwrite _ _ _ (by omega)]
  by_cases hfirst : j = offset
  · subst hfirst
    rw [if_pos ⟨le_rfl, by simp, by omega⟩, if_pos rfl, Nat.sub_self]
    rfl
  by_cases hsecond : j = offset + 1
  · subst hsecond
    rw [if_pos ⟨by omega, by simp, by omega⟩, if_neg hfirst, if_pos rfl, Nat.add_sub_cancel_left]
    rfl
  · rw [if_neg (by simp; omega), if_neg hfirst, if_neg hsecond, getD_eq_getElem?_getD]

/-- An entry reads back, cut to its width. -/
lemma entryAt_putEntry_self (hwidth : Width fatBits)
    (hroom : entryOffset fatBits index + entryWidth fatBits ≤ data.length) :
    entryAt fatBits (putEntry fatBits index value data) index = some (value % 2 ^ fatBits) := by
  unfold entryAt
  dsimp only
  rw [length_putEntry hroom, if_neg (by omega)]
  rcases hwidth with rfl | hwide
  · have hpair : entryOffset 12 index + 2 ≤ data.length := hroom
    have hhigh := (data.getD (entryOffset 12 index + 1) 0).toNat_lt
    rw [if_pos rfl]
    unfold putEntry
    dsimp only
    rw [if_pos rfl]
    split
    · simp only [getD_overwrite_two hpair, if_true, UInt8.toNat_ofNat']
      rw [if_neg (by omega)]
      simp only [UInt8.toNat_ofNat']
      congr 1
      omega
    · simp only [getD_overwrite_two hpair, if_true, UInt8.toNat_ofNat']
      rw [if_neg (by omega)]
      simp only [UInt8.toNat_ofNat']
      congr 1
      omega
  · have hnot : fatBits ≠ 12 := by rcases hwide with rfl | rfl <;> decide
    have hroom' : entryOffset fatBits index + fatBits / 8 ≤ data.length := by
      unfold entryWidth at hroom
      rwa [if_neg hnot] at hroom
    rw [if_neg hnot]
    unfold putEntry
    rw [if_neg hnot]
    have hslice := Slice.slice_overwrite_self data (entryOffset fatBits index) (LittleEndian.put (fatBits / 8) value)
      (by rwa [LittleEndian.length_put])
    rw [LittleEndian.length_put] at hslice
    rw [hslice, LittleEndian.get_put]
    rcases hwide with rfl | rfl <;> rfl

/-- Entries in front of the one that is written stay, also the one that shares a byte with it. -/
lemma entryAt_putEntry_of_lt (hwidth : Width fatBits) {j : Nat} (hj : j < index)
    (hroom : entryOffset fatBits index + entryWidth fatBits ≤ data.length) :
    entryAt fatBits (putEntry fatBits index value data) j = entryAt fatBits data j := by
  unfold entryAt
  dsimp only
  rw [length_putEntry hroom]
  split
  · rfl
  rcases hwidth with rfl | hwide
  · have hpair : entryOffset 12 index + 2 ≤ data.length := hroom
    have hbefore : entryOffset 12 j + 1 < entryOffset 12 index ∨
        entryOffset 12 j + 1 = entryOffset 12 index ∧ j % 2 = 0 ∧ index % 2 ≠ 0 := by
      unfold entryOffset
      simp only [if_true]
      omega
    rw [if_pos rfl, if_pos rfl]
    unfold putEntry
    dsimp only
    rw [if_pos rfl]
    rcases hbefore with hbefore | ⟨hshared, heven, hodd⟩
    · have hkeep : ∀ a b k, k ≤ entryOffset 12 j + 1 →
          (overwrite data (entryOffset 12 index) [a, b]).getD k 0 = data.getD k 0 := by
        intro a b k hk
        rw [getD_overwrite_two hpair, if_neg (by omega), if_neg (by omega)]
      by_cases heven : index % 2 = 0
      · rw [if_pos heven, hkeep _ _ _ (by omega), hkeep _ _ _ le_rfl]
      · rw [if_neg heven, hkeep _ _ _ (by omega), hkeep _ _ _ le_rfl]
    · -- the neighbour has the low half of the shared byte
      rw [if_neg hodd, if_pos heven, if_pos heven]
      simp only [getD_overwrite_two hpair, hshared, if_true]
      rw [if_neg (by omega), if_neg (by omega)]
      simp only [UInt8.toNat_ofNat']
      congr 1
      omega
  · have hnot : fatBits ≠ 12 := by rcases hwide with rfl | rfl <;> decide
    have hapart : entryOffset fatBits j + fatBits / 8 ≤ entryOffset fatBits index := by
      unfold entryOffset
      rw [if_neg hnot, if_neg hnot, ← Nat.succ_mul]
      exact Nat.mul_le_mul_right _ hj
    rw [if_neg hnot, if_neg hnot]
    unfold putEntry
    rw [if_neg hnot, Slice.slice_overwrite_disjoint _ _ _ _ _ (by omega) (.inl hapart)]

/-- Entries from `first` on are written behind those that are there, and all can be read back. -/
lemma entryAt_fatLoop (hwidth : Width fatBits) {fat : Nat → Nat} {first count : Nat}
    (hroom : ∀ index < first + count, entryOffset fatBits index + entryWidth fatBits ≤ data.length)
    (hbefore : ∀ j < first, entryAt fatBits data j = some (fat j % 2 ^ fatBits)) {j : Nat} (hj : j < first + count) :
    entryAt fatBits (fatLoop fatBits fat (range' first count) data) j = some (fat j % 2 ^ fatBits) := by
  induction count generalizing first data with
  | zero => exact hbefore j hj
  | succ count ih =>
  have hfits := hroom first (by omega)
  rw [range'_succ, fatLoop, if_neg (by omega)]
  refine ih ?_ ?_ (by omega)
  · intro index hindex
    rw [length_putEntry hfits]
    exact hroom index (by omega)
  · intro k hk
    by_cases hlast : k = first
    · subst hlast
      exact entryAt_putEntry_self hwidth hfits
    · rw [entryAt_putEntry_of_lt hwidth (by omega) hfits]
      exact hbefore k (by omega)

/-- A table with room for its entries: each is written and read back. -/
lemma entryAt_fatBytes (hwidth : Width fatBits) {l : Layout}
    (hroom : (l.availableClusters + 2) * fatBits ≤ l.fatSize * 8) {c : Nat} (hc : c < l.availableClusters + 2) :
    entryAt fatBits (l.fatBytes fatBits) c = some (l.fat c % 2 ^ fatBits) := by
  unfold Layout.fatBytes
  rw [range_eq_range']
  refine entryAt_fatLoop hwidth ?_ (fun j hj => absurd hj (Nat.not_lt_zero j)) (by omega)
  intro index hindex
  have hlength : (zeros l.fatSize).length = l.fatSize := length_replicate
  rw [hlength]
  unfold entryOffset entryWidth
  rcases hwidth with rfl | rfl | rfl
  · simp only [if_true]
    omega
  · simp only [Nat.reduceEqDiff, if_false]
    omega
  · simp only [Nat.reduceEqDiff, if_false]
    omega

/-! ## The boot sector as the reader sees it -/

/-- The areas of a layout in sectors. -/
structure Geometry (f : Format) (l : Layout) (sectorsPerCluster sectorsPerFAT : Nat) : Prop where
  cluster : l.clusterSize = sectorsPerCluster * sectorSize
  table : l.fatSize = sectorsPerFAT * sectorSize
  start : l.fatStart = f.reserved * sectorSize
  data : l.dataOffset = (f.reserved + 2 * sectorsPerFAT + f.rootSectors) * sectorSize
  count : l.availableClusters =
    (l.size / sectorSize - (f.reserved + 2 * sectorsPerFAT + f.rootSectors)) / sectorsPerCluster
  some : 0 < l.availableClusters
  clusterField : 0 < sectorsPerCluster ∧ sectorsPerCluster < 256
  tableField : 0 < sectorsPerFAT ∧ (f ≠ .fat32 → sectorsPerFAT < 2 ^ 16)

section

variable {f : Format} {l : Layout} {sectorsPerCluster sectorsPerFAT : Nat} {base : Bytes}

/-- A field of the boot sector reads back. -/
lemma slice_bootSector (hbase : base.length = sectorSize) {offset : Nat} {value : Bytes}
    (hfield : (offset, value) ∈ l.bootFields f) : slice (l.bootSector f base) offset value.length = value := by
  have h16 : ∀ v, (le16 v).length = 2 := fun v => LittleEndian.length_put 2 v
  have h32 : ∀ v, (le32 v).length = 4 := fun v => LittleEndian.length_put 4 v
  refine Slice.slice_patched base _ ?_ ?_ (offset, value) hfield
  · rw [hbase]
    unfold Slice.Within Layout.bootFields sectorSize
    cases f with
    | fat12 | fat16 | fat32 => simp [h16, h32]
  · unfold Layout.bootFields
    cases f with
    | fat12 | fat16 | fat32 => simp [h16, h32]

/-- A number in the boot sector. -/
lemma field_bootSector (hbase : base.length = sectorSize) (offset width value : Nat)
    (hfield : (offset, LittleEndian.put width value) ∈ l.bootFields f) (hvalue : value < 256 ^ width) :
    LittleEndian.get (slice (l.bootSector f base) offset width) = value := by
  have hslice := slice_bootSector hbase hfield
  rw [LittleEndian.length_put] at hslice
  rw [hslice, LittleEndian.get_put, Nat.mod_eq_of_lt hvalue]

/-- The reader finds the geometry of the layout while the number of sectors fits its field. -/
lemma newFATImage_bootSector (g : Geometry f l sectorsPerCluster sectorsPerFAT)
    (hdetected : fatType l.availableClusters = f.bits) (hsize : l.size / sectorSize < 2 ^ 32)
    (hbase : base.length = sectorSize) : newFATImage (l.bootSector f base) = .ok {
      fatType := f.bits
      clusters := l.availableClusters
      clusterSize := l.clusterSize
      fatOffset := l.fatStart
      fatLength := l.fatSize
      dataOffset := l.dataOffset } := by
  have hcluster : l.clusterSize / sectorSize = sectorsPerCluster := by
    rw [g.cluster]
    exact Nat.mul_div_cancel _ (by decide)
  have htable : l.fatSize / sectorSize = sectorsPerFAT := by
    rw [g.table]
    exact Nat.mul_div_cancel _ (by decide)
  have hdata : f.reserved + 2 * sectorsPerFAT + f.rootSectors < l.size / sectorSize := by
    have hsome := g.some
    rw [g.count] at hsome
    have hpos := Nat.pos_of_div_pos hsome
    omega
  obtain ⟨hcluster0, hcluster1⟩ := g.clusterField
  obtain ⟨htable0, htable1⟩ := g.tableField
  have hsign : slice (l.bootSector f base) 510 2 = [0x55, 0xaa] := by
    have hfield : (510, [0x55, 0xaa]) ∈ l.bootFields f := by
      cases f with
      | fat12 | fat16 | fat32 => simp [Layout.bootFields]
    exact slice_bootSector hbase hfield
  have hbytes : LittleEndian.get (slice (l.bootSector f base) 11 2) = 512 := by
    refine field_bootSector hbase 11 2 512 ?_ (by decide)
    cases f with
    | fat12 | fat16 | fat32 => simp [Layout.bootFields, le16, sectorSize]
  have hsectors : LittleEndian.get (slice (l.bootSector f base) 13 1) = sectorsPerCluster := by
    refine field_bootSector hbase 13 1 _ ?_ hcluster1
    cases f with
    | fat12 | fat16 | fat32 => simp [Layout.bootFields, hcluster, LittleEndian.put]
  have hreserved : LittleEndian.get (slice (l.bootSector f base) 14 2) = f.reserved := by
    cases f with
    | fat12 | fat16 | fat32 =>
      refine field_bootSector hbase 14 2 _ ?_ (by decide)
      simp [Layout.bootFields, le16, Format.reserved]
  have hfats : LittleEndian.get (slice (l.bootSector f base) 16 1) = 2 := by
    refine field_bootSector hbase 16 1 2 ?_ (by decide)
    cases f with
    | fat12 | fat16 | fat32 => simp [Layout.bootFields, LittleEndian.put]
  have hroot : LittleEndian.get (slice (l.bootSector f base) 17 2) = 16 * f.rootSectors := by
    cases f with
    | fat12 | fat16 | fat32 =>
      refine field_bootSector hbase 17 2 _ ?_ (by decide)
      simp [Layout.bootFields, le16, Format.rootSectors]
  -- one of two fields has the number of sectors
  have htotal : (if LittleEndian.get (slice (l.bootSector f base) 19 2) = 0
      then LittleEndian.get (slice (l.bootSector f base) 32 4)
      else LittleEndian.get (slice (l.bootSector f base) 19 2)) = l.size / sectorSize := by
    cases f with
    | fat32 =>
      rw [field_bootSector hbase 19 2 0 (by simp [Layout.bootFields, le16]) (by decide), if_pos rfl]
      exact field_bootSector hbase 32 4 _ (by simp [Layout.bootFields, le32]) hsize
    | fat12 | fat16 =>
      by_cases hshort : l.size / sectorSize < 65536
      · rw [field_bootSector hbase 19 2 (l.size / sectorSize) (by simp [Layout.bootFields, le16, hshort]) hshort,
          if_neg (by omega)]
      · rw [field_bootSector hbase 19 2 0 (by simp [Layout.bootFields, le16, hshort]) (by decide), if_pos rfl]
        exact field_bootSector hbase 32 4 _ (by simp [Layout.bootFields, le32, hshort]) hsize
  have hlength : (if LittleEndian.get (slice (l.bootSector f base) 22 2) = 0
      then LittleEndian.get (slice (l.bootSector f base) 36 4)
      else LittleEndian.get (slice (l.bootSector f base) 22 2)) = sectorsPerFAT := by
    cases f with
    | fat32 =>
      rw [field_bootSector hbase 22 2 0 (by simp [Layout.bootFields, le16]) (by decide), if_pos rfl]
      refine field_bootSector hbase 36 4 _ (by simp [Layout.bootFields, le32, htable]) ?_
      show sectorsPerFAT < 2 ^ 32
      omega
    | fat12 | fat16 =>
      rw [field_bootSector hbase 22 2 sectorsPerFAT (by simp [Layout.bootFields, le16, htable])
        (htable1 (by decide)), if_neg (by omega)]
  have hrootSectors : (16 * f.rootSectors * 32 + (512 - 1)) / 512 = f.rootSectors := by omega
  unfold newFATImage
  simp only [hsign, hbytes, hsectors, hreserved, hfats, hroot, htotal, hlength, hrootSectors]
  have hreserved0 : f.reserved ≠ 0 := by
    cases f with
    | fat12 | fat16 | fat32 => decide
  have hvalid : ¬ (512 = 0 ∨ 512 % 512 ≠ 0 ∨ sectorsPerCluster = 0 ∨ f.reserved = 0 ∨ 2 = 0 ∨
      l.size / sectorSize = 0 ∨ sectorsPerFAT = 0) := by omega
  rw [if_neg (not_not.mpr rfl), if_neg hvalid, if_neg (by omega), ← g.count, hdetected, g.cluster, g.start, g.table,
    g.data]
  have hoffset : f.reserved * 512 + 2 * sectorsPerFAT * 512 + f.rootSectors * 512 =
      (f.reserved + 2 * sectorsPerFAT + f.rootSectors) * sectorSize := by
    unfold sectorSize
    omega
  rw [hoffset]
  rfl

end

end Trex.Fat
