import Trex.Fat.Import
import Trex.Lib.WrapAlloc

/-!
# FAT builder: clusters and directories (`fat/fat32_builder.go`, `fat/fat16_builder.go`)

The nodes get clusters from a counter of 32 bits, in their order.  `directorySize` counts what a
directory gets, `directoryData` makes what is written.  The FAT is a table over the cluster numbers.
-/

namespace Trex.Fat

open Bytes (ascii zeros le16 le32)

open Trex.Filesystem (Path Unicode ceilDiv align utf16Units cleanPath nameParts simple83 trimRight)

open Trex.WrapAlloc (Run allocate writeAll)

def sectorSize : Nat := 512

/-- The counter of the clusters has 32 bits. -/
def word : Nat := 2 ^ 32

/-! ## Directory entries -/

def hasLowerASCIIAlpha (s : Bytes) : Bool := (Utf.runes s).any fun r => decide (97 ≤ r ∧ r ≤ 122)
def hasUpperASCIIAlpha (s : Bytes) : Bool := (Utf.runes s).any fun r => decide (65 ≤ r ∧ r ≤ 90)
def hasMixedASCIIAlpha (s : Bytes) : Bool := hasLowerASCIIAlpha s && hasUpperASCIIAlpha s

/-- The alias does not say the whole name. -/
def needsLFN (u : Unicode) (name short : Bytes) : Bool :=
  !simple83 u name (trimRight (short.take 8)) (trimRight ((short.drop 8).take 3)) ||
    hasMixedASCIIAlpha (nameParts name).1 || hasMixedASCIIAlpha (nameParts name).2

/-- The flags for a base or an extension in lower case. -/
def ntResCaseFlags (u : Unicode) (name short : Bytes) : UInt8 :=
  if name = [] ∨ name = ascii "." ∨ name = ascii ".." ∨ needsLFN u name short then 0
  else
    let (base, ext) := nameParts name
    (if hasLowerASCIIAlpha base ∧ ¬ hasUpperASCIIAlpha base then 0x08 else 0) |||
      if hasLowerASCIIAlpha ext ∧ ¬ hasUpperASCIIAlpha ext then 0x10 else 0

/-- The eleven bytes of an alias. -/
def shortField (short : Bytes) : Bytes := (short ++ zeros 11).take 11

/-- An entry of 32 bytes. -/
def dirEntry (u : Unicode) (name : Bytes) (cluster size : Nat) (attr : UInt8) (short : Bytes) : Bytes :=
  shortField short ++ [attr, ntResCaseFlags u name short] ++ zeros 7 ++ le16 (cluster / 2 ^ 16) ++ zeros 4 ++
    le16 cluster ++ le32 size

/-- The checksum that ties a long name to its alias. -/
def shortChecksum (short : Bytes) : UInt8 :=
  (shortField short).foldl (fun sum c => ((sum &&& 1) <<< 7) + (sum >>> 1) + c) 0

/-- The characters of one entry of a long name, filled up with a zero and with ones. -/
def lfnChars (units : List Nat) (i from' count : Nat) : Bytes :=
  (List.range' from' count).flatMap fun j =>
    let index := i * 13 + j
    le16 (if index < units.length then units.getD index 0 else if index = units.length then 0 else 0xffff)

/-- One of the entries of a long name. -/
def lfnEntry (units : List Nat) (count : Nat) (checksum : UInt8) (i : Nat) : Bytes :=
  [UInt8.ofNat (i + 1) ||| if i = count - 1 then 0x40 else 0] ++ lfnChars units i 0 5 ++
    [attrLFN, 0, checksum] ++ lfnChars units i 5 6 ++ zeros 2 ++ lfnChars units i 11 2

/-- The entries of a long name, the last part first. -/
def lfnEntries (u : Unicode) (name short : Bytes) : Bytes :=
  let units := utf16Units name
  let count := (units.length + 12) / 13
  if count = 0 ∨ ¬ needsLFN u name short then []
  else (List.range count).reverse.flatMap (lfnEntry units count (shortChecksum short))

def shortDot : Bytes := padRight (ascii ".") 11
def shortDotDot : Bytes := padRight (ascii "..") 11

/-! ## Placement -/

/-- A node and its run of clusters. -/
abbrev Placed := Run Ref

/-- The first cluster of a node, 0 for none. -/
def clusterOf (placed : List Placed) (r : Ref) : Nat :=
  ((placed.find? fun p => p.owner = r).map Run.start).getD 0

structure Region where
  start : Nat
  size : Nat
deriving DecidableEq

/-- An image: geometry, runs, table, directories and the areas in front of the data. -/
structure Layout where
  size : Nat
  clusterSize : Nat
  dataOffset : Nat
  availableClusters : Nat
  eoc : Nat
  placed : List Placed
  fat : Nat → Nat
  dirData : Ref → Bytes
  /-- the reserved area and the copies of the FAT, and the root directory where it has no clusters -/
  system : List Region
  rootRoom : Option Nat

/-- The entries of the children of a directory. -/
def childEntries (u : Unicode) (t : Tree) (placed : List Placed) (r : Ref) : Bytes :=
  (t.node r).children.flatMap fun c =>
    let n := t.node c
    lfnEntries u n.name n.short ++
      dirEntry u n.name (clusterOf placed c) n.size (if n.dir then n.attr ||| attrDir else n.attr) n.short

/-- The entries `.` and `..`; the root is cluster 0 there. -/
def dotEntries (u : Unicode) (t : Tree) (placed : List Placed) (r : Ref) : Bytes :=
  let parentCluster :=
    match (t.node r).parent with
    | none => 0
    | some parent => if parent = 0 then 0 else clusterOf placed parent
  dirEntry u (ascii ".") (clusterOf placed r) 0 attrDir shortDot ++
    dirEntry u (ascii "..") parentCluster 0 attrDir shortDotDot

/-- The number of entries that the children take. -/
def childEntryCount (u : Unicode) (t : Tree) (r : Ref) : Nat :=
  ((t.node r).children.map fun c =>
    let n := t.node c
    1 + if needsLFN u n.name n.short then ((utf16Units n.name).length + 12) / 13 else 0).sum

/-- `directoryData` up to the terminator. -/
def directoryEntries (u : Unicode) (t : Tree) (placed : List Placed) (label : Option Bytes) (r : Ref) : Bytes :=
  (if r = 0 then
    match label with
    | some label => dirEntry u [] 0 0 attrVolumeID label
    | none => []
  else dotEntries u t placed r) ++ childEntries u t placed r

/-- Zeros up to whole clusters, one entry at least. -/
def fillClusters (entries : Bytes) (clusterSize : Nat) : Bytes :=
  entries ++ zeros (align (entries.length + 32) clusterSize - entries.length)

/-- Why a build is refused. -/
inductive LayoutError where
  | size
  | bootStageSector
  | bootStage
  | label
  | bootCode
  /-- the search for a free alias does not end -/
  | naming
  | orderNotFile (name : Bytes)
  | orderDuplicate (name : Bytes)
  | tooSmall
  | clusters (need available : Nat)
  | fewClusters (available : Nat)
  | rootEntries (need : Nat)
  /-- a write behind the end of the FAT -/
  | outOfRange

/-- The writes of `chain`: each cluster is followed by the next, the last by the mark. -/
def chainWrites (eoc width : Nat) (p : Placed) : List (Nat × Nat) :=
  (List.range p.count).map fun i =>
    let cluster := (p.start + i) % word
    (cluster, if i + 1 = p.count then eoc else (cluster + 1) % width)

/-- The table, zero but for its first two entries and the chains. -/
def makeFAT (first second eoc width : Nat) (placed : List Placed) : Nat → Nat :=
  writeAll (fun c => if c = 0 then first else if c = 1 then second else 0)
    (placed.flatMap (chainWrites eoc width))

/-- Every cluster has an entry in the table. -/
def chainsInside (limit : Nat) (placed : List Placed) : Bool :=
  placed.all fun p => (p.cells word).all fun c => decide (c < limit)

/-! ## FAT32 -/

/-- The closed formula for the size of the table. -/
def fat32SectorsPerFAT (totalSectors sectorsPerCluster : Nat) : Nat :=
  if totalSectors ≤ 32 ∨ sectorsPerCluster = 0 then 0
  else ceilDiv (totalSectors - 32) ((256 * sectorsPerCluster + 2) / 2)

/-- The largest cluster that leaves enough of them. -/
def fat32ClusterSectors (totalSectors : Nat) : Nat :=
  ([8, 4, 2, 1].find? fun sectorsPerCluster =>
    let sectorsPerFAT := fat32SectorsPerFAT totalSectors sectorsPerCluster
    let clusters := (totalSectors - 32 - 2 * sectorsPerFAT) / sectorsPerCluster
    decide (sectorsPerFAT ≠ 0 ∧ 65525 ≤ clusters ∧ clusters < 0x0fffffff - 8)).getD 1

/-- What a directory gets: its entries and one more, which is the terminator or the label. -/
def fat32DirectorySize (u : Unicode) (t : Tree) (r : Ref) : Nat :=
  (1 + (if r ≠ 0 then 2 else 0) + childEntryCount u t r) * 32

/-- What is written of a directory. -/
def fat32DirectoryData (u : Unicode) (t : Tree) (placed : List Placed) (clusterSize : Nat)
    (label : Option Bytes) (r : Ref) : Bytes :=
  fillClusters (directoryEntries u t placed label r) clusterSize

/-- The second stage stays clear of the sectors that the format needs. -/
def validateFAT32BootStage (bootCode : Bytes) (stageLBA : Nat) : Bool :=
  if bootCode.length ≤ sectorSize then true
  else
    let stageEnd := stageLBA + ceilDiv (bootCode.length - sectorSize) sectorSize
    decide (stageEnd ≤ 32) && [1, 6, 7].all fun lba => decide (¬ (stageLBA ≤ lba ∧ lba < stageEnd))

/-- The bytes of the reserved area that are written. -/
def fat32BootSize (bootCode : Bytes) (stageLBA : Nat) : Nat :=
  let stage := ceilDiv (bootCode.length - sectorSize) sectorSize
  let size :=
    if bootCode = [] then sectorSize
    else if bootCode.length ≤ sectorSize then align bootCode.length sectorSize
    else
      let size := max (align bootCode.length sectorSize) ((stageLBA + stage) * sectorSize)
      if stageLBA = 2 then max size ((6 + stageLBA + stage) * sectorSize) else size
  max size (8 * sectorSize)

/-- The clusters of a node. -/
def fat32Need (u : Unicode) (t : Tree) (clusterSize : Nat) (r : Ref) : Nat :=
  ceilDiv (if (t.node r).dir then fat32DirectorySize u t r else (t.node r).size) clusterSize

/-- The FAT32 builder behind the import. -/
def fat32Layout (u : Unicode) (t : Tree) (order : List Ref) (size : Nat) (label : Option Bytes)
    (bootCode : Bytes) (bootStage : Nat) : Except LayoutError Layout :=
  let totalSectors := size / sectorSize
  let sectorsPerCluster := fat32ClusterSectors totalSectors
  let clusterSize := sectorSize * sectorsPerCluster
  let (placed, nextCluster) := allocate word (fat32Need u t clusterSize) order 2
  let sectorsPerFAT := fat32SectorsPerFAT totalSectors sectorsPerCluster
  let availableClusters := (totalSectors - 32 - 2 * sectorsPerFAT) / sectorsPerCluster
  if sectorsPerFAT = 0 then .error .tooSmall
  else if nextCluster > availableClusters + 2 then .error (.clusters (nextCluster - 2) availableClusters)
  else if availableClusters < 65525 then .error (.fewClusters availableClusters)
  else if ¬ chainsInside (availableClusters + 2) placed then .error .outOfRange
  else .ok {
    size := size
    clusterSize := clusterSize
    dataOffset := (32 + 2 * sectorsPerFAT) * sectorSize
    availableClusters := availableClusters
    eoc := 0x0fffffff
    placed := placed
    fat := makeFAT 0x0ffffff8 0x0fffffff 0x0fffffff word placed
    dirData := fat32DirectoryData u t placed clusterSize label
    system := [⟨0, fat32BootSize bootCode bootStage⟩,
      ⟨32 * sectorSize, sectorsPerFAT * sectorSize⟩,
      ⟨(32 + sectorsPerFAT) * sectorSize, sectorsPerFAT * sectorSize⟩]
    rootRoom := none }

/-! ## FAT12 and FAT16 -/

/-- The number of clusters fits the width of the entries. -/
def fat16Valid (fatBits clusters : Nat) : Bool :=
  if fatBits = 16 then decide (4085 ≤ clusters ∧ clusters < 65525) else decide (0 < clusters ∧ clusters < 4085)

/-- The loop over the size of the table. -/
def fat16Sectors (fatBits totalSectors candidate : Nat) : Nat → Nat → Option Nat
  | 0, _ => none
  | turns + 1, sectorsPerFAT =>
    let dataSectors := totalSectors - 1 - 2 * sectorsPerFAT - 32
    if dataSectors = 0 then none
    else
      let clusters := dataSectors / candidate
      let required := ceilDiv (ceilDiv ((clusters + 2) * fatBits) 8) sectorSize
      if required ≤ sectorsPerFAT then
        if fat16Valid fatBits clusters then some sectorsPerFAT else none
      else fat16Sectors fatBits totalSectors candidate turns required

/-- The first size of a cluster that gives a valid number of them; two turns are enough. -/
def fat16Geometry (fatBits totalSectors : Nat) : Option (Nat × Nat) :=
  [1, 2, 4, 8, 16, 32, 64, 128].findSome? fun candidate =>
    (fat16Sectors fatBits totalSectors candidate 2 1).map fun sectorsPerFAT => (candidate, sectorsPerFAT)

/-- What a subdirectory gets: dots, entries and the terminator. -/
def fat16DirectorySize (u : Unicode) (t : Tree) (r : Ref) : Nat :=
  (2 + childEntryCount u t r + 1) * 32

/-- The root has its own area of 512 entries. -/
def fat16DirectoryData (u : Unicode) (t : Tree) (placed : List Placed) (clusterSize : Nat)
    (label : Option Bytes) (r : Ref) : Bytes :=
  let entries := directoryEntries u t placed label r
  if r = 0 then entries ++ zeros (512 * 32 - entries.length) else fillClusters entries clusterSize

/-- The clusters of a node. -/
def fat16Need (u : Unicode) (t : Tree) (clusterSize : Nat) (r : Ref) : Nat :=
  ceilDiv (if (t.node r).dir then fat16DirectorySize u t r else (t.node r).size) clusterSize

/-- The FAT12 and FAT16 builder behind the import. -/
def fat16Layout (fatBits : Nat) (u : Unicode) (t : Tree) (order : List Ref) (size : Nat)
    (label : Option Bytes) : Except LayoutError Layout :=
  let totalSectors := size / sectorSize
  match fat16Geometry fatBits totalSectors with
  | none => .error .tooSmall
  | some (sectorsPerCluster, sectorsPerFAT) =>
    let clusterSize := sectorsPerCluster * sectorSize
    let (placed, nextCluster) := allocate word (fat16Need u t clusterSize) (order.filter (· ≠ 0)) 2
    let availableClusters := (totalSectors - 1 - 2 * sectorsPerFAT - 32) / sectorsPerCluster
    let eoc := if fatBits = 12 then 0x0fff else 0xffff
    if (nextCluster + word - 2) % word > availableClusters then
      .error (.clusters ((nextCluster + word - 2) % word) availableClusters)
    else if ¬ chainsInside (availableClusters + 2) placed then .error .outOfRange
    else if (directoryEntries u t placed label 0).length + 32 > 512 * 32 then
      .error (.rootEntries (((directoryEntries u t placed label 0).length + 31) / 32 + 1))
    else .ok {
      size := size
      clusterSize := clusterSize
      dataOffset := (1 + 2 * sectorsPerFAT + 32) * sectorSize
      availableClusters := availableClusters
      eoc := eoc
      placed := placed
      fat := makeFAT (if fatBits = 12 then 0x0ff8 else 0xfff8) eoc eoc (2 ^ 16) placed
      dirData := fat16DirectoryData u t placed clusterSize label
      system := [⟨0, sectorSize⟩,
        ⟨sectorSize, sectorsPerFAT * sectorSize⟩,
        ⟨(1 + sectorsPerFAT) * sectorSize, sectorsPerFAT * sectorSize⟩,
        ⟨(1 + 2 * sectorsPerFAT) * sectorSize, 32 * sectorSize⟩]
      rootRoom := some (32 * sectorSize) }

/-! ## The builders -/

/-- The files that the order names, each once. -/
def ranks (u : Unicode) (t : Tree) (byPath : SortedMap Bytes Ref) :
    List Bytes → List Ref → Except LayoutError (List Ref)
  | [], ranked => .ok ranked
  | name :: names, ranked =>
    match byPath.find (pathKey u (cleanPath name)) with
    | none => .error (.orderNotFile name)
    | some r =>
      if (t.node r).dir then .error (.orderNotFile name)
      else if r ∈ ranked then .error (.orderDuplicate name)
      else ranks u t byPath names (ranked ++ [r])

/-- Files of the order go first, as they stand there. -/
def ordered (ranked : List Ref) (left right : Ref) : Bool :=
  if left ∈ ranked then
    if right ∈ ranked then decide (ranked.idxOf left < ranked.idxOf right) else true
  else false

def sortStable (ranked : List Ref) (l : List Ref) : List Ref :=
  l.insertionSort fun a b => ordered ranked b a = false

/-- `file_order`: the nodes and the children in the order of the files. -/
def applyFileOrder (u : Unicode) (t : Tree) (paths : List Bytes) : Except LayoutError (Tree × List Ref) :=
  let order := List.range t.nodes.length
  if paths = [] then .ok (t, order)
  else
    let byPath := order.foldl (fun m r => m.insert (pathKey u (t.node r).fullPath) r) (∅ : SortedMap Bytes Ref)
    match ranks u t byPath paths [] with
    | .error err => .error err
    | .ok ranked =>
      .ok ({ t with nodes := t.nodes.map fun n => { n with children := sortStable ranked n.children } },
        order.take 1 ++ sortStable ranked (order.drop 1))

/-- The label in upper case, if its characters are allowed. -/
def fat32VolumeLabel (u : Unicode) (label : Bytes) : Option Bytes :=
  if label = [] ∨ label.length > 11 then none
  else
    let upper := u.upperString label
    if upper.all fun c => decide (0x20 ≤ c ∧ c ≤ 0x7e ∧ c ∉ ascii "\"*+,./:;<=>?[\\]|") then
      some (padRight upper 11)
    else none

inductive Format where
  | fat12
  | fat16
  | fat32
deriving DecidableEq

/-- The arguments of the builtins, with their defaults. -/
structure Options where
  size : Nat
  bootCode : Bytes := []
  label : Bytes := ascii "NO NAME"
  bootStageSector : Nat := 14
  fileOrder : List Bytes := []
  directoryLabel : Bool := true

/-- The checks before a build; the label as it is written, and whether the root lists it. -/
def checkOptions (u : Unicode) (f : Format) (o : Options) : Except LayoutError (Option Bytes) :=
  match f with
  | .fat32 =>
    if o.size < 64 * 1024 * 1024 then .error .size
    else if o.bootStageSector < 2 ∨ o.bootStageSector ≥ 32 then .error .bootStageSector
    else if ¬ validateFAT32BootStage o.bootCode o.bootStageSector then .error .bootStage
    else
      match fat32VolumeLabel u o.label with
      | none => .error .label
      | some label => .ok (if o.directoryLabel then some label else none)
  | _ =>
    if o.size = 0 ∨ o.size % sectorSize ≠ 0 then .error .size
    else if o.bootCode.length > sectorSize then .error .bootCode
    else
      match fat32VolumeLabel u o.label with
      | none => .error .label
      | some label => .ok (if o.directoryLabel then some label else none)

/-- The layout of a format. -/
def layoutOf (u : Unicode) (f : Format) (o : Options) (label : Option Bytes) (t : Tree) (order : List Ref) :
    Except LayoutError Layout :=
  match f with
  | .fat12 => fat16Layout 12 u t order o.size label
  | .fat16 => fat16Layout 16 u t order o.size label
  | .fat32 => fat32Layout u t order o.size label o.bootCode o.bootStageSector

section

variable (sortSlice : (Ref → Ref → Bool) → List Ref → List Ref) (u : Unicode)

/-- The builtins: checks, import, order, layout. -/
def build (f : Format) (s : Snapshot) (o : Options) : Except LayoutError (Tree × Layout) :=
  match checkOptions u f o with
  | .error err => .error err
  | .ok label =>
    match importDirectory sortSlice u s with
    | none => .error .naming
    | some t =>
      match applyFileOrder u t o.fileOrder with
      | .error err => .error err
      | .ok (t, order) =>
        match layoutOf u f o label t order with
        | .error err => .error err
        | .ok l => .ok (t, l)

end

def Layout.clusterOffset (l : Layout) (cluster : Nat) : Nat :=
  l.dataOffset + (cluster + word - 2) % word * l.clusterSize

/-- The bytes that are written for a node. -/
def Layout.bytes (t : Tree) (l : Layout) (r : Ref) : Nat :=
  if (t.node r).dir then (l.dirData r).length else (t.node r).size

/-- The extents of the image; an empty file has none. -/
def Layout.extents (t : Tree) (l : Layout) : List Region :=
  l.system ++ l.placed.filterMap fun p =>
    if l.bytes t p.owner = 0 then none else some ⟨l.clusterOffset p.start, l.bytes t p.owner⟩

end Trex.Fat
