import Mathlib.Data.List.Sort
import Trex.Filesystem.Records

/-!
# NTFS builder: the indexes of `$Secure`

Sorted records are packed into INDX blocks, the separators between the blocks of a level into the next,
until they fit into the root, an attribute of the file record.
-/

namespace Trex.Ntfs

open Trex.Filesystem (ceilDiv)

open Bytes (zeros le16 le32 le64)

def ntfsCluster : Nat := 512
def ntfsIndexSize : Nat := 4096
def ntfsIndexHasSub : Nat := 0x0001
def ntfsIndexLast : Nat := 0x0002

def align8 (v : Nat) : Nat := (v + 7) / 8 * 8

/-- The order of the numbers that a key consists of. -/
def ntfsCompareNameSortKeys : List Nat → List Nat → Ordering
  | [], [] => .eq
  | [], _ :: _ => .lt
  | _ :: _, [] => .gt
  | x :: xs, y :: ys => if x < y then .lt else if y < x then .gt else ntfsCompareNameSortKeys xs ys

/-- `sort.SliceStable` by a three-way comparison of keys. -/
def sortBy {α κ : Type} (compare : κ → κ → Ordering) (key : α → κ) (l : List α) : List α :=
  l.insertionSort fun a b => compare (key b) (key a) ≠ .lt

/-- A block of an index, before it is written out. -/
structure NtfsIndexBlock where
  vcn : Nat
  entries : List Bytes
  hasChildren : Bool

/-- The value of the root of an index, its blocks and their bitmap. -/
structure NtfsIndex where
  rootValue : Bytes := []
  blocks : List NtfsIndexBlock := []
  bitmap : Bytes := []

/-! ## Trees -/

/-- A B-tree with keys in its nodes. -/
inductive IndexTree (α : Type) where
  | mk (keys : List α) (children : List (IndexTree α))

/-- A tree whose blocks have their numbers. -/
inductive Numbered (α : Type) where
  | mk (vcn : Nat) (keys : List α) (children : List (Numbered α))

/-- The cluster number of a block. -/
def ntfsIndexVCN (block : Nat) : Nat := block * (ntfsIndexSize / ntfsCluster)

section

variable {α : Type}

def IndexTree.children : IndexTree α → List (IndexTree α)
  | .mk _ children => children

def Numbered.vcn : Numbered α → Nat
  | .mk vcn _ _ => vcn

mutual

/-- Blocks are numbered after their children. -/
def assign : IndexTree α → Nat → Numbered α × Nat
  | .mk keys children, next =>
    let (children, next) := assignAll children next
    (.mk (ntfsIndexVCN next) keys children, next + 1)

/-- Numbers the children, each behind the one in front. -/
def assignAll : List (IndexTree α) → Nat → List (Numbered α) × Nat
  | [], next => ([], next)
  | child :: rest, next =>
    let (child, next) := assign child next
    let (rest, next) := assignAll rest next
    (child :: rest, next)

end

/-- The entries of a node: one for each key, with the block before it, and the end. -/
def ntfsTreeEntries (entry : α → Bool → Nat → Bytes) (endEntry : Bool → Nat → Bytes)
    (keys : List α) (children : List (Numbered α)) : List Bytes :=
  let hasChildren := !children.isEmpty
  let vcns := children.map Numbered.vcn
  (keys.zipIdx.map fun (key, i) => entry key hasChildren (vcns.getD i 0)) ++ [endEntry hasChildren (vcns.getLastD 0)]

mutual

/-- `allocation`: the blocks in the order of their numbers. -/
def blocksOf (entry : α → Bool → Nat → Bytes) (endEntry : Bool → Nat → Bytes) :
    Numbered α → List NtfsIndexBlock
  | .mk vcn keys children =>
    blocksOfAll entry endEntry children ++ [⟨vcn, ntfsTreeEntries entry endEntry keys children, !children.isEmpty⟩]

def blocksOfAll (entry : α → Bool → Nat → Bytes) (endEntry : Bool → Nat → Bytes) :
    List (Numbered α) → List NtfsIndexBlock
  | [] => []
  | child :: rest => blocksOf entry endEntry child ++ blocksOfAll entry endEntry rest

end

def blockCapacity : Nat := ntfsIndexSize - 0x58

/-- The packing loop of the two `ParentLevel` functions: `keys`, `kids` and `used` are of the node being
filled.  A separator needs a child behind it; that of a directory always has one. -/
def parentLoop (entrySize : α → Nat) : List α → List (IndexTree α) → List α →
    List (IndexTree α) → Nat → List (IndexTree α) × List α
  | separator :: separators, child :: children, keys, kids, used =>
    if used + entrySize separator ≤ blockCapacity then
      parentLoop entrySize separators children (keys ++ [separator]) (kids ++ [child])
        (used + entrySize separator)
    else
      let (level, promoted) := parentLoop entrySize separators children [] [child] 24
      (.mk keys kids :: level, separator :: promoted)
  | _, children, keys, kids, _ => (.mk keys kids :: children.map fun child => .mk [] [child], [])

end

/-- The bitmap of the blocks in use. -/
def blockBitmap (count : Nat) : Bytes :=
  let size := align8 (ceilDiv count 8)
  (List.range size).map fun i =>
    UInt8.ofNat (((List.range 8).map fun j => if i * 8 + j < count then 2 ^ j else 0).sum)

/-- The root node as an attribute. -/
def indexRootValue (typ collation : Nat) (entries : List Bytes) (hasAllocation : Bool) : Bytes :=
  let entryBytes := entries.flatten
  le32 typ ++ le32 collation ++ le32 ntfsIndexSize ++
    [UInt8.ofNat (ntfsIndexSize / ntfsCluster), 0, 0, 0] ++ le32 16 ++
    le32 (16 + entryBytes.length) ++ le32 (16 + entryBytes.length) ++
    [if hasAllocation then 1 else 0, 0, 0, 0] ++ entryBytes

/-- The entry that ends a node. -/
def ntfsIndexEndEntry (hasSubnode : Bool) (vcn : Nat) : Bytes :=
  let flags := if hasSubnode then ntfsIndexLast ||| ntfsIndexHasSub else ntfsIndexLast
  zeros 8 ++ le16 (if hasSubnode then 24 else 16) ++ zeros 2 ++ le16 flags ++ zeros 2 ++
    if hasSubnode then le64 vcn else []

/-! ## Security records -/

/-- A security descriptor with its key fields. -/
structure NtfsSecurityRecord where
  descriptor : Bytes
  hash : Nat
  id : Nat
  offset : Nat := 0

def securityIndexData (record : NtfsSecurityRecord) : Bytes :=
  le32 record.hash ++ le32 record.id ++ le64 record.offset ++ le32 (20 + record.descriptor.length)

def ntfsSecurityEntrySize (hashIndex hasSubnode : Bool) : Nat :=
  (if hashIndex then 48 else 40) + if hasSubnode then 8 else 0

/-- An entry of one of the two indexes. -/
def ntfsSecurityEntry (hashIndex : Bool) (record : NtfsSecurityRecord) (hasSubnode : Bool)
    (vcn : Nat) : Bytes :=
  let keyLength := if hashIndex then 24 else 20
  let key := if hashIndex then le32 record.hash ++ le32 record.id else le32 record.id
  le16 keyLength ++ le16 20 ++ zeros 4 ++ le16 (ntfsSecurityEntrySize hashIndex hasSubnode) ++
    le16 (keyLength - 16) ++ le16 (if hasSubnode then ntfsIndexHasSub else 0) ++ zeros 2 ++ key ++
    securityIndexData record ++ (if hashIndex then zeros 4 else []) ++
    if hasSubnode then le64 vcn else []

/-- The bytes of the entries of a node. -/
def ntfsSecurityEntriesSize (records : List NtfsSecurityRecord) (hashIndex subnodes : Bool) : Nat :=
  (if subnodes then 24 else 16) + records.length * ntfsSecurityEntrySize hashIndex subnodes

/-- As `ntfsLeafLevel`, without its treatment of a last record. -/
def ntfsSecurityLeafLevel (hashIndex : Bool) : List NtfsSecurityRecord → List NtfsSecurityRecord →
    Nat → List (IndexTree NtfsSecurityRecord) × List NtfsSecurityRecord
  | [], keys, _ => ([.mk keys []], [])
  | record :: rest, keys, used =>
    if used + ntfsSecurityEntrySize hashIndex false ≤ blockCapacity then
      ntfsSecurityLeafLevel hashIndex rest (keys ++ [record])
        (used + ntfsSecurityEntrySize hashIndex false)
    else if rest.isEmpty then ([.mk keys []], [record])
    else
      let (level, separators) := ntfsSecurityLeafLevel hashIndex rest [] 16
      (.mk keys [] :: level, record :: separators)

/-- Gathers children under parents, as many as fit in a block. -/
def ntfsSecurityParentLevel (hashIndex : Bool) (children : List (IndexTree NtfsSecurityRecord))
    (separators : List NtfsSecurityRecord) :
    List (IndexTree NtfsSecurityRecord) × List NtfsSecurityRecord :=
  match children with
  | [] => ([], [])
  | child :: children => parentLoop (fun _ => ntfsSecurityEntrySize hashIndex true) separators children [] [child] 24

def securityRootEntryLimit : Nat := 160

/-- Adds levels until the root fits. -/
def securityRootLoop (hashIndex : Bool) : Nat → List (IndexTree NtfsSecurityRecord) →
    List NtfsSecurityRecord → List (IndexTree NtfsSecurityRecord) × List NtfsSecurityRecord
  | 0, level, separators => (level, separators)
  | turns + 1, level, separators =>
    if ntfsSecurityEntriesSize separators hashIndex true > securityRootEntryLimit then
      let (level, separators) := ntfsSecurityParentLevel hashIndex level separators
      securityRootLoop hashIndex turns level separators
    else (level, separators)

/-- The index by hash or by identity. -/
def buildNTFSSecurityIndex (input : List NtfsSecurityRecord) (hashIndex : Bool) : NtfsIndex :=
  let records := sortBy ntfsCompareNameSortKeys
    (fun record => if hashIndex then [record.hash, record.id] else [record.id]) input
  let collation := if hashIndex then 0x12 else 0x10
  let entry := ntfsSecurityEntry hashIndex
  if ntfsSecurityEntriesSize records hashIndex false ≤ securityRootEntryLimit then
    { rootValue := indexRootValue 0 collation
        (records.map (fun record => entry record false 0) ++ [ntfsIndexEndEntry false 0]) false }
  else
    let (level, separators) := ntfsSecurityLeafLevel hashIndex records [] 16
    let (level, separators) := securityRootLoop hashIndex (records.length + 1) level separators
    let (children, count) := assignAll level 0
    { rootValue := indexRootValue 0 collation
        (ntfsTreeEntries entry ntfsIndexEndEntry separators children) true
      blocks := blocksOfAll entry ntfsIndexEndEntry children
      bitmap := blockBitmap count }

end Trex.Ntfs
