import Trex.Repo.Git

/-!
# Trees in memory

`tree.go` and the first half of `index.go`.  Nodes and index pages are cells of a heap, so that sharing
and equality of pointers are those of the source.  A cell never changes; the memoized identities are
kept beside the cells.
-/

namespace Trex.Repo

abbrev NodePtr := Nat
abbrev IndexPtr := Nat

/-- `node` without its memoized identity. -/
structure Node where
  gitObject : GitOID := zeroOID
  parent : ID := []
  lazy : Bool := false
  entry : Entry
  children : Option IndexPtr := none

/-- `childIndex` without its memoized identity: a leaf has entries, a branch 16 slots. -/
structure Index where
  entries : List (Name × NodePtr)
  slots : Option (List (Option IndexPtr)) := none
  size : Nat
  weight : Nat

/-- The nodes and index pages in memory, with their identities once they are stored. -/
structure Heap where
  nodes : List Node
  indexes : List Index
  nodeID : NodePtr → ID
  indexID : IndexPtr → ID

namespace Heap

def empty : Heap := ⟨[], [], fun _ => [], fun _ => []⟩

def node (h : Heap) (n : NodePtr) : Node := h.nodes.getD n { entry := { kind := .file, mode := 0 } }

def index (h : Heap) (p : IndexPtr) : Index := h.indexes.getD p ⟨[], none, 0, 0⟩

/-- A new node. -/
def newNode (h : Heap) (n : Node) (id : ID) : NodePtr × Heap :=
  (h.nodes.length, { h with
    nodes := h.nodes ++ [n]
    nodeID := fun m => if m = h.nodes.length then id else h.nodeID m })

def newIndex (h : Heap) (ix : Index) (id : ID) : IndexPtr × Heap :=
  (h.indexes.length, { h with
    indexes := h.indexes ++ [ix]
    indexID := fun q => if q = h.indexes.length then id else h.indexID q })

def setNodeID (h : Heap) (n : NodePtr) (id : ID) : Heap :=
  { h with nodeID := fun m => if m = n then id else h.nodeID m }

def setIndexID (h : Heap) (p : IndexPtr) (id : ID) : Heap :=
  { h with indexID := fun q => if q = p then id else h.indexID q }

/-- A function that allocates, along a list. -/
def mapAlloc {α β : Type} (f : Heap → α → β × Heap) : Heap → List α → List β × Heap
  | h, [] => ([], h)
  | h, a :: as =>
      match f h a with
      | (b, h') =>
          match mapAlloc f h' as with
          | (bs, h'') => (b :: bs, h'')

end Heap

/-! ## The directory index -/

def indexLeafEntries : Nat := 32
def indexTargetBytes : Nat := 4096
/-- Length of the name, kind, mode and identity of an entry. -/
def indexEntryBytes : Nat := 37
def maxIndexBytes : Nat := 3 + indexEntryBytes + 4096

abbrev NamedNode := Name × NodePtr

/-- The entries below. -/
def Heap.count (h : Heap) : Option IndexPtr → Nat
  | none => 0
  | some p => (h.index p).size

/-- The bytes that the entries below take. -/
def Heap.weight (h : Heap) : Option IndexPtr → Nat
  | none => 0
  | some p => (h.index p).weight

/-- The entries fit in a leaf. -/
def fitsLeaf (size weight : Nat) : Bool :=
  decide (size ≤ indexLeafEntries) && (decide (size ≤ 1) || decide (weight + 3 ≤ indexTargetBytes))

/-- Four bits of the hash choose the slot. -/
def hashSlot (hash : Bytes) (depth : Nat) : Nat :=
  let b := (hash.getD (depth / 2) 0).toNat
  if depth % 2 = 0 then b / 16 else b % 16

/-- The bytes that entries take. -/
def entriesWeight {α : Type} (entries : List (Name × α)) : Nat :=
  (entries.map fun e => indexEntryBytes + e.1.length).sum

/-- A leaf page. -/
def leafIndex (entries : List NamedNode) : Index :=
  ⟨entries, none, entries.length, entriesWeight entries⟩

def leaf (h : Heap) (entries : List NamedNode) : Option IndexPtr × Heap :=
  if entries = [] then (none, h)
  else
    match h.newIndex (leafIndex entries) [] with
    | (p, h') => (some p, h')

/-- The place of a name in the entries of a leaf. -/
def searchName (entries : List NamedNode) (name : Name) : Nat :=
  Search.search entries.length (Assoc.atLeast entries name)

def entryAt (entries : List NamedNode) (i : Nat) (name : Name) : Option NodePtr :=
  match entries[i]? with
  | none => none
  | some e => if e.1 = name then some e.2 else none

/-- The loop of `lookup`; a page lies at most 64 levels deep. -/
def lookupLoop (h : Heap) (name : Name) (hash : Bytes) : Nat → Nat → Option IndexPtr → Option NodePtr
  | 0, _, _ => none
  | _ + 1, _, none => none
  | turns + 1, depth, some p =>
      match (h.index p).slots with
      | some slots => lookupLoop h name hash turns (depth + 1) (slots.getD (hashSlot hash depth) none)
      | none => entryAt (h.index p).entries (searchName (h.index p).entries name) name

/-- The entries below a page; `turns` bounds the levels. -/
def collectEntries (h : Heap) : Nat → Option IndexPtr → List NamedNode
  | 0, _ => []
  | _ + 1, none => []
  | turns + 1, some p =>
      match (h.index p).slots with
      | none => (h.index p).entries
      | some slots => slots.flatMap (collectEntries h turns)

def sortEntries (entries : List NamedNode) : List NamedNode :=
  entries.mergeSort fun a b => decide (a.1 ≤ b.1)

/-- The entries of all slots in order. -/
def slotEntries (h : Heap) (slots : List (Option IndexPtr)) : List NamedNode :=
  sortEntries (slots.flatMap (collectEntries h 65))

/-- The entries below in order. -/
def sortedEntries (h : Heap) (n : Option IndexPtr) : List NamedNode :=
  sortEntries (collectEntries h 65 n)

def eachChild (h : Heap) : Option IndexPtr → List NamedNode
  | none => []
  | some p =>
      match (h.index p).slots with
      | none => (h.index p).entries
      | some _ => sortedEntries h (some p)

section

variable (env : Env)

/-- The node with a name. -/
def lookup (h : Heap) (n : Option IndexPtr) (name : Name) : Option NodePtr :=
  lookupLoop h name (env.sha256 name) 65 0 n

/-- `partition` at depth `64 - left`: sorted entries become a leaf when they fit, a
branch of their buckets otherwise. -/
def partition : Nat → Heap → List NamedNode → Option IndexPtr × Heap
  | 0, h, entries => leaf h entries
  | left + 1, h, entries =>
      if entries = [] || fitsLeaf entries.length (entriesWeight entries) then leaf h entries
      else
        let bucket (i : Nat) := entries.filter fun e => hashSlot (env.sha256 e.1) (64 - (left + 1)) = i
        match h.mapAlloc (fun h i => partition left h (bucket i)) (List.range 16) with
        | (slots, h') =>
            match h'.newIndex ⟨[], some slots, entries.length, entriesWeight entries⟩ [] with
            | (p, h'') => (some p, h'')

/-- Changes an entry of a leaf, which may split. -/
def setLeaf (left : Nat) (h : Heap) (n : IndexPtr) (name : Name) (value : Option NodePtr) :
    Option IndexPtr × Heap :=
  let entries := (h.index n).entries
  let i := searchName entries name
  let old := entryAt entries i name
  -- absent and to be removed, or the very node that is there
  if old = value then (some n, h)
  else
    let added := match value with
      | none => []
      | some v => [(name, v)]
    partition env left h (entries.take i ++ added ++ entries.drop (if old.isSome then i + 1 else i))

/-- `setIndex` at depth `64 - left`. -/
def setIndex : Nat → Heap → Option IndexPtr → Name → Option NodePtr → Option IndexPtr × Heap
  | _, h, none, name, value =>
      match value with
      | none => (none, h)
      | some v => leaf h [(name, v)]
  | left, h, some n, name, value =>
      match left, (h.index n).slots with
      | left + 1, some slots =>
          let slot := hashSlot (env.sha256 name) (64 - (left + 1))
          let old := slots.getD slot none
          match setIndex left h old name value with
          | (next, h') =>
              if next = old then (some n, h')
              else
                let size := (h'.index n).size - h'.count old + h'.count next
                let weight := (h'.index n).weight - h'.weight old + h'.weight next
                let slots := slots.set slot next
                if fitsLeaf size weight then leaf h' (slotEntries h' slots)
                else
                  match h'.newIndex ⟨[], some slots, size, weight⟩ [] with
                  | (p, h'') => (some p, h'')
      | _, _ => setLeaf env left h n name value

/-- Sets or removes a name. -/
def setChild (h : Heap) (n : Option IndexPtr) (name : Name) (value : Option NodePtr) :
    Option IndexPtr × Heap :=
  setIndex env 64 h n name value

/-! ## Nodes -/

/-- The node at a path. -/
def findNode (h : Heap) : NodePtr → Path → Option NodePtr
  | root, [] => some root
  | root, name :: rest =>
      if (h.node root).entry.kind = .dir then
        match lookup env h (h.node root).children name with
        | none => none
        | some n => findNode h n rest
      else none

/-- A copy of the path to a node with another value at its end; nil deletes.  The
ancestors exist when it is called. -/
def replaceNode (h : Heap) : NodePtr → Path → Option NodePtr → Option NodePtr × Heap
  | _, [], value => (value, h)
  | root, name :: rest, value =>
      let below := match rest with
        | [] => (value, h)
        | _ :: _ =>
            match lookup env h (h.node root).children name with
            | none => (none, h)
            | some n => replaceNode h n rest value
      match setChild env below.2 (h.node root).children name below.1 with
      | (children, h') =>
          match h'.newNode { entry := (h.node root).entry, children } [] with
          | (n, h'') => (some n, h'')

/-- The nodes below a node with their paths, parents first; `clean` keeps a tree to 256
levels. -/
def walkNodes (h : Heap) : Nat → NodePtr → Path → List (Path × NodePtr)
  | 0, _, _ => []
  | turns + 1, n, path =>
      (eachChild h (h.node n).children).flatMap fun e => (path ++ [e.1], e.2) :: walkNodes h turns e.2 (path ++ [e.1])

end

end Trex.Repo
