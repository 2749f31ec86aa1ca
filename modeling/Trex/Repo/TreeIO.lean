import Trex.Repo.Tree

/-!
# Saving and loading trees

`saveNodeAt`, `saveIndex` and `loadIndex`, the eager `load`, the lazy placeholders of
`lazy_workspace.go` and the Git placeholders of `lazy_git.go`.
-/

namespace Trex.Repo

open Bytes (ascii)

open Slice

/-- The file and the nodes in memory. -/
structure Live where
  store : Storage
  heap : Heap

abbrev TreeM := Op Live Err

def onStore {α : Type} (m : StoreM α) : TreeM α := m.zoom Live.store fun s l => { l with store := s }

def onHeap {α : Type} (f : Heap → α × Heap) : TreeM α := fun l =>
  match f l.heap with
  | (a, h) => (.ok a, { l with heap := h })

/-! ## Page formats -/

def kindByte : Kind → UInt8
  | .file => 1
  | .dir => 2
  | .symlink => 3
  | .gitlink => 4

def kindOfByte (b : UInt8) : Except Err Kind :=
  if b = 1 then .ok .file
  else if b = 2 then .ok .dir
  else if b = 3 then .ok .symlink
  else if b = 4 then .ok .gitlink
  else .error .indexKindByte

/-- A child as it is stored. -/
structure Child where
  kind : Kind
  mode : Nat
  id : ID
  deriving DecidableEq, Repr

/-- A child in a leaf page. -/
def leafEntry (name : Name) (c : Child) : Bytes :=
  BigEndian.put 2 name.length ++ name ++ kindByte c.kind :: (BigEndian.put 2 c.mode ++ key c.id)

/-- A leaf page. -/
def leafPage (children : List (Name × Child)) : Bytes :=
  0 :: (BigEndian.put 2 children.length ++ children.flatMap fun c => leafEntry c.1 c.2)

/-- Bit `i` of the bitmap says that slot `i` is taken. -/
def bitmap {α : Type} (slots : List (Option α)) : Nat :=
  (slots.zipIdx.map fun e => if e.1.isSome then 2 ^ e.2 else 0).sum

/-- A branch page: the bitmap and the slots in use. -/
def branchPage (slots : List (Option ID)) : Bytes :=
  1 :: (BigEndian.put 2 (bitmap slots) ++ slots.flatMap fun
    | none => []
    | some id => key id)

def bit (field i : Nat) : Bool := field / 2 ^ i % 2 == 1

def onesCount (field : Nat) : Nat := ((List.range 16).filter (bit field)).length

section

variable (env : Env)

/-! ## Placeholders -/

/-- A gitlink has the identity of a commit and nothing else. -/
def checkGitlink (e : Entry) : Except Err Unit :=
  if e.kind = .gitlink then do
    let _ ← parseGitOID e.gitOID
    refuse (e.size ≠ 0 ∨ e.blocks ≠ [] ∨ e.mode ≠ 0) .gitlink
  else refuse (e.gitOID ≠ []) .gitlink

/-- The checks that a descriptor of a child passes: those of `load` and `materializeNode`. -/
def checkEntry (id : ID) (c : Child) (e : Entry) : StoreM Unit := do
  Op.failIf (e.kind ≠ c.kind ∨ e.mode ≠ c.mode ∨
    e.body = [] ∧ e.blocks.length ≠ (e.size + blockSize - 1) / blockSize) .fileDescriptor
  Op.when (e.body ≠ []) do
    Op.failIf (e.blocks ≠ [] ∨ e.kind = .gitlink) .fileBody
    checkBody env (key e.body) e.size (key id) .fileBody
  Op.ofExcept (checkGitlink e)
  checkBlocks env (e.blocks.map key) e.size (key id) .fileBlock

/-- The names that a page may hold. -/
def checkChild (name : Name) (c : Child) : Except Err Unit :=
  if name = [] || name.contains 47 || name = ascii "." || name = ascii ".." || c.mode > 0o777 then
    .error .treeEntry
  else .ok ()

/-- The child was written before its parent. -/
def checkEarlier (child parent : ID) (e : Err) : TreeM Unit := do
  Op.failIf (!(← onStore (earlier env child parent))) e

/-- The entries of a leaf page at the given depth, checked one by one. -/
def loadLeaf (id : ID) (depth : Nat) (lead : Bytes) (loadChild : Name → Child → TreeM NodePtr) :
    Nat → Name → Bytes → TreeM (List NamedNode × Bytes)
  | 0, _, data => return ([], data)
  | count + 1, previous, data => do
      Op.failIf (data.length < 2) .indexTruncated
      let length := BigEndian.get (data.take 2)
      let data := data.drop 2
      Op.failIf (length = 0 ∨ data.length < length + 35) .indexName
      let name := data.take length
      let data := data.drop length
      Op.failIf (name ≤ previous) .indexOrder
      Op.failIf ((List.range depth).any fun d => hashSlot (env.sha256 name) d ≠ hashSlot lead d)
        .indexPartition
      let kind ← Op.ofExcept (kindOfByte (data.getD 0 0))
      let c : Child := ⟨kind, BigEndian.get (slice data 1 2), Hex.encode (slice data 3 32)⟩
      Op.when (← Op.gets fun l => l.store.fast).isNone (checkEarlier env c.id id .indexEarlier)
      let v ← loadChild name c
      let (entries, rest) ← loadLeaf id depth lead loadChild count name (data.drop 35)
      return ((name, v) :: entries, rest)

/-- The bits of the hash on the way to a slot. -/
def nextPrefix (lead : Bytes) (depth i : Nat) : Bytes :=
  if depth % 2 = 0 then lead.set (depth / 2) (.ofNat (16 * i))
  else lead.set (depth / 2) (lead.getD (depth / 2) 0 ||| .ofNat i)

/-- Loads the slots in use. -/
def loadSlots (id : ID) (field : Nat) (page : Nat → ID → TreeM IndexPtr) :
    List Nat → Bytes → TreeM (List (Option IndexPtr))
  | [], _ => return []
  | i :: slots, data =>
      if bit field i then do
        let childID := Hex.encode (data.take 32)
        checkEarlier env childID id .indexEarlier
        let c ← page i childID
        let rest ← loadSlots id field page slots (data.drop 32)
        return some c :: rest
      else do
        let rest ← loadSlots id field page slots data
        return none :: rest

/-- `loadIndex` at depth `64 - left`. -/
def loadIndex (loadChild : ID → Name → Child → TreeM NodePtr) : Nat → ID → Bytes → TreeM IndexPtr
  | left, id, lead => do
      match ← onStore (lookupObject env (key id)) with
      | none => Op.throw .indexRecord
      | some loc => do
          Op.failIf (loc.kind ≠ indexKind ∨ loc.size > maxIndexBytes) .indexRecord
          let data ← onStore (get env id indexKind)
          Op.failIf (data.length < 3) .indexTruncated
          let field := BigEndian.get (slice data 1 2)
          let rest := data.drop 3
          if data.head? = some 0 then
            Op.failIf (field = 0 ∨ field > indexLeafEntries) .indexLeafCount
            let (entries, rest) ← loadLeaf env id (64 - left) lead (loadChild id) field [] rest
            Op.failIf (rest ≠ [] ∨ !fitsLeaf entries.length (entriesWeight entries)) .indexLeafBounds
            onHeap fun h => h.newIndex (leafIndex entries) id
          else if data.head? = some 1 then
            match left with
            | 0 => Op.throw .indexBranch
            | left + 1 => do
                Op.failIf (field = 0 ∨ rest.length ≠ 32 * onesCount field) .indexBranch
                let depth := 64 - (left + 1)
                let slots ← loadSlots env id field
                  (fun i childID => loadIndex loadChild left childID (nextPrefix lead depth i))
                  (List.range 16) rest
                let h ← Op.gets Live.heap
                let size := (slots.map h.count).sum
                let weight := (slots.map h.weight).sum
                Op.failIf (fitsLeaf size weight) .indexNoncanonical
                onHeap fun h => h.newIndex ⟨[], some slots, size, weight⟩ id
          else Op.throw .indexTag

def rootPrefix : Bytes := List.replicate 32 0

/-! ## Content -/

/-- The block of a file, cut to what the file has of it. -/
def readBlock (e : Entry) (i : Nat) : StoreM Bytes := do
  let data ← get env (e.blocks.getD i []) blockKind
  let want := min blockSize (e.size - i * blockSize)
  Op.failIf (data.length < want) .blockLength
  return data.take want

/-- The content of a file. -/
def readerAll (e : Entry) : StoreM Bytes := do
  ready
  if e.body ≠ [] then borrowBody env e.body
  else do
    let parts ← (List.range ((e.size + blockSize - 1) / blockSize)).mapM (readBlock env e)
    return parts.flatten

/-! ## Git placeholders -/

/-- The bytes before the first `c` and those after it. -/
def cutAt (c : UInt8) : Bytes → Option (Bytes × Bytes)
  | [] => none
  | b :: rest =>
      if b = c then some ([], rest)
      else (cutAt c rest).map fun (before, after) => (b :: before, after)

def parseOctal (text : Bytes) : Except Err Nat :=
  if text.all fun c => 48 ≤ c.toNat && c.toNat ≤ 55 then
    let v := text.foldl (fun v c => 8 * v + (c.toNat - 48)) 0
    if v < 2 ^ 32 then .ok v else .error .gitTree
  else .error .gitTree

structure GitTreeEntry where
  mode : Nat
  name : Bytes
  oid : GitOID

/-- `parseGitTree`; each turn takes at least one byte. -/
def parseGitTree (hashBytes : Nat) : Nat → Bytes → Except Err (List GitTreeEntry)
  | 0, _ => .ok []
  | turns + 1, data =>
      if data = [] then .ok []
      else
        match cutAt 32 data with
        | none => .error .gitTree
        | some (modeText, data) =>
            match cutAt 0 data with
            | none => .error .gitTree
            | some (name, data) => do
                refuse (modeText = [] ∨ name = [] ∨ data.length < hashBytes) .gitTree
                let mode ← parseOctal modeText
                let oid ← gitOIDFromBytes (data.take hashBytes)
                -- the type bits of the mode
                refuse (!([0o4, 0o10, 0o12, 0o16].contains (mode / 4096 % 16))) .gitTree
                let rest ← parseGitTree hashBytes turns (data.drop hashBytes)
                return ⟨mode, name, oid⟩ :: rest

/-- A node for an entry of a Git tree. -/
def gitChild (g : GitTreeEntry) : Except Err Node := do
  refuse (g.name = ascii "." ∨ g.name = ascii ".." ∨ g.name.any fun c => c == 47 || c == 92) .gitName
  let _ ← clean g.name
  let lazyNode (kind : Kind) (mode : Nat) : Node := { gitObject := g.oid, lazy := true, entry := { kind, mode } }
  if g.mode = 0o40000 then return lazyNode .dir 0o755
  else if g.mode = 0o100644 then return lazyNode .file 0o644
  else if g.mode = 0o100755 then return lazyNode .file 0o755
  else if g.mode = 0o120000 then return lazyNode .symlink 0o777
  else if g.mode = 0o160000 then
    return { entry := { kind := .gitlink, mode := 0, gitOID := gitText g.oid } }
  else throw .gitTree

def gitChildren : List GitTreeEntry → Option IndexPtr → TreeM (Option IndexPtr)
  | [], children => return children
  | g :: rest, children => do
      let n ← Op.ofExcept (gitChild g)
      let h ← Op.gets Live.heap
      Op.failIf (lookup env h children g.name).isSome .gitTree
      let child ← onHeap fun h => h.newNode n []
      let next ← onHeap fun h => setChild env h children g.name (some child)
      gitChildren rest next

/-- Loads a file or directory from its Git object. -/
def materializeGitNode (n : NodePtr) : TreeM NodePtr := do
  let h ← Op.gets Live.heap
  let node := h.node n
  let obj ← onStore (gitObject env node.gitObject)
  if node.entry.kind ≠ .dir then
    Op.failIf (obj.kind ≠ gitBlob) .gitTree
    let entry := { node.entry with size := obj.size, body := obj.body, blocks := obj.blocks }
    onHeap fun h => h.newNode { entry } (h.nodeID n)
  else do
    Op.failIf (obj.kind ≠ gitTree) .gitTree
    let content : Entry := { kind := .file, mode := 0, size := obj.size, body := obj.body, blocks := obj.blocks }
    -- nothing is read of the empty tree
    let data ← (if obj.size = 0 then return [] else onStore (readerAll env content))
    Op.failIf (data.length < obj.size) .unexpectedEOF
    let data := data.take obj.size
    let hashBytes := gitLength node.gitObject
    Op.failIf (hashBytes ≠ 20 ∧ hashBytes ≠ 32) .gitTree
    let entries ← Op.ofExcept (parseGitTree hashBytes (data.length + 1) data)
    let children ← gitChildren env entries none
    onHeap fun h => h.newNode { entry := node.entry, children } (h.nodeID n)

/-- The placeholder that stands for a child of a loaded page. -/
def lazyChild (parent : ID) (name : Name) (c : Child) : TreeM NodePtr := do
  Op.ofExcept (checkChild name c)
  let _ ← Op.ofExcept (clean name)
  onHeap fun h => h.newNode { entry := { kind := c.kind, mode := c.mode }, parent, lazy := true } c.id

/-- Loads a node that has not been loaded. -/
def materializeNode (n : NodePtr) : TreeM NodePtr := do
  let h ← Op.gets Live.heap
  let node := h.node n
  let id := h.nodeID n
  if gitValid node.gitObject then materializeGitNode env n
  else if !node.lazy then return n
  else do
    Op.when (node.parent ≠ []) (checkEarlier env id node.parent .indexEarlier)
    if node.entry.kind = .dir then
      let t ← onStore (getJSON env id treeKind Tree.unmarshal)
      let entry := { node.entry with times := t.times }
      if t.index = [] then onHeap fun h => h.newNode { entry } id
      else do
        checkEarlier env t.index id .treeOrder
        let children ← loadIndex env lazyChild 64 t.index rootPrefix
        onHeap fun h => h.newNode { entry, children := some children } id
    else do
      let e ← onStore (getJSON env id fileKind Entry.unmarshal)
      onStore (checkEntry env id ⟨node.entry.kind, node.entry.mode, id⟩ e)
      onHeap fun h => h.newNode { entry := e } id

/-! ## Saving -/

/-- Stores the children of a leaf. -/
def saveEntries (saveChild : Path → NodePtr → TreeM ID) (base : Path) :
    List NamedNode → TreeM (List (Name × Child))
  | [] => return []
  | e :: entries => do
      let id ← saveChild (base ++ [e.1]) e.2
      let entry := ((← Op.gets Live.heap).node e.2).entry
      let rest ← saveEntries saveChild base entries
      return (e.1, ⟨entry.kind, entry.mode, id⟩) :: rest

def saveSlots (savePage : IndexPtr → TreeM ID) : List (Option IndexPtr) → TreeM (List (Option ID))
  | [] => return []
  | none :: slots => do
      let rest ← saveSlots savePage slots
      return none :: rest
  | some p :: slots => do
      let id ← savePage p
      let rest ← saveSlots savePage slots
      return some id :: rest

/-- `saveIndex` of a page; `turns` bounds the levels. -/
def savePage (saveChild : Path → NodePtr → TreeM ID) (base : Path) : Nat → IndexPtr → TreeM ID
  | 0, _ => Op.throw .indexCapacity
  | turns + 1, p => do
      let h ← Op.gets Live.heap
      if h.indexID p ≠ [] then return h.indexID p
      let data ← (match (h.index p).slots with
        | none => do
            Op.failIf (!fitsLeaf (h.index p).size (h.index p).weight) .indexCapacity
            return leafPage (← saveEntries saveChild base (h.index p).entries)
        | some slots => return branchPage (← saveSlots (savePage saveChild base turns) slots))
      let id ← onStore (append env indexKind data)
      onHeap fun h => ((), h.setIndexID p id)
      return id

/-- Stores an index. -/
def saveIndex (saveChild : Path → NodePtr → TreeM ID) (base : Path) : Option IndexPtr → TreeM ID
  | none => return []
  | some p => savePage env saveChild base 65 p

/-- `saveNodeAt` with `turns` levels left of the 257 that a tree can have. -/
def saveNodeAt : Nat → Path → NodePtr → TreeM ID
  | 0, _, _ => Op.throw .depthLimit
  | turns + 1, path, n => do
      Op.ofExcept (checkPath path)
      let h ← Op.gets Live.heap
      if h.nodeID n ≠ [] then return h.nodeID n
      let m ← materializeNode env n
      let node := (← Op.gets Live.heap).node m
      let id ← (if node.entry.kind ≠ .dir then onStore (append env fileKind node.entry.marshal)
        else do
          let index ← saveIndex env (saveNodeAt turns) path node.children
          onStore (append env treeKind (Tree.marshal ⟨node.entry.times, index⟩)))
      onHeap fun h => ((), (h.setNodeID n id).setNodeID m id)
      return id

/-- Stores a node with all below it. -/
def saveNode (n : NodePtr) : TreeM ID := saveNodeAt env 257 [] n

/-! ## Loading -/

/-- `visit` of the eager `load`, with `turns` levels left. -/
def loadNode : Nat → Path → Nat → ID → TreeM NodePtr
  | 0, _, _, _ => Op.throw .depthLimit
  | turns + 1, path, mode, id => do
      let t ← onStore (getJSON env id treeKind Tree.unmarshal)
      let entry : Entry := { kind := .dir, mode, times := t.times }
      if t.index = [] then onHeap fun h => h.newNode { entry } id
      else do
        checkEarlier env t.index id .treeOrder
        let children ← loadIndex env (fun _ name c => do
          Op.ofExcept (checkChild name c)
          Op.ofExcept (checkPath (path ++ [name]))
          if c.kind = .dir then loadNode turns (path ++ [name]) c.mode c.id
          else do
            let e ← onStore (getJSON env c.id fileKind Entry.unmarshal)
            onStore (checkEntry env c.id c e)
            onHeap fun h => h.newNode { entry := e } c.id) 64 t.index rootPrefix
        onHeap fun h => h.newNode { entry, children := some children } id

/-- The children that `loadPath` visits: each replaced by what it loads to, when that
is another node. -/
def loadChildren (loadChild : Path → NodePtr → TreeM NodePtr) (base : Path) :
    List NamedNode → Option IndexPtr × Bool → TreeM (Option IndexPtr × Bool)
  | [], children => return children
  | e :: entries, (children, changed) => do
      Op.ofExcept (checkPath (base ++ [e.1]))
      let next ← loadChild (base ++ [e.1]) e.2
      if next ≠ e.2 then
        let children ← onHeap fun h => setChild env h children e.1 (some next)
        loadChildren loadChild base entries (children, true)
      else loadChildren loadChild base entries (children, changed)

/-- `loadPath` with `turns` levels left: the nodes on the path, or the whole tree below
its end, as loaded nodes. -/
def loadPath (recursive : Bool) : Nat → Path → Path → NodePtr → TreeM NodePtr
  | 0, _, _, _ => Op.throw .depthLimit
  | turns + 1, path, base, n => do
      let n ← materializeNode env n
      let node := (← Op.gets Live.heap).node n
      if node.entry.kind ≠ .dir then return n
      match path with
      | [] =>
          if !recursive then return n
          else do
            let h ← Op.gets Live.heap
            let (children, changed) ← loadChildren env (fun q c => loadPath recursive turns [] q c) base
              (eachChild h node.children) (node.children, false)
            if changed then onHeap fun h => h.newNode { entry := node.entry, children } (h.nodeID n)
            else return n
      | name :: rest =>
          let h ← Op.gets Live.heap
          match lookup env h node.children name with
          | none => return n
          | some old => do
              let next ← loadPath recursive turns rest (base ++ [name]) old
              if next = old then return n
              else do
                let children ← onHeap fun h => setChild env h node.children name (some next)
                onHeap fun h => h.newNode { entry := node.entry, children } (h.nodeID n)

end

end Trex.Repo
