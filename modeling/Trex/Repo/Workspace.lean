import Mathlib.Data.List.Infix
import Trex.Repo.TreeIO

/-!
# Workspaces

`workspace.go`, `posix.go`, `pages.go`, `project.go`, `refs.go` and the fork of `query.go`.  `Shared` is
one repository with its workspaces and readers; `World` adds the named roots and what each workspace
was last checked out or published with.  Operations hold their locks, so clients interleave as a
sequence of operations.
-/

namespace Trex.Repo

open Slice Op

/-- `state`: what the views of a workspace share, without `name` and `base`. -/
structure WState where
  root : NodePtr
  loadErr : Option Err := none
  snapshot : ID := []
  source : Bytes := []

/-- The fields `name` and `base` of a `state`. -/
structure Tag where
  name : Bytes := []
  base : ID := []
  deriving DecidableEq, Repr

/-- A handle on a state. -/
structure Workspace where
  state : Nat
  readonly : Bool := false
  deriving DecidableEq, Repr

structure Reader where
  entry : Entry
  closed : Bool := false

/-- What the workspaces share: file, nodes, states and readers. -/
structure Shared where
  live : Live
  states : List WState
  readers : List Reader

/-- The repository with its names. -/
structure World where
  shared : Shared
  roots : Roots
  tags : Nat → Tag

abbrev WorkM := Op Shared Err
abbrev WorldM := Op World Err

def onTree {α : Type} (m : TreeM α) : WorkM α := m.zoom Shared.live fun l w => { w with live := l }

def onRepo {α : Type} (m : StoreM α) : WorkM α := onTree (onStore m)

def onShared {α : Type} (m : WorkM α) : WorldM α := m.zoom World.shared fun x w => { w with shared := x }

section

variable {α : Type} {E : Err → Shared → Prop} {x : Shared} {Q : α → Shared → Prop}

lemma ends_onRepo {m : StoreM α} : (onRepo m).Ends x Q E ↔
    m.Ends x.live.store (fun a s => Q a { x with live := { x.live with store := s } })
      fun e s => E e { x with live := { x.live with store := s } } := by
  unfold onRepo onTree onStore
  exact ends_zoom.trans ends_zoom

lemma ends_onShared {m : WorkM α} {world : World} {Q : α → World → Prop} {E : Err → World → Prop} :
    (onShared m).Ends world Q E ↔ m.Ends world.shared (fun a x => Q a { world with shared := x })
      fun e x => E e { world with shared := x } :=
  ends_zoom

end

def getState (w : Workspace) : WorkM WState := do
  match (← Op.get).states[w.state]? with
  | none => Op.throw .notExist
  | some st => return st

def setState (w : Workspace) (f : WState → WState) : WorkM Unit :=
  Op.modify fun x => { x with states := x.states.modify w.state f }

def newState (st : WState) : WorkM Workspace := fun x =>
  (.ok ⟨x.states.length, false⟩, { x with states := x.states ++ [st] })

def getHeap : WorkM Heap := Op.gets fun x => x.live.heap

def writable (w : Workspace) : WorkM Unit := Op.failIf w.readonly .readOnly

section

variable (env : Env)

/-! ## Opening -/

/-- A workspace with an empty root. -/
def empty : WorkM Workspace := do
  let root ← onTree (onHeap fun h => h.newNode { entry := { kind := .dir, mode := 0o755 } } [])
  newState { root }

/-- The root of a snapshot and the commit it came from. -/
def load (id : ID) : TreeM (NodePtr × Bytes) := do
  let sn ← onStore (getJSON env id snapshotKind Snapshot.unmarshal)
  checkEarlier env sn.tree id .treeOrder
  let root ← (if (← Op.gets fun l => l.store.fast).isSome then
      onHeap fun h => h.newNode { entry := { kind := .dir, mode := 0o755 }, lazy := true } sn.tree
    else loadNode env 257 [] 0o755 sn.tree)
  return (root, sn.sourceCommit)

/-- `Repository.Fork`. -/
def forkID (id : ID) : WorkM Workspace := do
  let (root, source) ← onTree (load env id)
  newState { root, source }

def readonlyView (w : Workspace) : Workspace := { w with readonly := true }

/-- A workspace that cannot be written. -/
def view (w : Workspace) : WorkM Workspace := do
  let st ← getState w
  let w' ← newState { root := st.root, source := st.source, snapshot := st.snapshot, loadErr := st.loadErr }
  return readonlyView w'

/-! ## Paths -/

/-- Loads the nodes on a path; a failure is kept. -/
def prepare (w : Workspace) (path : Path) (recursive : Bool) : WorkM Unit := do
  let st ← getState w
  match st.loadErr with
  | some e => Op.throw e
  | none => do
      onRepo ready
      match ← (onTree (loadPath env recursive 257 path [] st.root)).attempt with
      | .error e => do
          setState w fun st => { st with loadErr := some e }
          Op.throw e
      | .ok root => setState w fun st => { st with root }

def nodeAt (w : Workspace) (path : Path) : WorkM (Option NodePtr) := do
  let st ← getState w
  return findNode env (← getHeap) st.root path

/-- The entry at a path. -/
def entryOf (w : Workspace) (path : Path) : WorkM (Option Entry) := do
  let n ← nodeAt env w path
  let h ← getHeap
  return n.map fun n => (h.node n).entry

/-- Puts a node at a path, or removes what is there. -/
def setNode (w : Workspace) (path : Path) (n : Option NodePtr) : WorkM Unit := do
  let st ← getState w
  match ← onTree (onHeap fun h => replaceNode env h st.root path n) with
  | none => return ()
  | some root => setState w fun st => { st with root, snapshot := [] }

/-- Puts a new node at a path. -/
def install (w : Workspace) (path : Path) (n : Node) (id : ID) : WorkM Unit := do
  let n ← onTree (onHeap fun h => h.newNode n id)
  setNode env w path (some n)

/-- The parent of a path is a directory. -/
def checkParent (w : Workspace) (path : Path) : WorkM Unit := do
  match ← entryOf env w path.dropLast with
  | none => Op.throw .parentNotDirectory
  | some e => Op.failIf (e.kind ≠ .dir) .parentNotDirectory

/-! ## Reading -/

def stat (w : Workspace) (p : Bytes) : WorkM Entry := do
  let path ← Op.ofExcept (clean p)
  prepare env w path false
  match ← entryOf env w path with
  | none => Op.throw .notExist
  | some e => return e

def listDir (w : Workspace) (p : Bytes) : WorkM (List Name) := do
  let path ← Op.ofExcept (clean p)
  prepare env w path false
  let h ← getHeap
  match ← nodeAt env w path with
  | none => Op.throw .notDirectory
  | some n => do
      Op.failIf ((h.node n).entry.kind ≠ .dir) .notDirectory
      return (eachChild h (h.node n).children).map Prod.fst

/-- `PathsWithError`: all paths but the root, sorted. -/
def paths (w : Workspace) : WorkM (List Bytes) := do
  prepare env w [] true
  let st ← getState w
  let h ← getHeap
  return ((walkNodes h 257 st.root []).map fun e => joinPath e.1).mergeSort fun a b => decide (a ≤ b)

def readEntry (e : Entry) : StoreM Bytes := do
  if e.body ≠ [] then get env e.body bodyKind
  else do
    let parts ← e.blocks.mapM fun id => get env id blockKind
    Op.failIf (parts.flatten.length ≠ e.size) .fileSize
    return parts.flatten

/-- The content of a file or link. -/
def read (w : Workspace) (p : Bytes) (kind : Kind) : WorkM Bytes := do
  let path ← Op.ofExcept (clean p)
  prepare env w path false
  match ← entryOf env w path with
  | none => Op.throw .wrongKind
  | some e => do
      Op.failIf (e.kind ≠ kind) .wrongKind
      onRepo (readEntry env e)

def readFile (w : Workspace) (p : Bytes) : WorkM Bytes := read env w p .file

def readlink (w : Workspace) (p : Bytes) : WorkM Bytes := read env w p .symlink

def newReader (entry : Entry) : WorkM Nat := fun x =>
  (.ok x.readers.length, { x with readers := x.readers ++ [{ entry }] })

/-- A reader of a file. -/
def openReader (w : Workspace) (p : Bytes) : WorkM Nat := do
  let path ← Op.ofExcept (clean p)
  prepare env w path false
  match ← entryOf env w path with
  | none => Op.throw .wrongKind
  | some e => do
      Op.failIf (e.kind ≠ .file) .wrongKind
      newReader e

def openGitObject (oid : GitOID) : WorkM Nat := do
  let obj ← onRepo (gitObject env oid)
  let entry : Entry := { kind := .file, mode := 0, size := obj.size, blocks := obj.blocks, body := obj.body }
  newReader entry

def closeReader (r : Nat) : WorkM Unit :=
  Op.modify fun x => { x with readers := x.readers.modify r fun reader => { reader with closed := true } }

/-! ## Writing -/

def bodyInput : Nat := 16 * 2 ^ 20

/-- Stores content in blocks. -/
def appendBlocks (data : Bytes) : StoreM (List ID) :=
  (Chunk.chunks blockSize data).mapM fun block => do
    ready
    append env blockKind block

/-- A content as a body, over the body that the path had. -/
def writeBody (old : Option Entry) (data : Bytes) : StoreM ID := do
  ready
  match old with
  | some old =>
      if old.body ≠ [] then
        let b ← borrowBody env old.body
        putBody env data old.body (editExtents b data)
      else putBody env data [] []
  | none => putBody env data [] []

/-- Stores content and puts it at a path. -/
def write (w : Workspace) (p : Bytes) (input : Bytes) (kind : Kind) (mode : Nat) : WorkM Unit := do
  writable w
  let path ← Op.ofExcept (clean p)
  prepare env w path false
  Op.failIf (path = []) .replaceRoot
  checkParent env w path
  let old ← entryOf env w path
  match old with
  | some old => Op.failIf (old.kind ≠ kind) .overwriteKind
  | none => pure ()
  let e : Entry :=
    { kind
      mode := (old.map Entry.mode).getD mode
      times := (old.map Entry.times).getD .zero
      size := input.length }
  onRepo ready
  if (← Op.gets fun x => x.live.store.optimized) ∧ input.length ≤ bodyInput then
    let id ← onRepo (writeBody env old input)
    install env w path { entry := { e with body := id } } []
  else do
    let blocks ← onRepo (appendBlocks env input)
    onRepo ready
    install env w path { entry := { e with blocks } } []

def writeFile (w : Workspace) (p data : Bytes) : WorkM Unit := write env w p data .file 0o644

def symlink (w : Workspace) (p target : Bytes) : WorkM Unit := write env w p target .symlink 0o777

/-- `bytes.ReplaceAll` for a pattern that is not empty. -/
def replaceAll (old new : Bytes) : Nat → Bytes → Bytes
  | 0, data => data
  | _ + 1, [] => []
  | turns + 1, c :: rest =>
      if old.isPrefixOf (c :: rest) then new ++ replaceAll old new turns ((c :: rest).drop old.length)
      else c :: replaceAll old new turns rest

/-- Replaces every occurrence of a text in a file. -/
def replace (w : Workspace) (p old new : Bytes) : WorkM Unit := do
  writable w
  Op.failIf (old = []) .emptyTarget
  let b ← read env w p .file
  Op.failIf (¬ old <:+: b) .targetNotFound
  write env w p (replaceAll old new b.length b) .file 0o644

def mkdir (w : Workspace) (p : Bytes) : WorkM Unit := do
  writable w
  let path ← Op.ofExcept (clean p)
  prepare env w path false
  Op.failIf (← entryOf env w path).isSome .exists
  checkParent env w path
  install env w path { entry := { kind := .dir, mode := 0o755 } } []

/-- Removes a file, a link or an empty directory. -/
def delete (w : Workspace) (p : Bytes) : WorkM Unit := do
  writable w
  let path ← Op.ofExcept (clean p)
  prepare env w path false
  Op.failIf (path = []) .replaceRoot
  match ← nodeAt env w path with
  | none => Op.throw .notExist
  | some n => do
      Op.failIf ((← getHeap).node n).children.isSome .notEmpty
      setNode env w path none

/-- Every path below a moved node has to be a path at its new place. -/
def checkMoved (moved : NodePtr) (new : Path) : WorkM Unit := do
  let h ← getHeap
  (walkNodes h 257 moved new).forM fun e => Op.ofExcept (checkPath e.1)

def move (w : Workspace) (old new : Path) (moved : NodePtr) : WorkM Unit := do
  setNode env w old none
  setNode env w new (some moved)

/-- Moves, if the destination is free. -/
def rename (w : Workspace) (old new : Bytes) : WorkM Unit := do
  writable w
  let old ← Op.ofExcept (clean old)
  let new ← Op.ofExcept (clean new)
  prepare env w old true
  prepare env w new false
  Op.failIf (old = [] ∨ new = []) .renameRoot
  match ← nodeAt env w old with
  | none => Op.throw .notExist
  | some _ =>
      if old = new then return ()
      else do
        Op.failIf (← entryOf env w new).isSome .exists
        Op.failIf (inside old new) .intoItself
        checkParent env w new
        match ← nodeAt env w old with
        | none => Op.throw .notExist
        | some moved => do
            checkMoved moved new
            move env w old new moved

/-- The type checks of a move over an existing node. -/
def checkReplaced (h : Heap) (src : NodePtr) : Option NodePtr → Except Err Unit
  | none => .ok ()
  | some dst =>
      if (h.node src).entry.kind = .dir ∧ (h.node dst).entry.kind ≠ .dir then .error .notDirectory
      else if (h.node src).entry.kind ≠ .dir ∧ (h.node dst).entry.kind = .dir then .error .isDirectory
      else if (h.node dst).entry.kind = .dir ∧ h.count (h.node dst).children ≠ 0 then .error .notEmpty
      else .ok ()

/-- Moves, also over what is at the destination unless `noReplace` is set. -/
def renameReplace (w : Workspace) (old new : Bytes) (noReplace : Bool) : WorkM Unit := do
  writable w
  let old ← Op.ofExcept (clean old)
  let new ← Op.ofExcept (clean new)
  Op.failIf (old = [] ∨ new = []) .renameRoot
  prepare env w old true
  prepare env w new false
  match ← nodeAt env w old with
  | none => Op.throw .notExist
  | some src => do
      let dst ← nodeAt env w new
      Op.failIf (dst.isSome ∧ noReplace) .exists
      if old = new then return ()
      else do
        Op.failIf (inside old new) .intoItself
        checkParent env w new
        Op.ofExcept (checkReplaced (← getHeap) src dst)
        checkMoved src new
        move env w old new src

def chmod (w : Workspace) (p : Bytes) (mode : Nat) : WorkM Unit := do
  writable w
  Op.failIf (mode > 0o777) .modeRange
  let path ← Op.ofExcept (clean p)
  prepare env w path false
  Op.failIf (path = []) .rootMode
  match ← nodeAt env w path with
  | none => Op.throw .notExist
  | some n => do
      let h ← getHeap
      let e := (h.node n).entry
      Op.failIf (e.kind = .symlink ∨ e.kind = .gitlink) .chmodDenied
      if e.mode = mode then return ()
      else
        -- the encoding of a directory leaves out its mode, which its parent holds
        install env w path { entry := { e with mode }, children := (h.node n).children }
          (if e.kind = .dir then h.nodeID n else [])

def setTimes (w : Workspace) (p : Bytes) (times : Times) : WorkM Unit := do
  writable w
  let path ← Op.ofExcept (clean p)
  prepare env w path false
  match ← nodeAt env w path with
  | none => Op.throw .notExist
  | some n => do
      let h ← getHeap
      install env w path
        { entry := { (h.node n).entry with times }, children := (h.node n).children } []

/-! ## Pages and readers -/

def getReader (r : Nat) : WorkM Reader := do
  match (← Op.get).readers[r]? with
  | none => Op.throw .readerClosed
  | some reader => return reader

/-- The content of page `i` that is not taken from the base as it is. -/
def pageContent (base : Entry) (body : Option Bytes) (baseLimit : Nat) (page : Option Bytes)
    (i count : Nat) : StoreM Bytes := do
  let off := i * blockSize
  match page with
  | some page => return page.take count
  | none =>
      if off < baseLimit then do
        let n := min count (baseLimit - off)
        match body with
        | some body => do
            Op.failIf (off + n > body.length) .unexpectedEOF
            return slice body off n ++ List.replicate (count - n) 0
        | none => do
            let b ← get env (base.blocks.getD i []) blockKind
            Op.failIf (b.length < n) .unexpectedEOF
            return b.take n ++ List.replicate (count - n) 0
      else return List.replicate count 0

/-- One block of the new file: the block of the base when nothing of it changes. -/
def pageBlock (base : Entry) (body : Option Bytes) (size baseLimit : Nat) (pages : SortedMap Nat Bytes)
    (i : Nat) : StoreM ID := do
  let off := i * blockSize
  let count := min blockSize (size - off)
  let page := pages.find i
  if page.isNone ∧ base.body = [] ∧ off + count ≤ baseLimit ∧ off + count ≤ base.size ∧
      (count = blockSize ∨ off + count = base.size) then return base.blocks.getD i []
  else do
    let data ← pageContent env base body baseLimit page i count
    append env blockKind data

/-- Writes changed pages over the content of a reader. -/
def writePages (w : Workspace) (p : Bytes) (reader size baseLimit : Nat) (pages : SortedMap Nat Bytes) :
    WorkM Unit := do
  writable w
  let base ← getReader reader
  Op.failIf (size > 2 ^ 30 ∨ baseLimit > base.entry.size) .pageBase
  Op.failIf (pages.entries.any fun e =>
    decide (e.1 ≥ (size + blockSize - 1) / blockSize) || decide (e.2.length ≠ blockSize)) .overlayPage
  let path ← Op.ofExcept (clean p)
  prepare env w path false
  match ← entryOf env w path with
  | none => Op.throw .wrongKind
  | some old => do
      Op.failIf (old.kind ≠ .file) .wrongKind
      Op.failIf base.closed .readerClosed
      onRepo ready
      let body ← (if base.entry.body ≠ [] ∧ baseLimit > 0 then do
          return some (← onRepo (borrowBody env base.entry.body))
        else return none)
      let blocks ← onRepo ((List.range ((size + blockSize - 1) / blockSize)).mapM
        (pageBlock env base.entry body size baseLimit pages))
      install env w path { entry := { kind := .file, mode := old.mode, times := old.times, size, blocks } } []

/-- What `WriteReader` copies from: a version of a file of this repository, or the
content of another reader. -/
inductive Source where
  | reader (r : Nat)
  | content (data : Bytes)

/-- Writes content or what a reader has. -/
def writeReader (w : Workspace) (p : Bytes) : Source → WorkM Unit
  | .content data => writeFile env w p data
  | .reader r => do
      let base ← getReader r
      writable w
      let path ← Op.ofExcept (clean p)
      Op.failIf (path = []) .replaceRoot
      prepare env w path false
      checkParent env w path
      Op.failIf base.closed .readerClosed
      let old ← entryOf env w path
      match old with
      | some old => Op.failIf (old.kind ≠ .file) .wrongKind
      | none => pure ()
      onRepo ready
      let entry := { base.entry with
        kind := .file
        mode := (old.map Entry.mode).getD 0o644
        times := (old.map Entry.times).getD .zero }
      install env w path { entry } []

/-! ## Git entries -/

/-- Puts a Git entry at a path. -/
def installGitEntry (w : Workspace) (p : Bytes) (e : Entry) : WorkM Unit := do
  writable w
  let path ← Op.ofExcept (clean p)
  prepare env w path false
  Op.failIf (← entryOf env w path).isSome .exists
  checkParent env w path
  install env w path { entry := e } []

def linkGitBlob (w : Workspace) (p : Bytes) (oid : GitOID) (mode : Nat) : WorkM Unit := do
  let obj ← onRepo (gitObject env oid)
  Op.failIf (obj.kind ≠ gitBlob) .gitTree
  let entry (kind : Kind) (mode : Nat) : Entry :=
    { kind, mode, size := obj.size, blocks := obj.blocks, body := obj.body }
  if mode = 0o100644 then installGitEntry env w p (entry .file 0o644)
  else if mode = 0o100755 then installGitEntry env w p (entry .file 0o755)
  else if mode = 0o120000 then installGitEntry env w p (entry .symlink 0o777)
  else Op.throw .gitTree

/-- `Workspace.Gitlink`. -/
def linkGit (w : Workspace) (p : Bytes) (oid : GitOID) : WorkM Unit := do
  Op.failIf (!gitValid oid) .gitOID
  installGitEntry env w p { kind := .gitlink, mode := 0, gitOID := gitText oid }

/-- The last step of `CheckoutGit`: a placeholder for a Git tree. -/
def checkoutTree (oid : GitOID) (source : Bytes) : WorkM Workspace := do
  let root ← onTree (onHeap fun h =>
    h.newNode { entry := { kind := .dir, mode := 0o755 }, lazy := true, gitObject := oid } [])
  newState { root, source }

/-! ## Snapshots and names -/

/-- Stores the tree of a workspace. -/
def save (w : Workspace) : WorkM ID := do
  let st ← getState w
  match st.loadErr with
  | some e => Op.throw e
  | none =>
      if st.snapshot ≠ [] then return st.snapshot
      else do
        let root ← onTree (saveNode env st.root)
        onRepo (append env snapshotKind (Snapshot.marshal ⟨root, st.source⟩))

/-- `snapshotLocked`; the roots go into the manifest of an index. -/
def snapshotLocked (roots : Roots) (w : Workspace) : WorkM ID := do
  onRepo ready
  let st ← getState w
  if st.snapshot ≠ [] then return st.snapshot
  else do
    let id ← save env w
    onRepo (sync env roots)
    setState w fun st => { st with snapshot := id }
    return id

def snapshot (roots : Roots) (w : Workspace) : WorkM ID := do
  writable w
  snapshotLocked env roots w

/-- A workspace that starts from a snapshot of another. -/
def fork (roots : Roots) (w : Workspace) : WorkM Workspace := do
  writable w
  let id ← snapshotLocked env roots w
  let st ← getState w
  newState { root := st.root, source := st.source, snapshot := id }

/-! ## Names -/

/-- The root that a name has, the empty identity without one. -/
def Roots.root (roots : Roots) (name : Bytes) : ID := (roots.refs.find name).getD []

def setTag (w : Workspace) (tag : Tag) : WorldM Unit :=
  Op.modify fun world => { world with tags := fun i => if i = w.state then tag else world.tags i }

/-- A workspace on a name. -/
def checkout (name : Bytes) : WorldM Workspace := do
  onShared (onRepo ready)
  match (← Op.gets World.roots).refs.find name with
  | none => Op.throw .unknownWorkspace
  | some id => do
      let w ← onShared (forkID env id)
      setTag w ⟨name, id⟩
      return w

/-- A catalog record, made durable, and then the roots it names. -/
def commitRefs (refs : Refs) : WorldM Unit := do
  let roots ← Op.gets World.roots
  onShared do
    let _ ← onRepo (append env refsKind (marshalCatalog refs))
    onRepo (sync env roots)
  Op.modify fun world => { world with roots := { world.roots with refs } }

/-- Whether a workspace with this tag may not publish a name that has the given root. -/
def conflicts (tag : Tag) (name : Bytes) (current : ID) : Prop :=
  if name = tag.name then current ≠ tag.base else current ≠ []

instance (tag : Tag) (name : Bytes) (current : ID) : Decidable (conflicts tag name current) :=
  inferInstanceAs (Decidable (if name = tag.name then current ≠ tag.base else current ≠ []))

/-- Gives a name the snapshot, if the workspace has seen the present root. -/
def publish (w : Workspace) (name : Bytes) : WorldM ID := do
  onShared (writable w)
  Op.failIf (!validName name) .invalidName
  onShared (onRepo ready)
  let roots ← Op.gets World.roots
  let tags ← Op.gets World.tags
  Op.failIf (conflicts (tags w.state) name (roots.root name)) .conflict
  let id ← onShared (snapshotLocked env roots w)
  commitRefs env (roots.refs.insert name id)
  setTag w ⟨name, id⟩
  return id

/-- Removes a name with the expected root. -/
def drop (name : Bytes) (expected : ID) : WorldM Unit := do
  onShared (onRepo ready)
  let refs := (← Op.gets World.roots).refs
  match refs.find name with
  | none => Op.throw .unknownWorkspace
  | some current => do
      Op.failIf (current ≠ expected) .conflict
      commitRefs env (refs.erase name)

/-- Publishes a catalogue of Git references. -/
def publishGit (c : GitCatalog) : WorldM Unit := do
  let roots ← Op.gets World.roots
  let id ← onShared do
    onRepo ready
    Op.failIf (roots.gitCatalogs.find c.name).isSome .conflict
    onRepo (validateGitCatalog env c)
    onRepo (sync env roots)
    let id ← onRepo (append env gitCatalogKind c.marshal)
    onRepo (sync env roots)
    return id
  Op.modify fun world =>
    { world with roots := { world.roots with gitCatalogs := world.roots.gitCatalogs.insert c.name id } }

end

end Trex.Repo
