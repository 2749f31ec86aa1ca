import Trex.Sqlite.Record

/-!
# Building an SQLite database

`Build` of `database/sqlite/build.go`: overflow chains, b-tree pages, table and index trees, the schema
table and the database header.  The builder is the list of its pages; page numbers start at 1.
-/

namespace Trex.Sqlite

open Slice

def minimumPageSize : Nat := 512
def maximumPageSize : Nat := 65536
def maximumPages : Nat := 2 ^ 20

def databaseMagic : Bytes := "SQLite format 3\x00".toUTF8.data.toList
def typeTable : Bytes := "table".toUTF8.data.toList
def typeIndex : Bytes := "index".toUTF8.data.toList
def typeView : Bytes := "view".toUTF8.data.toList
def typeTrigger : Bytes := "trigger".toUTF8.data.toList

/-- A row of a table, or of an index without an identity. -/
structure Row where
  rowID : Option Int64
  values : List Value
  deriving DecidableEq, Repr

/-- An object of the schema with its rows. -/
structure Object where
  type : Bytes
  name : Bytes
  tableName : Bytes
  sql : Bytes
  rows : List Row
  deriving DecidableEq, Repr

structure BuildOptions where
  pageSize : Nat
  encoding : Nat
  userVersion : UInt32
  applicationID : UInt32
  deriving DecidableEq, Repr

/-- An object with its root page. -/
structure BuildObject where
  definition : Object
  root : Nat

/-- A page of a level and the last key in it. -/
structure BuildPage where
  number : Nat
  last : Int64

abbrev Page := Bytes
abbrev Pages := List Page

/-- A new page at the end. -/
def allocate (pageSize : Nat) (pages : Pages) : Nat × Pages :=
  (pages.length + 1, pages ++ [List.replicate pageSize 0])

def modifyPage (number : Nat) (f : Page → Page) (pages : Pages) : Pages :=
  pages.modify (number - 1) f

/-! ## Cells -/

/-- How many bytes of a payload stay in the cell, as `payloadCell` computes it. -/
def payloadLocal (usable size : Nat) (tableLeaf : Bool) : Nat :=
  let maximumLocal := if tableLeaf then usable - 35 else (usable - 12) * 64 / 255 - 23
  if size > maximumLocal then
    let minimumLocal := (usable - 12) * 32 / 255 - 23
    let spill := minimumLocal + (size - minimumLocal) % (usable - 4)
    if spill > maximumLocal then minimumLocal else spill
  else size

/-- The overflow chain; each page starts with the number of the next. Returns the first page. -/
def overflowLoop (usable : Nat) : Nat → Nat → Nat → Bytes → Pages → Nat × Pages
  | 0, first, _, _, pages => (first, pages)
  | turns + 1, first, previous, remaining, pages =>
      if remaining = [] then (first, pages)
      else
        let number := (allocate usable pages).1
        let pages := (allocate usable pages).2
        let first := if first = 0 then number else first
        let pages :=
          if previous ≠ 0 then
            modifyPage previous (fun page => overwrite page 0 (BigEndian.put 4 number)) pages
          else pages
        let pages := modifyPage number (fun page => overwrite page 4 (remaining.take (usable - 4))) pages
        overflowLoop usable turns first number (remaining.drop (usable - 4)) pages

/-- The start of a payload, and the rest on overflow pages. -/
def payloadCell (usable : Nat) (start payload : Bytes) (tableLeaf : Bool) (pages : Pages) :
    Bytes × Pages :=
  let size := payloadLocal usable payload.length tableLeaf
  let cell := start ++ payload.take size
  if size = payload.length then (cell, pages)
  else
    let remaining := payload.drop size
    let chain := overflowLoop usable remaining.length 0 0 remaining pages
    (cell ++ BigEndian.put 4 chain.1, chain.2)

/-- A cell of a table leaf. -/
def tableLeafCell (options : BuildOptions) (row : Row) (pages : Pages) :
    Except SqliteError (Bytes × Pages) :=
  match encodeRecord row.values options.encoding, row.rowID with
  | .error err, _ => .error err
  | .ok _, none => .error .panic
  | .ok payload, some rowID =>
      .ok (payloadCell options.pageSize
        (encodeVarint payload.length ++ encodeVarint rowID.toUInt64.toNat) payload true pages)

/-- A cell of an index page. -/
def indexCell (options : BuildOptions) (row : Row) (pages : Pages) :
    Except SqliteError (Bytes × Pages) :=
  match encodeRecord row.values options.encoding with
  | .error err => .error err
  | .ok payload => .ok (payloadCell options.pageSize (encodeVarint payload.length) payload false pages)

def indexCellSize (options : BuildOptions) (row : Row) : Except SqliteError Nat :=
  match encodeRecord row.values options.encoding with
  | .error err => .error err
  | .ok payload =>
      let usable := options.pageSize
      let maximumLocal := (usable - 12) * 64 / 255 - 23
      let size :=
        if payload.length > maximumLocal then
          let minimumLocal := (usable - 12) * 32 / 255 - 23
          let spill := minimumLocal + (payload.length - minimumLocal) % (usable - 4)
          if spill > maximumLocal then minimumLocal else spill
        else payload.length
      let overflow := if size ≠ payload.length then 4 else 0
      .ok ((encodeVarint payload.length).length + size + overflow)

/-! ## B-tree pages -/

/-- Interior pages have a longer header with a pointer to their last child. -/
def isInterior (pageType : UInt8) : Bool := pageType == 0x02 || pageType == 0x05

/-- The cells are laid out from the end of the page, their offsets from the start. -/
def writeCells (number pointers total : Nat) :
    List Bytes → Nat → Nat → Page → Except SqliteError (Page × Nat)
  | [], _, content, page => .ok (page, content)
  | cell :: cells, index, content, page =>
      if content < cell.length + (pointers + total * 2) then .error (.cellsExceedPage number)
      else
        let content := content - cell.length
        let page := overwrite page content cell
        let page := overwrite page (pointers + index * 2) (BigEndian.put 2 content)
        writeCells number pointers total cells (index + 1) content page

/-- A page with its header and cells. -/
def btreePage (number headerOffset : Nat) (pageType : UInt8) (right : Nat) (cells : List Bytes)
    (page : Page) : Except SqliteError Page :=
  let page := page.take headerOffset ++ List.replicate (page.length - headerOffset) 0
  let headerSize := if isInterior pageType then 12 else 8
  let page :=
    if isInterior pageType then overwrite page (headerOffset + 8) (BigEndian.put 4 right) else page
  match writeCells number (headerOffset + headerSize) cells.length cells 0 page.length page with
  | .error err => .error err
  | .ok (page, content) =>
      let page := overwrite page headerOffset [pageType]
      let page := overwrite page (headerOffset + 3) (BigEndian.put 2 cells.length)
      let contentOffset :=
        if page.length = maximumPageSize ∧ content = maximumPageSize then 0 else content
      .ok (overwrite page (headerOffset + 5) (BigEndian.put 2 contentOffset))

def writeBtreePage (number headerOffset : Nat) (pageType : UInt8) (right : Nat)
    (cells : List Bytes) (pages : Pages) : Except SqliteError Pages :=
  match pages[number - 1]? with
  | none => .error .panic
  | some page =>
    match btreePage number headerOffset pageType right cells page with
    | .error err => .error err
    | .ok page => .ok (pages.set (number - 1) page)

/-! ## Table trees -/

/-- The identities of the rows ascend. -/
def checkRowids : Nat → Int64 → List Row → Except SqliteError Unit
  | _, _, [] => .ok ()
  | index, previous, row :: rows =>
      match row.rowID with
      | none => .error (.noRowid index)
      | some rowID =>
          if index ≠ 0 ∧ rowID ≤ previous then .error (.rowidsNotIncreasing index)
          else checkRowids (index + 1) rowID rows

/-- An interior page over its children. -/
def writeTableInterior (number headerOffset : Nat) (children : List BuildPage) (pages : Pages) :
    Except SqliteError Pages :=
  match children.getLast? with
  | none => .error .interiorNeedsTwoChildren
  | some last =>
    if children.length < 2 then .error .interiorNeedsTwoChildren
    else
      let cells := children.dropLast.map fun child =>
        BigEndian.put 4 child.number ++ encodeVarint child.last.toUInt64.toNat
      writeBtreePage number headerOffset 0x05 last.number cells pages

/-- The leaves of a table, one for each row. -/
def buildLeaves (options : BuildOptions) :
    List Row → Pages → Except SqliteError (List BuildPage × Pages)
  | [], pages => .ok ([], pages)
  | row :: rows, pages =>
      let number := (allocate options.pageSize pages).1
      match tableLeafCell options row (allocate options.pageSize pages).2 with
      | .error err => .error err
      | .ok (cell, pages) =>
        match writeBtreePage number 0 0x0d 0 [cell] pages with
        | .error err => .error err
        | .ok pages =>
          match buildLeaves options rows pages with
          | .error err => .error err
          | .ok (level, pages) => .ok (⟨number, row.rowID.getD 0⟩ :: level, pages)

/-- How many of the remaining pages the next interior page takes: the last one is not left with one or
two. -/
def groupCount (remaining : Nat) : Nat :=
  if remaining = 21 then 18 else if remaining = 22 then 19 else min 20 remaining

/-- One pass of the loop over the levels: interior pages above a whole level. -/
def buildLevel (options : BuildOptions) :
    Nat → List BuildPage → Pages → Except SqliteError (List BuildPage × Pages)
  | 0, _, pages => .ok ([], pages)
  | turns + 1, level, pages =>
      if level = [] then .ok ([], pages)
      else
        let children := level.take (groupCount level.length)
        let number := (allocate options.pageSize pages).1
        match writeTableInterior number 0 children (allocate options.pageSize pages).2 with
        | .error err => .error err
        | .ok pages =>
          match buildLevel options turns (level.drop (groupCount level.length)) pages with
          | .error err => .error err
          | .ok (next, pages) => .ok (⟨number, (children.getLast?.map (·.last)).getD 0⟩ :: next, pages)

/-- The levels above, until at most twenty pages are left. -/
def buildLevels (options : BuildOptions) :
    Nat → List BuildPage → Pages → Except SqliteError (List BuildPage × Pages)
  | 0, level, pages => .ok (level, pages)
  | turns + 1, level, pages =>
      if level.length > 20 then
        match buildLevel options level.length level pages with
        | .error err => .error err
        | .ok (next, pages) => buildLevels options turns next pages
      else .ok (level, pages)

/-- A table at a root page. -/
def buildTable (options : BuildOptions) (root : Nat) (rows : List Row) (schema : Bool)
    (pages : Pages) : Except SqliteError Pages :=
  match checkRowids 0 (.ofInt (-2 ^ 63)) rows with
  | .error err => .error err
  | .ok () =>
    let headerOffset := if schema then 100 else 0
    match rows with
    | [] => writeBtreePage root headerOffset 0x0d 0 [] pages
    | [row] =>
        match tableLeafCell options row pages with
        | .error err => .error err
        | .ok (cell, pages) => writeBtreePage root headerOffset 0x0d 0 [cell] pages
    | rows =>
        match buildLeaves options rows pages with
        | .error err => .error err
        | .ok (level, pages) =>
          match buildLevels options level.length level pages with
          | .error err => .error err
          | .ok (level, pages) => writeTableInterior root headerOffset level pages

/-! ## Index trees -/

/-- The size of the largest cell; rows of an index have no identity. -/
def maximumCell (options : BuildOptions) : Nat → Nat → List Row → Except SqliteError Nat
  | _, maximum, [] => .ok maximum
  | index, maximum, row :: rows =>
      if row.rowID ≠ none then .error (.unexpectedRowid index)
      else
        match indexCellSize options row with
        | .error err => .error err
        | .ok size => maximumCell options (index + 1) (max maximum size) rows

def maxInt : Nat := 2 ^ 63 - 1

/-- The height at which a tree has room for all rows. -/
def indexHeight (capacity rows : Nat) : Nat → Nat → Nat → Nat
  | 0, height, _ => height
  | turns + 1, height, available =>
      if available < rows then
        indexHeight capacity rows turns (height + 1)
          (if available > (maxInt - capacity) / (capacity + 1) then maxInt
          else (available + 1) * (capacity + 1) - 1)
      else height

/-- The rows a subtree of the given height has room for. -/
def maximumChild (capacity : Nat) : Nat → Nat
  | 0 => capacity
  | height + 1 => (maximumChild capacity height + 1) * (capacity + 1) - 1

/-- The cells of an index page. -/
def indexCells (options : BuildOptions) :
    List Row → Pages → Except SqliteError (List Bytes × Pages)
  | [], pages => .ok ([], pages)
  | row :: rows, pages =>
      match indexCell options row pages with
      | .error err => .error err
      | .ok (cell, pages) =>
        match indexCells options rows pages with
        | .error err => .error err
        | .ok (cells, pages) => .ok (cell :: cells, pages)

/-- The loop over the children of an interior index page, `left` of them still to build, with a row
between any two. -/
def indexChildren (options : BuildOptions) (node : Nat → List Row → Pages → Except SqliteError Pages) :
    Nat → List Row → Nat → Pages → Except SqliteError (List Bytes × Nat × Pages)
  | 0, _, _, pages => .ok ([], 0, pages)
  | left + 1, rows, remaining, pages =>
      let count := remaining / (left + 1)
      let child := (allocate options.pageSize pages).1
      match node child (rows.take count) (allocate options.pageSize pages).2 with
      | .error err => .error err
      | .ok pages =>
        if left = 0 then .ok ([], child, pages)
        else
          match rows.drop count with
          | [] => .error .panic
          | row :: rest =>
            match indexCell options row pages with
            | .error err => .error err
            | .ok (payload, pages) =>
              match indexChildren options node left rest (remaining - count) pages with
              | .error err => .error err
              | .ok (cells, last, pages) => .ok ((BigEndian.put 4 child ++ payload) :: cells, last, pages)

/-- A subtree of an index. -/
def buildIndexNode (options : BuildOptions) (capacity : Nat) :
    Nat → Bool → Nat → List Row → Pages → Except SqliteError Pages
  | 0, _, number, rows, pages =>
      match indexCells options rows pages with
      | .error err => .error err
      | .ok (cells, pages) => writeBtreePage number 0 0x0a 0 cells pages
  | height + 1, root, number, rows, pages =>
      let room := maximumChild capacity height
      let children := max 2 ((rows.length + 1 + room) / (room + 1))
      let children := if root then children else max 3 children
      match indexChildren options (buildIndexNode options capacity height false) children rows
          (rows.length + 1 - children) pages with
      | .error err => .error err
      | .ok (cells, child, pages) => writeBtreePage number 0 0x02 child cells pages

/-- An index at a root page. -/
def buildIndex (options : BuildOptions) (root : Nat) (rows : List Row) (pages : Pages) :
    Except SqliteError Pages :=
  match maximumCell options 0 0 rows with
  | .error err => .error err
  | .ok maximum =>
    let capacity := (options.pageSize - 12) / (maximum + 6)
    if capacity < 2 then .error .recordsTooLarge
    else
      let height := indexHeight capacity rows.length rows.length 0 capacity
      buildIndexNode options capacity height true root rows pages

/-! ## The database -/

/-- The checks of the objects, and their root pages. -/
def prepare (options : BuildOptions) :
    Nat → List Bytes → List Object → Pages → Except SqliteError (List BuildObject × Pages)
  | _, _, [], pages => .ok ([], pages)
  | index, seen, object :: objects, pages =>
      if object.name = [] ∨ object.type = [] then .error (.emptyTypeOrName index)
      else if object.name ∈ seen then .error (.duplicateObject object.name)
      else
        let definition :=
          if object.tableName = [] then { object with tableName := object.name } else object
        if object.type = typeTable ∨ object.type = typeIndex then
          match prepare options (index + 1) (object.name :: seen) objects
              (allocate options.pageSize pages).2 with
          | .error err => .error err
          | .ok (prepared, pages') => .ok (⟨definition, (allocate options.pageSize pages).1⟩ :: prepared, pages')
        else if object.type = typeView ∨ object.type = typeTrigger then
          if object.rows ≠ [] then .error (.rowsOfObject object.type object.name)
          else
            match prepare options (index + 1) (object.name :: seen) objects pages with
            | .error err => .error err
            | .ok (prepared, pages') => .ok (⟨definition, 0⟩ :: prepared, pages')
        else .error (.unsupportedObjectType object.type)

/-- Builds the tree of each object. -/
def buildObjects (options : BuildOptions) :
    List BuildObject → Pages → Except SqliteError Pages
  | [], pages => .ok pages
  | object :: objects, pages =>
      let built :=
        if object.definition.type = typeTable then
          buildTable options object.root object.definition.rows false pages
        else if object.definition.type = typeIndex then
          buildIndex options object.root object.definition.rows pages
        else .ok pages
      match built with
      | .error err => .error (.build object.definition.type object.definition.name err)
      | .ok pages => buildObjects options objects pages

/-- The row of an object in the schema table. -/
def schemaRow (index : Nat) (object : BuildObject) : Row where
  rowID := some (.ofNat (index + 1))
  values := [.text object.definition.type, .text object.definition.name,
    .text object.definition.tableName, .int64 (.ofNat object.root), .text object.definition.sql]

/-- The header of the file. -/
def writeHeader (options : BuildOptions) (count : Nat) (header : Page) : Page :=
  let header := overwrite header 0 databaseMagic
  let pageSize := if options.pageSize = maximumPageSize then 1 else options.pageSize
  let header := overwrite header 16 (BigEndian.put 2 pageSize)
  let header := overwrite header 18 [1, 1, 0, 64, 32, 32]
  let header := overwrite header 24 (BigEndian.put 4 1)
  let header := overwrite header 28 (BigEndian.put 4 count)
  let header := overwrite header 40 (BigEndian.put 4 1)
  let header := overwrite header 44 (BigEndian.put 4 4)
  let header := overwrite header 56 (BigEndian.put 4 options.encoding)
  let header := overwrite header 60 (BigEndian.put 4 options.userVersion.toNat)
  let header := overwrite header 68 (BigEndian.put 4 options.applicationID.toNat)
  let header := overwrite header 92 (BigEndian.put 4 1)
  overwrite header 96 (BigEndian.put 4 3046000)

/-- `Build`, once the defaults are there. -/
def buildWith (options : BuildOptions) (objects : List Object) : Except SqliteError Bytes :=
  if options.pageSize < minimumPageSize ∨ options.pageSize > maximumPageSize ∨
      options.pageSize &&& (options.pageSize - 1) ≠ 0 then
    .error (.invalidWriterPageSize options.pageSize)
  else if options.encoding < 1 ∨ options.encoding > 3 then
    .error (.invalidWriterEncoding options.encoding)
  else
    match prepare options 0 [] objects (allocate options.pageSize []).2 with
    | .error err => .error err
    | .ok (prepared, pages) =>
      match buildObjects options prepared pages with
      | .error err => .error err
      | .ok pages =>
        match buildTable options 1 (prepared.mapIdx schemaRow) true pages with
        | .error err => .error (.buildSchema err)
        | .ok pages =>
          if pages.length > maximumPages then .error (.pageCountExceedsLimit pages.length)
          else .ok (modifyPage 1 (writeHeader options pages.length) pages).flatten

/-- `Build`. -/
def build (objects : List Object) (options : BuildOptions) : Except SqliteError Bytes :=
  buildWith
    { options with
      pageSize := if options.pageSize = 0 then 4096 else options.pageSize
      encoding := if options.encoding = 0 then 1 else options.encoding } objects

end Trex.Sqlite
