import Mathlib.Data.List.AList
import Trex.Sqlite.Build

/-!
# Reading an SQLite database

`Open`, `Schema` and `Rows` of `database/sqlite/sqlite.go`, with a write-ahead log over the file.  `turns`
is `maximumDepth + 1 - depth`.
-/

namespace Trex.Sqlite

open Slice

def maximumDepth : Nat := 128

/-- What the header and the log say about the database. -/
structure Info where
  pageSize : Nat
  pageCount : Nat
  encoding : Nat
  userVersion : Nat
  applicationID : Nat
  walFrames : Nat
  deriving DecidableEq, Repr

/-- An entry of the schema. -/
structure SchemaEntry where
  type : Bytes
  name : Bytes
  tableName : Bytes
  rootPage : Nat
  sql : Bytes
  deriving DecidableEq, Repr

/-- An open database. -/
structure Database where
  source : Bytes
  info : Info
  reserved : Nat
  usable : Nat
  /-- pages of the last committed transaction of the write-ahead log -/
  pages : AList fun _ : Nat => Page
  schema : List SchemaEntry

def readFullAt (source : Bytes) (offset n : Nat) : Except SqliteError Bytes :=
  if offset + n ≤ source.length then .ok (slice source offset n) else .error .shortRead

def getUint16 (data : Bytes) (offset : Nat) : Nat := BigEndian.get (slice data offset 2)

def getUint32 (data : Bytes) (offset : Nat) : Nat := BigEndian.get (slice data offset 4)

/-! ## Pages and payloads -/

namespace Database

/-- A page, from the log or from the file. -/
def page (d : Database) (number : Nat) : Except SqliteError Page :=
  if number = 0 ∨ number > d.info.pageCount then .error (.pageOutside number)
  else
    match d.pages.lookup number with
    | some page => .ok page
    | none => readFullAt d.source ((number - 1) * d.info.pageSize) d.info.pageSize

def cellOffset (d : Database) (page : Page) (pointers index number : Nat) :
    Except SqliteError Nat :=
  let offset := getUint16 page (pointers + index * 2)
  if offset ≥ d.usable then .error (.cellOffset number index offset) else .ok offset

/-- How many bytes of a payload are in the cell, as `cellPayload` computes it. -/
def cellLocal (d : Database) (payloadBytes : Nat) (tableLeaf : Bool) : Nat :=
  let maxLocal := if tableLeaf then d.usable - 35 else (d.usable - 12) * 64 / 255 - 23
  if payloadBytes > maxLocal then
    let minimum := (d.usable - 12) * 32 / 255 - 23
    let spill := minimum + (payloadBytes - minimum) % (d.usable - 4)
    if spill > maxLocal then minimum else spill
  else payloadBytes

/-- The loop over the overflow chain; each page adds a byte at least. -/
def overflowPayload (d : Database) (payloadBytes : Nat) :
    Nat → Nat → List Nat → Bytes → Except SqliteError Bytes
  | 0, _, _, output => .ok output
  | turns + 1, next, seen, output =>
      if output.length < payloadBytes then
        if next = 0 ∨ next ∈ seen then .error (.overflowChain next)
        else
          match d.page next with
          | .error err => .error err
          | .ok overflow =>
              let count := min (payloadBytes - output.length) (d.usable - 4)
              overflowPayload d payloadBytes turns (getUint32 overflow 0) (next :: seen)
                (output ++ slice overflow 4 count)
      else .ok output

/-- The payload of a cell with its overflow pages. -/
def cellPayload (d : Database) (page : Page) (position payloadSize : Nat) (tableLeaf : Bool) :
    Except SqliteError Bytes :=
  if payloadSize > 2 ^ 30 then .error (.payloadLimit payloadSize)
  else
    let size := d.cellLocal payloadSize tableLeaf
    if position + size > d.usable then .error .localPayload
    else
      let output := slice page position size
      if size = payloadSize then .ok output
      else if position + size + 4 > d.usable then .error .overflowPointer
      else d.overflowPayload payloadSize payloadSize (getUint32 page (position + size)) [] output

/-! ## The walk over a b-tree -/

/-- The row of an index cell. -/
def indexRecord (d : Database) (page : Page) (number index position : Nat) :
    Except SqliteError Row :=
  match decodeVarint page position d.usable with
  | .error err => .error (.cell number index (.varint err))
  | .ok (payloadSize, used) =>
    match d.cellPayload page (position + used) payloadSize false with
    | .error err => .error (.cell number index err)
    | .ok payload =>
      match decodeRecord payload d.info.encoding with
      | .error err => .error (.cell number index err)
      | .ok values => .ok ⟨none, values⟩

/-- The row of a table cell. -/
def tableRecord (d : Database) (page : Page) (number index position : Nat) :
    Except SqliteError Row :=
  match decodeVarint page position d.usable with
  | .error err => .error (.cell number index (.varint err))
  | .ok (payloadSize, used) =>
    match decodeVarint page (position + used) d.usable with
    | .error err => .error (.cell number index (.varint err))
    | .ok (value, count) =>
      match d.cellPayload page (position + used + count) payloadSize true with
      | .error err => .error (.cell number index err)
      | .ok payload =>
        match decodeRecord payload d.info.encoding with
        | .error err => .error (.cell number index err)
        | .ok values => .ok ⟨some (UInt64.ofNat value).toInt64, values⟩

/-- The rows so far and the pages visited. -/
structure Walk where
  rows : List Row
  visited : List Nat
  deriving DecidableEq

/-- The cells of a leaf, from `index` on: `count` of them are left. -/
def leafLoop (d : Database) (maximum : Nat) (page : Page) (number pointers : Nat)
    (tableLeaf : Bool) : Nat → Nat → List Row → Except SqliteError (List Row)
  | 0, _, rows => .ok rows
  | count + 1, index, rows =>
      if rows.length < maximum then
        match d.cellOffset page pointers index number with
        | .error err => .error err
        | .ok cell =>
          match
            if tableLeaf then d.tableRecord page number index cell
            else d.indexRecord page number index cell with
          | .error err => .error err
          | .ok row => leafLoop d maximum page number pointers tableLeaf count (index + 1) (rows ++ [row])
      else .ok rows

/-- The children left of the cells of an interior table page. -/
def tableLoop (d : Database) (walk : Nat → Walk → Except SqliteError Walk) (page : Page)
    (number pointers : Nat) : Nat → Nat → Walk → Except SqliteError Walk
  | 0, _, w => .ok w
  | count + 1, index, w =>
      match d.cellOffset page pointers index number with
      | .error err => .error err
      | .ok cell =>
        if cell + 4 > d.usable then .error (.cellTruncated number)
        else
          match walk (getUint32 page cell) w with
          | .error err => .error err
          | .ok w => tableLoop d walk page number pointers count (index + 1) w

/-- The children of an interior index page, each followed by the record of its cell. -/
def indexLoop (d : Database) (maximum : Nat) (walk : Nat → Walk → Except SqliteError Walk)
    (page : Page) (number pointers : Nat) : Nat → Nat → Walk → Except SqliteError Walk
  | 0, _, w => .ok w
  | count + 1, index, w =>
      match d.cellOffset page pointers index number with
      | .error err => .error err
      | .ok cell =>
        if cell + 4 > d.usable then .error (.cellTruncated number)
        else
          match walk (getUint32 page cell) w with
          | .error err => .error err
          | .ok w =>
            if w.rows.length ≥ maximum then .ok w
            else
              match d.indexRecord page number index (cell + 4) with
              | .error err => .error err
              | .ok row =>
                  indexLoop d maximum walk page number pointers count (index + 1)
                    { w with rows := w.rows ++ [row] }

/-- The switch over the type of a page that has been read. -/
def walkPage (d : Database) (maximum : Nat) (walk : Nat → Walk → Except SqliteError Walk)
    (number : Nat) (page : Page) (w : Walk) : Except SqliteError Walk :=
  let headerOffset := if number = 1 then 100 else 0
  if headerOffset + 8 > d.usable then .error (.truncatedHeader number)
  else
    let pageType := page.getD headerOffset 0
    let cellCount := getUint16 page (headerOffset + 3)
    let pointers := headerOffset + if isInterior pageType then 12 else 8
    if pointers + cellCount * 2 > d.usable then .error (.pointersExceedPage number)
    else if pageType = 0x05 then
      match d.tableLoop walk page number pointers cellCount 0 w with
      | .error err => .error err
      | .ok w => walk (getUint32 page (headerOffset + 8)) w
    else if pageType = 0x02 then
      match d.indexLoop maximum walk page number pointers cellCount 0 w with
      | .error err => .error err
      | .ok w =>
        if w.rows.length ≥ maximum then .ok w else walk (getUint32 page (headerOffset + 8)) w
    else if pageType = 0x0d ∨ pageType = 0x0a then
      match d.leafLoop maximum page number pointers (pageType == 0x0d) cellCount 0 w.rows with
      | .error err => .error err
      | .ok rows => .ok { w with rows := rows }
    else .error (.unsupportedPageType number pageType)

/-- Walks a tree; a page is visited once. -/
def walk (d : Database) (maximum : Nat) : Nat → Nat → Walk → Except SqliteError Walk
  | 0, _, w => if w.rows.length ≥ maximum then .ok w else .error .maximumDepth
  | turns + 1, number, w =>
      if w.rows.length ≥ maximum then .ok w
      else if number ∈ w.visited then .error (.repeatedPage number)
      else
        match d.page number with
        | .error err => .error err
        | .ok page =>
            d.walkPage maximum (walk d maximum turns) number page
              { w with visited := number :: w.visited }

/-- The rows of a tree. -/
def btreeRows (d : Database) (root maximum : Nat) : Except SqliteError (List Row) :=
  if maximum = 0 then .ok []
  else (d.walk maximum (maximumDepth + 1) root ⟨[], []⟩).map Walk.rows

end Database

/-! ## The write-ahead log -/

/-- `binary.BigEndian` or `binary.LittleEndian`. -/
def orderedUint32 (bigEndian : Bool) (data : Bytes) (offset : Nat) : Nat :=
  if bigEndian then getUint32 data offset else BigEndian.get (slice data offset 4).reverse

/-- The running checksum over the eight-byte groups of `data`, `groups` of them. -/
def walChecksum (bigEndian : Bool) (data : Bytes) : Nat → Nat → UInt32 × UInt32 → UInt32 × UInt32
  | 0, _, sums => sums
  | groups + 1, offset, (s0, s1) =>
      let s0 := s0 + (.ofNat (orderedUint32 bigEndian data offset) + s1)
      let s1 := s1 + (.ofNat (orderedUint32 bigEndian data (offset + 4)) + s0)
      walChecksum bigEndian data groups (offset + 8) (s0, s1)

structure WalFrame where
  pageNumber : Nat
  data : Page

/-- The loop over the frames: those up to the last commit and its page count, 0 without one. -/
def walLoop (source : Bytes) (pageSize : Nat) (bigEndian : Bool) (salt1 salt2 : Nat) :
    Nat → Nat → UInt32 × UInt32 → List WalFrame → List WalFrame × Nat → Except SqliteError (List WalFrame × Nat)
  | 0, _, _, _, committed => .ok committed
  | left + 1, index, sums, frames, committed =>
      match readFullAt source (32 + index * (24 + pageSize)) (24 + pageSize) with
      | .error err => .error err
      | .ok frame =>
        if getUint32 frame 8 ≠ salt1 ∨ getUint32 frame 12 ≠ salt2 then .ok committed
        else
          let sums := walChecksum bigEndian frame 1 0 sums
          let sums := walChecksum bigEndian (frame.drop 24) (pageSize / 8) 0 sums
          if sums.1.toNat ≠ getUint32 frame 16 ∨ sums.2.toNat ≠ getUint32 frame 20 then .ok committed
          else
            let pageNumber := getUint32 frame 0
            if pageNumber = 0 ∨ pageNumber > maximumPages then .error (.walFrame index pageNumber)
            else
              let frames := frames ++ [⟨pageNumber, frame.drop 24⟩]
              let pages := getUint32 frame 4
              walLoop source pageSize bigEndian salt1 salt2 left (index + 1) sums frames
                (if pages ≠ 0 then (frames, pages) else committed)

/-- The committed frames of a log and the size of the database. -/
def parseWAL (source : Bytes) (pageSize : Nat) : Except SqliteError (List WalFrame × Nat) :=
  if source.length < 32 then .error .walHeader
  else
    let header := source.take 32
    let magic := getUint32 header 0
    if magic ≠ 0x377f0682 ∧ magic ≠ 0x377f0683 then .error (.walSignature magic)
    else
      let bigEndian := magic == 0x377f0683
      if getUint32 header 4 ≠ 3007000 then .error (.walVersion (getUint32 header 4))
      else if getUint32 header 8 ≠ pageSize then .error (.walPageSize (getUint32 header 8) pageSize)
      else
        let sums := walChecksum bigEndian header 3 0 (0, 0)
        if sums.1.toNat ≠ getUint32 header 24 ∨ sums.2.toNat ≠ getUint32 header 28 then
          .error .walChecksum
        else
          walLoop source pageSize bigEndian (getUint32 header 16) (getUint32 header 20)
            ((source.length - 32) / (24 + pageSize)) 0 sums [] ([], 0)

/-! ## Opening -/

def sqliteUint32 : Value → Option Nat
  | .int64 v => if 0 ≤ v.toInt ∧ v.toInt ≤ 2 ^ 32 - 1 then some v.toInt.toNat else none
  | .null => some 0
  | _ => none

/-- An entry of the schema from its row. -/
def schemaEntry (row : Row) : Except SqliteError SchemaEntry :=
  match row.values with
  | [typeName, name, tableName, root, sql] =>
    match typeName, name, tableName, sqliteUint32 root with
    | .text typeName, .text name, .text tableName, some root =>
      match sql with
      | .null => .ok ⟨typeName, name, tableName, root, []⟩
      | .text sql => .ok ⟨typeName, name, tableName, root, sql⟩
      | _ => .error (.schemaSQL name)
    | _, _, _, _ => .error .malformedSchemaRow
  | values => .error (.schemaWidth values.length)

def schemaEntries : List Row → Except SqliteError (List SchemaEntry)
  | [] => .ok []
  | row :: rows =>
      match schemaEntry row with
      | .error err => .error err
      | .ok entry =>
        match schemaEntries rows with
        | .error err => .error err
        | .ok entries => .ok (entry :: entries)

/-- The pages of a committed transaction; a later frame replaces an earlier one. -/
def walPages (frames : List WalFrame) (committed : Nat) : AList fun _ : Nat => Page :=
  frames.foldl (fun pages frame =>
    if frame.pageNumber ≤ committed then pages.insert frame.pageNumber frame.data else pages) ∅

/-- The database that the header describes, after its checks. -/
def readHeader (source : Bytes) : Except SqliteError Database :=
  match readFullAt source 0 100 with
  | .error err => .error err
  | .ok header =>
    if slice header 0 16 ≠ databaseMagic then .error .invalidSignature
    else
      let stored := getUint16 header 16
      let pageSize := if stored = 1 then maximumPageSize else stored
      if pageSize < minimumPageSize ∨ pageSize > maximumPageSize ∨
          pageSize &&& (pageSize - 1) ≠ 0 then .error (.invalidPageSize pageSize)
      else
        let reserved := (header.getD 20 0).toNat
        if reserved ≥ pageSize ∨ pageSize - reserved < 480 then .error (.invalidReserved reserved)
        else
          let encoding := getUint32 header 56
          if encoding < 1 ∨ encoding > 3 then .error (.unsupportedEncoding encoding)
          else
            let physicalPages := source.length / pageSize
            let stored := getUint32 header 28
            let pageCount := if stored = 0 then physicalPages else stored
            if pageCount = 0 ∨ pageCount > maximumPages ∨ pageCount > physicalPages then
              .error (.invalidPageCount pageCount physicalPages)
            else
              .ok {
                source := source
                info := {
                  pageSize := pageSize
                  pageCount := pageCount
                  encoding := encoding
                  userVersion := getUint32 header 60
                  applicationID := getUint32 header 68
                  walFrames := 0 }
                reserved := reserved
                usable := pageSize - reserved
                pages := ∅
                schema := [] }

/-- Puts the pages of the log over the file. -/
def applyWAL (d : Database) (wal : Option Bytes) : Except SqliteError Database :=
  match wal with
  | none => .ok d
  | some wal =>
    if wal.length = 0 then .ok d
    else
      match parseWAL wal d.info.pageSize with
      | .error err => .error err
      | .ok (frames, committed) =>
        if committed = 0 then .ok d
        else if committed > maximumPages then .error (.walPageCount committed)
        else .ok { d with
          info := { d.info with pageCount := committed, walFrames := frames.length }
          pages := walPages frames committed }

/-- The facts of page 1 that the log may have changed, and the schema. -/
def readSchema (d : Database) : Except SqliteError Database :=
  match d.page 1 with
  | .error err => .error err
  | .ok header =>
    if slice header 0 16 ≠ databaseMagic then .error .invalidSignature
    else
      let d := { d with info := { d.info with
        encoding := getUint32 header 56
        userVersion := getUint32 header 60
        applicationID := getUint32 header 68 } }
      if d.info.encoding < 1 ∨ d.info.encoding > 3 then
        .error (.unsupportedEncoding d.info.encoding)
      else
        match d.btreeRows 1 100000 with
        | .error err => .error (.schema err)
        | .ok rows =>
          match schemaEntries rows with
          | .error err => .error err
          | .ok entries => .ok { d with schema := entries }

/-- `Open`. -/
def openDatabase (source : Bytes) (wal : Option Bytes) : Except SqliteError Database :=
  match readHeader source with
  | .error err => .error err
  | .ok d =>
    match applyWAL d wal with
    | .error err => .error err
    | .ok d => readSchema d

/-- `strings.EqualFold`: each code point is replaced by the first of those it is folded with. -/
def equalFold (fold : Nat → Nat) (s t : Bytes) : Bool :=
  (Utf.runes s).map fold == (Utf.runes t).map fold

namespace Database

/-- The rows of the table or index with a name, at most `maximum`. -/
def rows (fold : Nat → Nat) (d : Database) (name : Bytes) (maximum : Int) :
    Except SqliteError (List Row) :=
  if maximum < 0 ∨ maximum > 1000000 then .error (.rowLimit maximum)
  else
    match d.schema.find? fun entry => equalFold fold entry.name name with
    | none => .error (.noObject name)
    | some entry =>
        if entry.rootPage = 0 then .error (.noBtree name)
        else d.btreeRows entry.rootPage maximum.toNat

end Database

end Trex.Sqlite
