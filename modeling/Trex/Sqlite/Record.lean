import Trex.Lib.BigEndian
import Trex.Lib.Utf
import Trex.Sqlite.Varint

/-!
# SQLite records

`encodeRecord` of `database/sqlite/build.go` and `decodeRecord` of `database/sqlite/sqlite.go`: a header
with its size and the serial type of every field, then the fields.  `Value.readBack` says as what a
value comes back.
-/

namespace Trex.Sqlite

open Slice

/-- The errors of the package.  The nested ones are the prefixes of `%w`. -/
inductive SqliteError where
  | invalidWriterPageSize (size : Nat)
  | invalidWriterEncoding (encoding : Nat)
  | emptyTypeOrName (index : Nat)
  | duplicateObject (name : Bytes)
  | rowsOfObject (type name : Bytes)
  | unsupportedObjectType (type : Bytes)
  | pageCountExceedsLimit (count : Nat)
  | noRowid (row : Nat)
  | rowidsNotIncreasing (row : Nat)
  | interiorNeedsTwoChildren
  | unexpectedRowid (row : Nat)
  | recordsTooLarge
  | cellsExceedPage (page : Nat)
  | unsignedOutOfRange (value : UInt64)
  | unsupportedValue
  | invalidSignature
  | invalidPageSize (size : Nat)
  | invalidReserved (reserved : Nat)
  | unsupportedEncoding (encoding : Nat)
  | invalidPageCount (count physical : Nat)
  | shortRead
  | pageOutside (page : Nat)
  | maximumDepth
  | repeatedPage (page : Nat)
  | truncatedHeader (page : Nat)
  | pointersExceedPage (page : Nat)
  | cellTruncated (page : Nat)
  | cellOffset (page cell offset : Nat)
  | unsupportedPageType (page : Nat) (type : UInt8)
  | payloadLimit (size : Nat)
  | localPayload
  | overflowPointer
  | overflowChain (page : Nat)
  | varint (err : VarintError)
  | recordHeader (size : Nat)
  | recordBody (serial : Nat)
  | reservedSerial (serial : Nat)
  | fieldLimit (serial : Nat)
  | oddText
  | schemaWidth (width : Nat)
  | malformedSchemaRow
  | schemaSQL (name : Bytes)
  | rowLimit (maximum : Int)
  | noBtree (name : Bytes)
  | noObject (name : Bytes)
  | walHeader
  | walSignature (magic : Nat)
  | walVersion (version : Nat)
  | walPageSize (wal database : Nat)
  | walChecksum
  | walFrame (frame page : Nat)
  | walPageCount (count : Nat)
  /-- a slice or index expression out of range, which panics -/
  | panic
  /-- `field %d: %w` -/
  | field (index : Nat) (err : SqliteError)
  /-- `sqlite: build %s %q: %w` -/
  | build (type name : Bytes) (err : SqliteError)
  /-- `sqlite: build schema: %w` -/
  | buildSchema (err : SqliteError)
  /-- `page %d cell %d: %w` and the other messages that locate a cell -/
  | cell (page index : Nat) (err : SqliteError)
  /-- `sqlite: schema: %w` -/
  | schema (err : SqliteError)
  deriving DecidableEq, Repr

/-- The dynamic types of `any` that the writer distinguishes.  A `string` is its
bytes, a `float64` its bit pattern. -/
inductive Value where
  | null
  | bool (value : Bool)
  | int (value : Int64)
  | int64 (value : Int64)
  | uint64 (value : UInt64)
  | float64 (bits : UInt64)
  | bytes (value : Bytes)
  | text (value : Bytes)
  /-- any other type -/
  | other
  deriving DecidableEq, Repr

/-! ## Writing -/

/-- The table `sizes`: serial type, bytes, smallest and largest value. -/
def integerSizes : List (Nat × Nat × Int × Int) :=
  [(1, 1, -128, 127), (2, 2, -32768, 32767), (3, 3, -8388608, 8388607),
    (4, 4, -2147483648, 2147483647), (5, 6, -140737488355328, 140737488355327),
    (6, 8, -9223372036854775808, 9223372036854775807)]

def encodeInteger (value : Int64) : Except SqliteError (Nat × Bytes) :=
  if value = 0 then .ok (8, [])
  else if value = 1 then .ok (9, [])
  else
    match integerSizes.find? fun (_, _, lo, hi) => lo ≤ value.toInt ∧ value.toInt ≤ hi with
    | some (serial, size, _, _) => .ok (serial, BigEndian.put size value.toUInt64.toNat)
    | none => .error .panic

def putUnit (encoding : Nat) (unit : Nat) : Bytes :=
  if encoding = 3 then [.ofNat (unit / 256), .ofNat (unit % 256)]
  else [.ofNat (unit % 256), .ofNat (unit / 256)]

/-- A text in the encoding of the database. -/
def encodeText (value : Bytes) (encoding : Nat) : Bytes :=
  if encoding = 1 then value else (Utf.encode16 (Utf.runes value)).flatMap (putUnit encoding)

/-- The serial type and the bytes of a value. -/
def encodeField (value : Value) (encoding : Nat) : Except SqliteError (Nat × Bytes) :=
  match value with
  | .null => .ok (0, [])
  | .bool b => .ok (if b then 9 else 8, [])
  | .int v => encodeInteger v
  | .int64 v => encodeInteger v
  | .uint64 v =>
      if v.toNat > 2 ^ 63 - 1 then .error (.unsignedOutOfRange v) else encodeInteger v.toInt64
  | .float64 bits => .ok (7, BigEndian.put 8 bits.toNat)
  | .bytes v => .ok (12 + v.length * 2, v)
  | .text v => .ok (13 + (encodeText v encoding).length * 2, encodeText v encoding)
  | .other => .error .unsupportedValue

/-- The serial types and the fields of a row, in order. -/
def encodeFields (encoding : Nat) : Nat → List Value → Except SqliteError (List (Nat × Bytes))
  | _, [] => .ok []
  | index, value :: values =>
      match encodeField value encoding with
      | .error err => .error (.field index err)
      | .ok field =>
        match encodeFields encoding (index + 1) values with
        | .error err => .error err
        | .ok fields => .ok (field :: fields)

/-- The loop that makes room for the header's own size. -/
def headerSizeLoop (serials : Nat) : Nat → Nat → Nat
  | 0, headerSize => headerSize
  | turns + 1, headerSize =>
      if (encodeVarint headerSize).length + serials ≠ headerSize then
        headerSizeLoop serials turns ((encodeVarint headerSize).length + serials)
      else headerSize

/-- A record: header and values. -/
def encodeRecord (values : List Value) (encoding : Nat) : Except SqliteError Bytes :=
  match encodeFields encoding 0 values with
  | .error err => .error err
  | .ok fields =>
    let serials := fields.flatMap fun field => encodeVarint field.1
    let body := fields.flatMap Prod.snd
    -- the size of a varint grows with each turn, so nine turns are enough
    let headerSize := headerSizeLoop serials.length 9 (serials.length + 1)
    .ok (encodeVarint headerSize ++ serials ++ body)

/-! ## Reading -/

/-- The size of a value with this serial type. -/
def serialSize (serial : Nat) : Except SqliteError Nat :=
  match serial with
  | 0 | 8 | 9 => .ok 0
  | 1 => .ok 1
  | 2 => .ok 2
  | 3 => .ok 3
  | 4 => .ok 4
  | 5 => .ok 6
  | 6 | 7 => .ok 8
  | 10 | 11 => .error (.reservedSerial serial)
  | serial =>
      if (serial - 12) / 2 > 2 ^ 30 then .error (.fieldLimit serial) else .ok ((serial - 12) / 2)

def signedBigEndian (data : Bytes) : Int64 :=
  let value := BigEndian.get data
  let bits := data.length * 8
  if bits < 64 ∧ value.testBit (bits - 1) then .ofInt (value - 2 ^ bits) else .ofInt value

def getUnits (encoding : Nat) : Bytes → List Nat
  | a :: b :: rest =>
      (if encoding = 3 then a.toNat * 256 + b.toNat else b.toNat * 256 + a.toNat) ::
        getUnits encoding rest
  | _ => []

/-- Code points of UTF-16, where a half pair stays. -/
def utf16Decode : List Nat → List Nat
  | [] => []
  | [value] => [value]
  | value :: next :: rest =>
      if (0xD800 ≤ value ∧ value ≤ 0xDBFF) ∧ (0xDC00 ≤ next ∧ next ≤ 0xDFFF) then
        (0x10000 + (value - 0xD800) * 1024 + (next - 0xDC00)) :: utf16Decode rest
      else value :: utf16Decode (next :: rest)

/-- A text from the encoding of the database. -/
def decodeText (data : Bytes) (encoding : Nat) : Except SqliteError Bytes :=
  if encoding = 1 then .ok data
  else if encoding = 2 ∨ encoding = 3 then
    if data.length % 2 ≠ 0 then .error .oddText
    else .ok (Utf.encode (utf16Decode (getUnits encoding data)))
  else .error (.unsupportedEncoding encoding)

/-- The value of a field. -/
def decodeField (serial : Nat) (field : Bytes) (encoding : Nat) : Except SqliteError Value :=
  if serial = 0 then .ok .null
  else if 1 ≤ serial ∧ serial ≤ 6 then .ok (.int64 (signedBigEndian field))
  else if serial = 7 then .ok (.float64 (.ofNat (BigEndian.get field)))
  else if serial = 8 then .ok (.int64 0)
  else if serial = 9 then .ok (.int64 1)
  else if serial ≥ 12 ∧ serial % 2 = 0 then .ok (.bytes field)
  else if serial ≥ 13 ∧ serial % 2 = 1 then (decodeText field encoding).map Value.text
  else .error (.reservedSerial serial)

/-- The serial types between `position` and `headerSize`; each takes a byte at least. -/
def decodeSerials (data : Bytes) (headerSize : Nat) : Nat → Nat → Except SqliteError (List Nat)
  | 0, _ => .ok []
  | turns + 1, position =>
      if position < headerSize then
        match decodeVarint data position headerSize with
        | .error err => .error (.varint err)
        | .ok (serial, count) =>
          match decodeSerials data headerSize turns (position + count) with
          | .error err => .error err
          | .ok serials => .ok (serial :: serials)
      else .ok []

def decodeFields (data : Bytes) (encoding : Nat) : List Nat → Nat → Except SqliteError (List Value)
  | [], _ => .ok []
  | serial :: serials, body =>
      match serialSize serial with
      | .error err => .error err
      | .ok size =>
        if body + size > data.length then .error (.recordBody serial)
        else
          match decodeField serial (slice data body size) encoding with
          | .error err => .error err
          | .ok value =>
            match decodeFields data encoding serials (body + size) with
            | .error err => .error err
            | .ok values => .ok (value :: values)

/-- The values of a record. -/
def decodeRecord (data : Bytes) (encoding : Nat) : Except SqliteError (List Value) :=
  match decodeVarint data 0 data.length with
  | .error err => .error (.varint err)
  | .ok (headerSize, used) =>
    if headerSize < used ∨ headerSize > data.length then .error (.recordHeader headerSize)
    else
      match decodeSerials data headerSize headerSize used with
      | .error err => .error err
      | .ok serials => decodeFields data encoding serials headerSize

/-- What a value is read back as: booleans and integers as `int64`. -/
def Value.readBack : Value → Value
  | .bool b => .int64 (if b then 1 else 0)
  | .int v => .int64 v
  | .uint64 v => .int64 v.toInt64
  | v => v

/-- A text is well-formed UTF-8. -/
def Value.ValidText : Value → Prop
  | .text v => Utf.Valid v
  | _ => True

end Trex.Sqlite
