import Mathlib.Data.List.Sort
import Trex.Lib.Memory
import Trex.Lib.Search
import Trex.Lib.Bytes

/-!
# Generated images (`filesystem/image.go`)

An image is a size and a list of extents with bytes, a part of a file, or zeros.  It is read at random,
written out in order, and asked for its extents, each by a walk of its own.
-/

namespace Trex.Filesystem

/-! ## Sources -/

/-- A range of a backing file, as the file reports it. -/
structure NestedExtent where
  offset : Int
  length : Int
  allocated : Bool

/-- A backing file: its `Size`, its bytes, those of them that cannot be read, and its extents
if it reports any. -/
structure Source where
  size : Nat
  byte : Nat → UInt8
  bad : Nat → Bool := fun _ => false
  extents : Option (Int → Int → Option (List NestedExtent)) := none
  /-- what is reported as unallocated is zero -/
  sound : ∀ report, extents = some report → ∀ off len l, report off len = some l → ∀ x ∈ l,
    x.allocated = false → ∀ i : Nat, x.offset ≤ i → (i : Int) < x.offset + x.length → byte i = 0 := by simp

/-- How a read of a backing file ends. -/
inductive SourceEnd where
  | ok
  | eof
  | failed

/-- `ReadAt` of a backing file: short only at its end or before a byte that cannot be read. -/
def Source.readAt (f : Source) (off : Int) (n : Nat) : Bytes × SourceEnd :=
  if off < 0 then ([], .failed)
  else
    let m := min n (f.size - off.toNat)
    match (List.range m).find? fun i => f.bad (off.toNat + i) with
    | some k => (Memory.window f.byte off.toNat k, .failed)
    | none => (Memory.window f.byte off.toNat m, if m < n then .eof else .ok)

/-! ## Images -/

/-- `ExtentSpec`; a file goes before data, and without either the extent is zero. -/
structure ExtentSpec where
  start : Int
  size : Int
  offset : Int := 0
  data : Option Bytes := none
  file : Option Source := none

/-- An image as it is described, before `ensureIndexed`. -/
structure Image where
  size : Int
  extents : List ExtentSpec

/-- The errors of an image. -/
inductive ImageError where
  | negativeSize
  | outside
  | shortData
  | overlap
  | negativeOffset
  | outOfRange
  | noProgress
  | source
  | fileRange
  | writer
  | nested

/-- What stands behind an extent. -/
inductive Content where
  | zeros
  | bytes (data : Bytes)
  | file (f : Source) (off : Int)

/-- An extent that has passed the checks. -/
structure Extent where
  start : Nat
  size : Nat
  content : Content

def Extent.stop (e : Extent) : Nat := e.start + e.size

/-- A file goes before data, and data before zeros. -/
def ExtentSpec.toExtent (e : ExtentSpec) : Extent where
  start := e.start.toNat
  size := e.size.toNat
  content :=
    match e.file, e.data with
    | some f, _ => .file f e.offset
    | none, some data => .bytes data
    | none, none => .zeros

/-- The checks of each extent; empty ones are dropped. -/
def checkExtents (size : Int) : List ExtentSpec → Except ImageError (List Extent)
  | [] => .ok []
  | e :: es =>
    if e.size = 0 then checkExtents size es
    else if e.start < 0 ∨ e.size < 0 ∨ e.start > size ∨ e.size > size - e.start then .error .outside
    else if e.file.isNone ∧ e.data.any (fun data => decide ((data.length : Int) < e.size)) then
      .error .shortData
    else
      match checkExtents size es with
      | .error err => .error err
      | .ok checked => .ok (e.toExtent :: checked)

/-- Neighbours in a sorted list do not overlap. -/
def checkOverlap : List Extent → Except ImageError Unit
  | a :: b :: rest => if b.start < a.stop then .error .overlap else checkOverlap (b :: rest)
  | _ => .ok ()

/-- An image that has passed `ensureIndexed`: its extents are sorted and apart. -/
structure Indexed where
  size : Nat
  extents : List Extent

def ensureIndexed (img : Image) : Except ImageError Indexed :=
  if img.size < 0 then .error .negativeSize
  else
    match checkExtents img.size img.extents with
    | .error err => .error err
    | .ok checked =>
      let sorted := checked.insertionSort fun a b => a.start ≤ b.start
      match checkOverlap sorted with
      | .error err => .error err
      | .ok () => .ok ⟨img.size.toNat, sorted⟩

/-! ## Random access -/

/-- `sort.Search` for the first extent that ends behind an offset. -/
def seekExtent (extents : List Extent) (off : Nat) : List Extent :=
  extents.drop (Search.search extents.length fun i => decide (off < ((extents[i]?).map Extent.stop).getD 0))

/-- The part of an extent at `within`, and how its read ended. -/
def Extent.read (e : Extent) (within n : Nat) : Bytes × SourceEnd :=
  match e.content with
  | .zeros => (List.replicate n 0, .ok)
  | .bytes data => ((data.drop within).take n, .ok)
  | .file f off => f.readAt (off + within) n

/-- An error of `ReadAt`: `io.EOF` or another one. -/
inductive ReadError where
  | eof
  | failed (err : ImageError)

/-- The loop of `ReadAt`, with the extents from `extentIndex` on and what was read so far; an error of a
backing file, `io.EOF` included, is returned as it is. -/
def readLoop (off remaining : Nat) : Nat → List Extent → Bytes → Bytes × Option ReadError
  | 0, _, done => (done, none)
  | turns + 1, rest, done =>
    if done.length < remaining then
      let pos := off + done.length
      let n := remaining - done.length
      match rest with
      | e :: rest' =>
        if pos < e.start then
          readLoop off remaining turns rest (done ++ List.replicate (min n (e.start - pos)) 0)
        else if pos < e.stop then
          let within := pos - e.start
          let n := min n (e.size - within)
          let (got, ending) := e.read within n
          let done := done ++ got
          match ending with
          | .failed => (done, some (.failed .source))
          | .eof =>
            if got.length = n then
              readLoop off remaining turns (if off + done.length ≥ e.stop then rest' else rest) done
            else (done, some .eof)
          | .ok =>
            if got = [] then (done, some (.failed .noProgress))
            else readLoop off remaining turns (if off + done.length ≥ e.stop then rest' else rest) done
        else readLoop off remaining turns rest (done ++ List.replicate n 0)
      | [] => readLoop off remaining turns rest (done ++ List.replicate n 0)
    else (done, none)

def Indexed.readAt (ix : Indexed) (off : Int) (len : Nat) : Bytes × Option ReadError :=
  if off < 0 then ([], some (.failed .negativeOffset))
  else if len = 0 then ([], none)
  else if off.toNat ≥ ix.size then ([], some .eof)
  else
    let remaining := min len (ix.size - off.toNat)
    match readLoop off.toNat remaining (remaining + 1) (seekExtent ix.extents off.toNat) [] with
    | (done, some err) => (done, some err)
    | (done, none) => (done, if len > done.length then some .eof else none)

/-! ## Writing -/

/-- Where `WriteTo` writes: what lies ahead, how many bytes have been passed, and whether it can seek. -/
structure Output where
  content : Nat → UInt8
  position : Nat := 0
  seeker : Bool
  /-- no byte can be written from here on -/
  full : Option Nat := none

/-- A write at the position, which fails behind the end of a full writer. -/
def Output.write (w : Output) (l : Bytes) : Except ImageError Output :=
  if w.full.any (fun limit => decide (limit < w.position + l.length)) then .error .writer
  else .ok { w with content := Memory.put w.content w.position l, position := w.position + l.length }

/-- `writeImageGap`: a gap is skipped but for its last byte. -/
def writeImageGap (w : Output) (size : Nat) : Except ImageError Output :=
  if size = 0 then .ok w
  else if w.seeker then ({ w with position := w.position + (size - 1) } : Output).write [0]
  else w.write (List.replicate size 0)

/-- Copies a range of a file, cut at the end of the file. -/
def writeFileRangeTo (w : Output) (f : Source) (off : Int) (size : Nat) : Except ImageError Output :=
  if off < 0 ∨ off > f.size then .error .fileRange
  else
    let size := min size (f.size - off.toNat)
    match f.readAt off size with
    | (got, .ok) => w.write got
    | (_, _) => .error .source

/-- Writes the bytes of an extent. -/
def Extent.write (e : Extent) (w : Output) : Except ImageError Output :=
  match e.content with
  | .zeros => w.write (List.replicate e.size 0)
  | .bytes data => w.write (data.take e.size)
  | .file f off => writeFileRangeTo w f off e.size

/-- The loop of `WriteTo`; `written` is what it counts. -/
def writeLoop : List Extent → Nat → Output → Except ImageError (Nat × Output)
  | [], written, w => .ok (written, w)
  | e :: es, written, w =>
    match writeImageGap w (e.start - written) with
    | .error err => .error err
    | .ok w =>
      match e.write w with
      | .error err => .error err
      | .ok w => writeLoop es (written + (e.start - written) + e.size) w

/-- Writes extents and gaps in order, and returns the declared size. -/
def Indexed.writeTo (ix : Indexed) (w : Output) : Except ImageError (Nat × Output) :=
  match writeLoop ix.extents 0 w with
  | .error err => .error err
  | .ok (written, w) =>
    match writeImageGap w (ix.size - written) with
    | .error err => .error err
    | .ok w => .ok (written + (ix.size - written), w)

/-! ## Extents -/

/-- A range with the mark whether anything is stored for it. -/
structure BlockExtent where
  offset : Nat
  length : Nat
  allocated : Bool

/-- `appendExtent`: neighbours of one kind become one. -/
def appendExtent (out : List BlockExtent) (offset size : Nat) (allocated : Bool) : List BlockExtent :=
  if size = 0 then out
  else
    match out.getLast? with
    | some last =>
      if last.offset + last.length = offset ∧ last.allocated = allocated then
        out.dropLast ++ [{ last with length := last.length + size }]
      else out ++ [⟨offset, size, allocated⟩]
    | none => out ++ [⟨offset, size, allocated⟩]

/-- The extents of a nested source, from `expected` up to `stop` of the source. -/
def appendNested (position : Nat) (sourceOffset stop : Int) :
    List NestedExtent → Int → List BlockExtent → Except ImageError (List BlockExtent)
  | [], expected, out => if expected ≠ stop then .error .nested else .ok out
  | x :: xs, expected, out =>
    if x.length ≤ 0 ∨ x.offset ≠ expected ∨ x.length > stop - expected then .error .nested
    else appendNested position sourceOffset stop xs (expected + x.length)
      (appendExtent out (position + (x.offset - sourceOffset).toNat) x.length.toNat x.allocated)

/-- What one extent adds for `[position, position + size)`. -/
def Extent.report (e : Extent) (position size : Nat) (out : List BlockExtent) :
    Except ImageError (List BlockExtent) :=
  match e.content with
  | .zeros => .ok (appendExtent out position size false)
  | .bytes _ => .ok (appendExtent out position size true)
  | .file f off =>
    match f.extents with
    | none => .ok (appendExtent out position size true)
    | some report =>
      let sourceOffset := off + (position - e.start : Nat)
      match report sourceOffset size with
      | none => .error .nested
      | some l => appendNested position sourceOffset (sourceOffset + size) l sourceOffset out

/-- The ranges up to `stop`, extent by extent. -/
def extentsLoop (stop : Nat) : Nat → List Extent → Nat → List BlockExtent →
    Except ImageError (List BlockExtent)
  | 0, _, _, out => .ok out
  | turns + 1, rest, position, out =>
    if position < stop then
      match rest with
      | [] => .ok (appendExtent out position (stop - position) false)
      | e :: rest' =>
        if e.start ≥ stop then .ok (appendExtent out position (stop - position) false)
        else if position < e.start then
          extentsLoop stop turns rest (min stop e.start)
            (appendExtent out position (min stop e.start - position) false)
        else
          let extentEnd := min stop e.stop
          match e.report position (extentEnd - position) out with
          | .error err => .error err
          | .ok out => extentsLoop stop turns (if extentEnd ≥ e.stop then rest' else rest) extentEnd out
    else .ok out

/-- The ranges of a window. -/
def Indexed.extentsAt (ix : Indexed) (off len : Int) : Except ImageError (List BlockExtent) :=
  if off < 0 ∨ len < 0 ∨ off > ix.size ∨ len > ix.size - off then .error .outOfRange
  else if len = 0 then .ok []
  else extentsLoop (off.toNat + len.toNat) (2 * ix.extents.length + 2)
    (seekExtent ix.extents off.toNat) off.toNat []

end Trex.Filesystem
