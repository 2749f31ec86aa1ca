import Trex.Lib.Bytes
import Trex.Lib.Utf

/-!
# What the filesystem builders share

Files, attributes and metadata as a tree hands them to a builder, the arithmetic of
`filesystem/internal` and the letters of names.  Go strings are byte strings, their code points
`Utf.runes`; the package `unicode` is a parameter beyond ASCII.
-/

namespace Trex.Filesystem

/-! ## Arithmetic -/

/-- `internal.CeilDiv`, without the wrap of its `int64` sum: the mathematical ceiling. -/
def ceilDiv (value quantum : Nat) : Nat :=
  if value = 0 then 0 else (value + quantum - 1) / quantum

/-- `internal.Align`: the next multiple. -/
def align (value alignment : Nat) : Nat := ceilDiv value alignment * alignment

/-! ## Letters -/

/-- The tables of the package `unicode` that the code uses. -/
structure Unicode where
  toUpper : Nat → Nat
  toLower : Nat → Nat
  /-- The least code point of the orbit under `unicode.SimpleFold`. -/
  fold : Nat → Nat

namespace Unicode

variable (u : Unicode)

/-- `unicode.ToUpper`. -/
def upper (r : Nat) : Nat :=
  if 97 ≤ r ∧ r ≤ 122 then r - 32 else if r < 128 then r else u.toUpper r

/-- `unicode.ToLower`. -/
def lower (r : Nat) : Nat :=
  if 65 ≤ r ∧ r ≤ 90 then r + 32 else if r < 128 then r else u.toLower r

/-- `strings.Map`. -/
def mapRunes (f : Nat → Nat) (s : Bytes) : Bytes := Utf.encode ((Utf.runes s).map f)

/-- `strings.ToUpper`. -/
def upperString (s : Bytes) : Bytes := mapRunes u.upper s

/-- `strings.ToLower`. -/
def lowerString (s : Bytes) : Bytes := mapRunes u.lower s

end Unicode

/-- `utf16.Encode([]rune(s))`. -/
def utf16Units (s : Bytes) : List Nat := Utf.encode16 (Utf.runes s)

/-! ## Files and metadata -/

/-- A `starfile.File`: a read of a broken one fails. -/
structure File where
  size : Nat
  byte : Nat → UInt8
  broken : Bool

/-- The four DOS attributes of a name. -/
structure Attributes where
  readOnly : Bool := false
  hidden : Bool := false
  system : Bool := false
  archive : Bool := false

/-- A name with its value in the extended attributes of a file. -/
structure ExtendedAttribute where
  name : Bytes
  flags : UInt8
  value : Bytes

/-- `filesystemapi.Metadata`. -/
structure Metadata where
  extendedAttributes : List ExtendedAttribute := []
  /-- A map: the names are distinct; a file may be nil. -/
  namedStreams : List (Bytes × Option File) := []
  fileAttributes : Nat := 0
  hasFileAttributes : Bool := false
  securityDescriptor : Bytes := []
  reparseTag : Nat := 0
  reparseData : Option File := none
  creationTime : Nat := 0
  lastAccessTime : Nat := 0
  lastWriteTime : Nat := 0
  hardLink : Nat := 0
  shortName : Bytes := []

/-- A file of a directory: its contents are a file or bytes, its size is declared. -/
structure FileRecord where
  file : Option File := none
  data : Bytes := []
  size : Nat
  writeOrder : Nat := 0

end Trex.Filesystem
