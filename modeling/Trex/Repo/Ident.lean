import Trex.Lib.Assoc
import Trex.Lib.BigEndian
import Trex.Lib.Bytes
import Trex.Lib.Hex
import Trex.Lib.Slice
import Trex.Lib.Utf8

/-!
# Names of `scs/repo`: identities, record kinds, paths

SHA-256, SHA-1 and zstd are parameters (`Env`): of the hashes only the length of a digest is known, of
the compression that it is inverted and how much it can expand.  A path is the list of its components.
-/

namespace Trex.Repo

open Bytes (ascii)

/-- The hash functions and the compression that the repository calls. -/
structure Env where
  sha256 : Bytes → Bytes
  length_sha256 : ∀ data, (sha256 data).length = 32
  sha1 : Bytes → Bytes
  length_sha1 : ∀ data, (sha1 data).length = 20
  encodeAll : Bytes → Bytes
  decodeAll : Bytes → Option Bytes
  decodeAll_encodeAll : ∀ data, decodeAll (encodeAll data) = some data
  /-- A frame of stored blocks is the worst case: three bytes for each block of 128 KiB
  and a fixed header and trailer. -/
  length_encodeAll : ∀ data, (encodeAll data).length ≤ data.length + data.length / 1024 + 64

/-! ## Limits and record kinds -/

def blockSize : Nat := 4096
def magic : Bytes := ascii "SCSREPO2"
def magic3 : Bytes := ascii "SCSREPO3"
def maxRecord : Nat := 64 * 2 ^ 20
def headerSize : Nat := 41
def maxBody : Nat := 2 ^ 30
def maxBodyDepth : Nat := 16
/-- The longest payload of a body record. -/
def maxStored : Nat := maxBody + maxBody / 256 + 2 ^ 20

def blockKind : UInt8 := 1
def fileKind : UInt8 := 2
def treeKind : UInt8 := 3
def snapshotKind : UInt8 := 4
def refsKind : UInt8 := 5
def indexKind : UInt8 := 6
def gitObjectKind : UInt8 := 7
def gitCatalogKind : UInt8 := 8
def bodyKind : UInt8 := 9
def fastPageKind : UInt8 := 12
def fastRunKind : UInt8 := 13
def fastRootKind : UInt8 := 14
def fastEndKind : UInt8 := 15

/-! ## Identities -/

/-- An identity in binary. -/
abbrev Key := Bytes

/-- A digest in hexadecimal; the empty text stands for no object. -/
abbrev ID := Bytes

def zeroKey : Key := List.replicate 32 0

/-- The key of an identity; a text that is no digest has the zero key. -/
def key (id : ID) : Key :=
  if id.length ≠ 64 then zeroKey
  else
    match Hex.decode id with
    | none => zeroKey
    | some k => k

/-- The text of an identity, empty for zero. -/
def keyID (k : Key) : ID := if k = zeroKey then [] else Hex.encode k

/-- The text is 32 bytes in hexadecimal. -/
def validID (id : ID) : Bool :=
  match Hex.decode id with
  | none => false
  | some b => b.length == 32

section

variable (env : Env)

/-- The hash of a record with its kind. -/
def digestKey (kind : UInt8) (data : Bytes) : Key := env.sha256 (kind :: data)

def digest (kind : UInt8) (data : Bytes) : ID := Hex.encode (digestKey env kind data)

end

/-! ## Errors -/

/-- The errors of the package; a constructor stands for one text of the source. -/
inductive Err where
  | readOnly
  | conflict
  | closed
  | mustReopen
  | write
  | truncate
  | sync
  | shortRead
  | recordLimit
  | invalidID
  | missingObject
  | corruptObject
  | invalidJSON
  -- persistent index
  | indexReference
  | indexChecksum
  | indexDirectory
  | indexObjectCount
  | indexPageCount
  | indexPageOrdering
  | indexPageSize
  | indexUnsorted
  | indexLocation
  | indexGitIdentity
  | indexOrdinal
  | indexManifest
  | indexManifestPosition
  | indexRunReference
  | indexRoot
  | decompress
  | gitRunMissing
  -- bodies
  | bodyHeader
  | bodyChecksum
  | bodyIdentity
  | bodyLimit
  | bodyBase
  | bodyMismatch
  | bodyExtent
  | bodyCanonical
  | extentOutput
  | extentLiteral
  | extentOutside
  | extentSize
  -- Git objects
  | gitDescriptor
  | gitCollision
  | gitReference
  | gitNotFound
  | gitHeader
  | gitSize
  | gitChecksum
  | gitBase
  | gitOID
  | gitCatalog
  | gitTree
  | gitName
  -- names and paths
  | invalidPath
  | parentTraversal
  | pathLimit
  | depthLimit
  | invalidName
  | unknownWorkspace
  -- trees
  | treeOrder
  | indexRecord
  | indexTruncated
  | indexLeafCount
  | indexName
  | indexOrder
  | indexPartition
  | indexKindByte
  | indexEarlier
  | indexLeafBounds
  | indexBranch
  | indexNoncanonical
  | indexTag
  | indexCapacity
  | treeEntry
  | fileDescriptor
  | fileBody
  | gitlink
  | fileBlock
  -- workspace operations
  | notExist
  | parentNotDirectory
  | wrongKind
  | replaceRoot
  | overwriteKind
  | fileSize
  | emptyTarget
  | targetNotFound
  | exists
  | notEmpty
  | renameRoot
  | intoItself
  | modeRange
  | rootMode
  | chmodDenied
  | pageBase
  | overlayPage
  | readerClosed
  | unexpectedEOF
  | notDirectory
  | isDirectory
  | blockLength
  | storeNotEmpty
  -- opening
  | repositoryHeader
  | invalidRecord
  | checksumMismatch
  | invalidRoots
  | invalidRoot
  | checkpointBounds
  | checkpointPage
  | checkpointChecksum
  | checkpointContent
  deriving DecidableEq, Repr

/-- An error under a condition. -/
def refuse (c : Prop) [Decidable c] (e : Err) : Except Err Unit := if c then .error e else .ok ()

/-! ## Names and paths -/

abbrev Name := Bytes
abbrev Path := List Name

/-- The characters of a name. -/
def nameByte (c : UInt8) : Bool :=
  let n := c.toNat
  97 ≤ n && n ≤ 122 || 65 ≤ n && n ≤ 90 || 48 ≤ n && n ≤ 57 || n == 45 || n == 95 || n == 46

/-- Names of workspaces and Git catalogs. -/
def validName (name : Bytes) : Bool :=
  name ≠ [] && name.length ≤ 255 && name.all nameByte && name ≠ ascii "." && name ≠ ascii ".."

def splitSlash : Bytes → List Bytes
  | [] => [[]]
  | c :: rest =>
      if c = 47 then [] :: splitSlash rest
      else
        match splitSlash rest with
        | [] => [[c]]
        | part :: parts => (c :: part) :: parts

def joinSlash : List Bytes → Bytes
  | [] => []
  | [part] => part
  | part :: next :: parts => part ++ 47 :: joinSlash (next :: parts)

/-- The text of a path. -/
def joinPath (path : Path) : Bytes := if path = [] then ascii "." else joinSlash path

/-- The parts of a path; an absolute path and `..` are refused. -/
def clean (p : Bytes) : Except Err Path :=
  if !Utf.valid p || p.any (fun c => c == 0 || c == 92) || p.head? == some 47 then .error .invalidPath
  else if (splitSlash p).any (· == ascii "..") then .error .parentTraversal
  else
    -- without `..` parts, `path.Clean` drops the empty parts and the dots
    let path := (splitSlash p).filter fun part => part ≠ [] && part ≠ ascii "."
    if (joinPath path).length > 4096 || path.length > 256 then .error .pathLimit else .ok path

/-- A path of a tree that `clean` accepts. -/
def checkPath (path : Path) : Except Err Unit := (clean (joinPath path)).map fun _ => ()

/-- `strings.HasPrefix(new, old+"/")` on cleaned paths. -/
def inside (old new : Path) : Bool := old.isPrefixOf new && old.length < new.length

end Trex.Repo
