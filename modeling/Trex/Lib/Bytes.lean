import Trex.Lib.ByteOrder
import Trex.Lib.LittleEndian

/-!
# Byte strings

The type of Go's byte slices and strings, with the few constants and encodings that the models write.
-/

abbrev Bytes := List UInt8

namespace Bytes

def zeros (n : Nat) : Bytes := List.replicate n 0

/-- The ASCII text of a literal of the source. -/
def ascii (text : String) : Bytes := text.toList.map fun c => UInt8.ofNat c.toNat

/-- `binary.LittleEndian.PutUint16` and its wider forms. -/
def le16 (v : Nat) : Bytes := LittleEndian.put 2 v
def le32 (v : Nat) : Bytes := LittleEndian.put 4 v
def le64 (v : Nat) : Bytes := LittleEndian.put 8 v

end Bytes
