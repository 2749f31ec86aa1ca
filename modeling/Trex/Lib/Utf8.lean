import Trex.Lib.Utf

/-!
# Well-formed UTF-8, byte by byte

`valid` is `utf8.ValidString`.
-/

namespace Utf

/-- The ranges of the bytes that have to follow a first byte. -/
def following (b0 : Nat) : Option (List (Nat × Nat)) :=
  if b0 < 0x80 then some []
  else if 0xC2 ≤ b0 ∧ b0 ≤ 0xDF then some [(0x80, 0xBF)]
  else if 0xE0 ≤ b0 ∧ b0 ≤ 0xEF then some [second b0, (0x80, 0xBF)]
  else if 0xF0 ≤ b0 ∧ b0 ≤ 0xF4 then some [second b0, (0x80, 0xBF), (0x80, 0xBF)]
  else none

/-- The check inside a sequence that still needs bytes in the given ranges. -/
def validAfter : List (Nat × Nat) → List UInt8 → Bool
  | [], [] => true
  | _ :: _, [] => false
  | range :: more, b :: rest => cont range.1 range.2 b && validAfter more rest
  | [], b :: rest =>
      match following b.toNat with
      | none => false
      | some more => validAfter more rest

def valid (s : List UInt8) : Bool := validAfter [] s

end Utf
