import Trex.Lib.Slice

/-!
# Cutting a list into pieces of one size

`chunks n l` cuts `l` into pieces of `n` elements, the last one shorter.
-/

namespace Chunk

open Slice

variable {α : Type}

def loop (n : Nat) : Nat → List α → List (List α)
  | 0, _ => []
  | _ + 1, [] => []
  | turns + 1, l => l.take n :: loop n turns (l.drop n)

/-- Cuts a list into pieces of `n`. -/
def chunks (n : Nat) (l : List α) : List (List α) := loop n l.length l

end Chunk
