import Mathlib.Data.List.Sort
import Mathlib.Data.List.Dedup
import Trex.Filesystem.Records

/-!
# 8.3 names

The aliases of `filesystem/directory.go` and of the FAT builder.  Both number colliding
names in the same way (`assignNames`); they differ in how an alias is written.
-/

namespace Trex.Filesystem

open Bytes (ascii)

/-- `strings.EqualFold`, code point by code point. -/
def foldRune (u : Unicode) (r : Nat) : Nat :=
  if 97 ≤ r ∧ r ≤ 122 then r - 32 else if r < 128 then r else u.fold r

def equalFold (u : Unicode) (s t : Bytes) : Bool :=
  decide ((Utf.runes s).map (foldRune u) = (Utf.runes t).map (foldRune u))

/-- The letters, digits and signs that an alias may have. -/
def shortRune (r : Nat) : Bool :=
  decide (65 ≤ r ∧ r ≤ 90 ∨ 48 ≤ r ∧ r ≤ 57 ∨ r = 95 ∨ r = 36 ∨ r = 126)

/-- Upper case, and only what an alias may have. -/
def shortClean (u : Unicode) (value : Bytes) : Bytes :=
  ((Utf.runes (u.upperString value)).filter shortRune).map UInt8.ofNat

/-- A name, split at its last dot unless the name starts with it. -/
def nameParts (name : Bytes) : Bytes × Bytes :=
  let index := name.length - 1 - name.reverse.idxOf 46
  if 46 ∈ name ∧ index > 0 then (name.take index, name.drop (index + 1)) else (name, [])

/-- The base and the extension of the alias. -/
def shortParts (u : Unicode) (name : Bytes) : Bytes × Bytes :=
  let (base, ext) := nameParts name
  let base := shortClean u base
  let base := if base = [] then ascii "FILE" else base
  (base.take 8, (shortClean u ext).take 3)

/-- `strings.TrimRight(s, " ")`. -/
def trimRight (s : Bytes) : Bytes := (s.reverse.dropWhile (· = 32)).reverse

/-- The name is its own alias. -/
def simple83 (u : Unicode) (name base ext : Bytes) : Bool :=
  let want := trimRight base ++ if ext ≠ [] then ascii "." ++ trimRight ext else []
  equalFold u name want && decide (base.length ≤ 8) && decide (ext.length ≤ 3)

def shortName (base ext : Bytes) : Bytes := if ext ≠ [] then base ++ ascii "." ++ ext else base

/-- The base with a number behind it, cut to eight characters. -/
def tailed (base : Bytes) (n : Nat) : Bytes :=
  let suffix := ascii "~" ++ (Nat.toDigits 10 n).map fun c => UInt8.ofNat c.toNat
  base.take (max 1 (8 - suffix.length)) ++ suffix

/-! ## Numbering -/

section

variable {α : Type} [DecidableEq α]

/-- The first number whose alias is free. -/
def firstFree (used : List α) (candidate : Nat → α) : Nat → Nat → Option Nat
  | 0, _ => none
  | turns + 1, n => if candidate n ∈ used then firstFree used candidate turns (n + 1) else some n

/-- The names given out so far and, for each base and extension, the next number. -/
structure Naming (α : Type) where
  used : List α := []
  nextSuffix : List ((Bytes × Bytes) × Nat) := []

/-- The alias of one name; `write base ext` is how an alias is written. -/
def assignName (u : Unicode) (write : Bytes → Bytes → α) (s : Naming α) (name : Bytes) :
    Option (α × Naming α) :=
  let (base, ext) := shortParts u name
  if simple83 u name base ext ∧ write base ext ∉ s.used then
    some (write base ext, { s with used := write base ext :: s.used })
  else
    let candidate := fun n => write (tailed base n) ext
    let n := max 1 ((s.nextSuffix.lookup (base, ext)).getD 0)
    (firstFree s.used candidate (s.used.length + 1) n).map fun n =>
      (candidate n, ⟨candidate n :: s.used, ((base, ext), n + 1) :: s.nextSuffix⟩)

/-- The aliases of the names of one directory, in their order.  Without a free number the
loop of the source does not end. -/
def assignNames (u : Unicode) (write : Bytes → Bytes → α) : Naming α → List Bytes → Option (List α)
  | _, [] => some []
  | s, name :: names =>
    match assignName u write s name with
    | none => none
    | some (short, s) => (assignNames u write s names).map (short :: ·)

end

/-- The aliases of the names of one directory. -/
def assignShortNames (u : Unicode) (names : List Bytes) : List Bytes :=
  (assignNames u shortName {} names).getD []

/-- The alias of a name that stands alone; `path.Base` makes a dot of the empty one. -/
def defaultFATShortName (u : Unicode) (name : Bytes) : Bytes :=
  (assignShortNames u [if name = [] then ascii "." else name]).headD []

/-! ## The aliases of a tree -/

/-- `path.Base`: the last part of a path, a slash for the root. -/
def pathBase (name : List Bytes) : Bytes := name.getLastD (ascii "/")

/-- The aliases of the names in one directory; a file stored at the root is one of its own siblings. -/
def fatGroup (u : Unicode) (names : List (List Bytes)) (parent : List Bytes) :
    List (List Bytes × Bytes) :=
  let group := (names.filter fun name => name.dropLast = parent).insertionSort fun a b =>
    u.lowerString (pathBase a) ≤ u.lowerString (pathBase b)
  group.zip (assignShortNames u (group.map pathBase))

/-- The aliases of all paths, directory by directory. -/
def fatIndex (u : Unicode) (names : List (List Bytes)) : List (List Bytes × Bytes) :=
  (names.map List.dropLast).dedup.flatMap (fatGroup u names)

end Trex.Filesystem
