import Trex.Lib.Slice

/-!
# Block devices

The part of `block/device.go` and `block/star/device.go` that the overlay and the NBD server use.  After
`ValidateRange` no sum passes the device size, so no `int64` wraps: offsets are `Int` where they may be
negative and `Nat` behind the check.
-/

namespace Trex.Block

open Slice

/-- The error values of the block layer, with `.error` as their `Error()` text. -/
inductive BlockError where
  | readOnly
  | unsupported
  | outOfRange
  | eof
  | unexpectedEOF
  | capacity (limit allocated requested : Int)
  | overlaySealed
  | activeLeases (n : Int)
  | overlaySizes
  | overlayChunkLimit
  | overlayChunkAlign
  /-- any other error of an underlying device -/
  | other (text : String)
  deriving DecidableEq, Repr

/-- The text of an error. -/
def BlockError.error : BlockError → String
  | .readOnly => "block device is read-only"
  | .unsupported => "block operation is unsupported"
  | .outOfRange => "block range is out of bounds"
  | .eof => "EOF"
  | .unexpectedEOF => "unexpected EOF"
  | .capacity limit allocated requested =>
      "block overlay capacity exceeded: allocated=" ++ toString allocated ++
        " requested=" ++ toString requested ++ " limit=" ++ toString limit
  | .overlaySealed => "block overlay is sealed"
  | .activeLeases n => "block overlay has " ++ toString n ++ " active lease(s)"
  | .overlaySizes => "block.overlay: max_dirty_bytes and chunk_size must be positive"
  | .overlayChunkLimit => "block.overlay: chunk_size exceeds max_dirty_bytes"
  | .overlayChunkAlign => "block.overlay: chunk_size must be a multiple of the logical block size"
  | .other text => text

/-- The check that every operation makes first. -/
def validateRange (size off length : Int) : Except BlockError Unit :=
  if size < 0 ∨ off < 0 ∨ length < 0 ∨ off > size ∨ length > size - off then .error .outOfRange
  else .ok ()

/-- The check passes exactly for ranges inside the device. -/
lemma validateRange_eq_ok_iff (size off len : Int) :
    validateRange size off len = .ok () ↔ 0 ≤ off ∧ 0 ≤ len ∧ off + len ≤ size := by
  unfold validateRange
  split
  · simp; omega
  · simp; omega

/-- An immutable device under an overlay: its contents and logical block size. -/
structure Base where
  data : List UInt8
  logicalBlockSize : Nat

/-- What the base answers during one call: a prefix of the window, perhaps with an error. The bytes stay the same. -/
structure BaseRead (b : Base) where
  readAt : Nat → Nat → List UInt8 × Option BlockError
  faithful : ∀ off n, ∃ k, k ≤ n ∧ (readAt off n).1 = slice b.data off k

/-- A base that reads everything. -/
def Base.answers (b : Base) : BaseRead b :=
  ⟨fun off n => (slice b.data off n, none), fun _ n => ⟨n, Nat.le_refl n, rfl⟩⟩

/-- `ReadFullAt`: each turn that goes on has delivered a byte, so `n` turns are enough for `n` bytes. -/
def readFullLoop (readAt : Nat → Nat → List UInt8 × Option BlockError) :
    Nat → Nat → Nat → List UInt8 × Option BlockError
  | _, _, 0 => ([], none)
  | 0, _, _ + 1 => ([], some .unexpectedEOF)
  | turns + 1, off, n + 1 =>
      let (got, err) := readAt off (n + 1)
      match err with
      | some e => if e = .eof ∧ got.length = n + 1 then (got, none) else (got, some e)
      | none =>
        if got.length = 0 then (got, some .unexpectedEOF)
        else
          let (rest, err) := readFullLoop readAt turns (off + got.length) (n + 1 - got.length)
          (got ++ rest, err)

/-- Reads until all bytes are there or the reader gives an error. -/
def readFullAt (readAt : Nat → Nat → List UInt8 × Option BlockError) (off n : Nat) :
    List UInt8 × Option BlockError :=
  readFullLoop readAt n off n

/-- A full read without an error gives the whole part, when each read gives the start of its part. -/
lemma readFullLoop_part {readAt : Nat → Nat → List UInt8 × Option BlockError} {size : Nat}
    {part : Nat → Nat → List UInt8} (hlength : ∀ off n, off + n ≤ size → (part off n).length = n)
    (hadd : ∀ off m n, part off (m + n) = part off m ++ part (off + m) n)
    (hfaith : ∀ off n, off + n ≤ size → ∃ k, k ≤ n ∧ (readAt off n).1 = part off k)
    (turns off n : Nat) (hn : off + n ≤ size) (p : List UInt8)
    (h : readFullLoop readAt turns off n = (p, none)) : p = part off n := by
  induction turns generalizing off n p with
  | zero =>
    cases n with
    | zero =>
      simp [readFullLoop] at h
      rw [h, List.eq_nil_of_length_eq_zero (hlength off 0 hn)]
    | succ n => simp [readFullLoop] at h
  | succ turns ih =>
  cases n with
  | zero =>
    simp [readFullLoop] at h
    rw [h, List.eq_nil_of_length_eq_zero (hlength off 0 hn)]
  | succ n =>
  obtain ⟨k, hk, hgot⟩ := hfaith off (n + 1) hn
  have hlen : (readAt off (n + 1)).1.length = k := by rw [hgot, hlength _ _ (by omega)]
  simp only [readFullLoop] at h
  split at h
  · split at h
    next he =>
      have hfull : (readAt off (n + 1)).1.length = n + 1 := he.2
      simp only [Prod.mk.injEq, and_true] at h
      rw [← h, hgot, show k = n + 1 by omega]
    · simp at h
  split at h
  · simp at h
  next hne =>
  rw [hlen] at h hne
  generalize hr : readFullLoop readAt turns (off + k) (n + 1 - k) = r at h
  obtain ⟨rest, err⟩ := r
  obtain ⟨rfl, rfl⟩ := Prod.mk.inj h
  rw [ih _ _ (by omega) rest hr, hgot, ← hadd]
  congr 1
  omega

/-- A full read of the base without an error is right. -/
lemma readFullAt_eq {b : Base} (rd : BaseRead b) (off n : Nat) (hn : off + n ≤ b.data.length)
    (p : List UInt8) (h : readFullAt rd.readAt off n = (p, none)) : p = slice b.data off n :=
  readFullLoop_part (length_slice b.data) (slice_add b.data) (fun off n _ => rd.faithful off n)
    n off n hn p h

end Trex.Block
