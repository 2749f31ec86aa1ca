import Trex.Block.OverlayRefine

/-!
# Runs of the overlay refine a flat disk

`Refines s a` ties a device, its heap and its snapshots to the flat disk `a`.  Every call keeps it
(`Refines.step`), so it holds after any run; a call that fails changes nothing (`step_failed`).
-/

namespace Trex.Block

open List OverlayBlockDevice Sys

open Slice

variable {b : Base}

/-! ## The relation -/

/-- A snapshot shows the disk of the moment at which it was taken. -/
structure SnapshotOk (m : Heap (List UInt8)) (snap : OverlaySnapshotBlockDevice b)
    (disk : List UInt8) : Prop where
  chunks : ChunksOk b m snap.chunkSize snap.chunks.lookup
  len : disk.length = b.data.length
  view : ∀ i, i < disk.length → viewByte b m snap.chunkSize snap.chunks.lookup i = disk[i]?

/-- The device shows the flat disk, and its snapshots show the flat snapshots. -/
structure Refines (s : Sys b) (a : Flat) : Prop where
  dev : DeviceOk s.heap s.dev
  len : a.disk.length = b.data.length
  view : ∀ i, i < a.disk.length → s.dev.view s.heap i = a.disk[i]?
  committed : s.dev.committed = a.committed
  snaps : List.Forall₂ (SnapshotOk s.heap) s.snaps a.snaps

variable {m m' : Heap (List UInt8)} {d d' : OverlayBlockDevice b} {s : Sys b} {a : Flat}

lemma SnapshotOk.mono {snap : OverlaySnapshotBlockDevice b} {c : List UInt8}
    (h : SnapshotOk m snap c) (he : m.Extends m') : SnapshotOk m' snap c := by
  refine ⟨h.chunks.mono he, h.len, fun i hi => ?_⟩
  rw [h.chunks.viewByte_mono he, h.view i hi]

/-- Calls that change counters and the trace only. -/
structure SameDisk (d d' : OverlayBlockDevice b) : Prop where
  chunkSize : d'.chunkSize = d.chunkSize
  chunks : d'.chunks = d.chunks
  dirtyBytes : d'.dirtyBytes = d.dirtyBytes
  maxDirty : d'.maxDirty = d.maxDirty

lemma SameDisk.look (h : SameDisk d d') : d'.look = d.look := by
  funext k
  simp [OverlayBlockDevice.look, h.chunks]

lemma SameDisk.view (h : SameDisk d d') (m : Heap (List UInt8)) : d'.view m = d.view m := by
  unfold OverlayBlockDevice.view
  rw [h.look, h.chunkSize]

lemma SameDisk.deviceOk (h : SameDisk d d') (hd : DeviceOk m d) : DeviceOk m d' := by
  refine ⟨by rw [h.look, h.chunkSize]; exact hd.chunks, ?_, ?_⟩
  · rw [h.dirtyBytes, hd.dirty]
    unfold storedBytes
    rw [h.chunks]
  · rw [h.dirtyBytes, h.maxDirty]
    exact hd.cap

lemma recordOperation_same (d : OverlayBlockDevice b) (kind : OperationKind) (off len : Int) :
    SameDisk d (d.recordOperation kind off len) ∧
      (d.recordOperation kind off len).committed = d.committed := by
  unfold recordOperation
  split <;> exact ⟨⟨rfl, rfl, rfl, rfl⟩, rfl⟩

/-! ## One call -/

/-- A read changes counters only, and nothing if it fails. -/
lemma readAt_same (m : Heap (List UInt8)) (d : OverlayBlockDevice b) (rd : BaseRead b) (off : Int) (n : Nat) :
    SameDisk d (d.readAt m rd off n).1 ∧ (d.readAt m rd off n).1.committed = d.committed ∧
      ((d.readAt m rd off n).2.2 ≠ none → (d.readAt m rd off n).1 = d) := by
  unfold readAt
  split
  · exact ⟨⟨rfl, rfl, rfl, rfl⟩, rfl, fun _ => rfl⟩
  split
  · exact ⟨⟨rfl, rfl, rfl, rfl⟩, rfl, fun _ => rfl⟩
  · split
    · exact ⟨⟨rfl, rfl, rfl, rfl⟩, rfl, fun _ => rfl⟩
    · obtain ⟨h1, h2⟩ := recordOperation_same { d with
        reads := d.reads + 1, readBytes := d.readBytes + _ } .read off _
      exact ⟨{ h1 with }, h2, fun h => absurd rfl h⟩

/-- A read without an error shows the disk. -/
lemma readAt_shows (d : OverlayBlockDevice b) (h : ChunksOk b m d.chunkSize d.look)
    (rd : BaseRead b) (off : Int) (n : Nat) (herr : (d.readAt m rd off n).2.2 = none) :
    off.toNat + n ≤ b.data.length ∧ Shows (d.view m) off.toNat (d.readAt m rd off n).2.1 n := by
  unfold readAt at *
  split at herr
  · simp at herr
  next hv =>
  rw [validateRange_eq_ok_iff] at hv
  refine ⟨by omega, ?_⟩
  split at herr
  next hn =>
    subst hn
    exact Shows.nil _ _
  · split at herr
    · simp at herr
    next hn _ p hp =>
      rw [if_neg hn]
      exact d.readLoop_shows h rd n off.toNat n (by omega) p hp

/-- A read of a snapshot without an error shows its disk. -/
lemma snapshot_readAt_shows (d : OverlaySnapshotBlockDevice b)
    (h : ChunksOk b m d.chunkSize d.chunks.lookup) (rd : BaseRead b) (off : Int) (n : Nat)
    (herr : (d.readAt m rd off n).2 = none) : off.toNat + n ≤ b.data.length ∧
      Shows (viewByte b m d.chunkSize d.chunks.lookup) off.toNat (d.readAt m rd off n).1 n := by
  unfold OverlaySnapshotBlockDevice.readAt at *
  split at herr
  · simp at herr
  next hv =>
    rw [validateRange_eq_ok_iff] at hv
    exact ⟨by omega, d.readLoop_shows h rd n off.toNat n (by omega) _ (Prod.ext rfl herr)⟩

/-- What a write or a zeroing of `src` at `off` may do. -/
structure UpdateOk (m : Heap (List UInt8)) (d : OverlayBlockDevice b) (off : Int)
    (src : List UInt8) (r : Heap (List UInt8) × OverlayBlockDevice b × Option BlockError) :
    Prop where
  heap : m.Extends r.1
  failed : r.2.2 ≠ none → r.2.1 = d
  dev : DeviceOk r.1 r.2.1
  committed : r.2.1.committed = d.committed
  maxDirty : r.2.1.maxDirty = d.maxDirty
  done : r.2.2 = none → 0 ≤ off ∧ off.toNat + src.length ≤ b.data.length ∧
    ∀ i, i < b.data.length → r.2.1.view r.1 i = written (d.view m) off.toNat src i
  denied : d.committed = true → src ≠ [] → r.2.2 ≠ none

/-- A refused update leaves the device. -/
lemma UpdateOk.error (h : DeviceOk m d) (he : m.Extends m') (off : Int) (src : List UInt8) (e : BlockError) :
    UpdateOk m d off src (m', d, some e) :=
  ⟨he, fun _ => rfl, h.mono he, rfl, rfl, by simp, by simp⟩

/-- An empty update is in range and changes nothing, committed or not. -/
lemma UpdateOk.empty (h : DeviceOk m d) (off : Int) (h0 : 0 ≤ off) (hoff : off.toNat ≤ b.data.length) :
    UpdateOk m d off [] (m, d, none) := by
  refine ⟨Heap.Extends.refl m, fun _ => rfl, h, rfl, rfl, fun _ => ⟨h0, by simpa using hoff, ?_⟩, ?_⟩
  · intro i hi
    unfold written
    rw [if_neg (by simp only [length_nil]; omega)]
  · intro _ hne
    exact absurd rfl hne

/-- An update that passes its checks writes to the disk. -/
lemma UpdateOk.locked (h : DeviceOk m d) (rd : BaseRead b) (off : Int) (len : Nat)
    (data : List UInt8) (zero : Bool) (hsource : (payload len data zero).length = len)
    (hpos : 0 < len) (h0 : 0 ≤ off) (hn : off.toNat + len ≤ b.data.length) (hcom : ¬ d.committed = true)
    (hd' : (d.updateLocked m rd off.toNat len data zero).2 = .ok d') (f : OverlayBlockDevice b)
    (hf : SameDisk d' f) (hfc : f.committed = d'.committed) : UpdateOk m d off (payload len data zero)
      ((d.updateLocked m rd off.toNat len data zero).1, f, none) := by
  obtain ⟨hext, hok⟩ := updateLocked_spec d h rd off.toNat len data zero hsource hpos hn
  obtain ⟨hdev, hc, hmax, hview⟩ := hok d' hd'
  refine ⟨hext, by simp, hf.deviceOk hdev, by rw [hfc, hc], by rw [hf.maxDirty, hmax], ?_, ?_⟩
  · intro _
    refine ⟨h0, by rw [hsource]; exact hn, fun i hi => ?_⟩
    rw [hf.view]
    exact hview i hi
  · intro hc' _
    exact absurd hc' hcom

section

variable (d : OverlayBlockDevice b)

/-- `WriteAt` writes its bytes or leaves the device. -/
lemma writeAt_ok (h : DeviceOk m d) (rd : BaseRead b) (p : List UInt8)
    (off : Int) : UpdateOk m d off p (d.writeAt m rd p off) := by
  unfold writeAt
  split
  · exact UpdateOk.error h (Heap.Extends.refl m) off p _
  next hv =>
  rw [validateRange_eq_ok_iff] at hv
  split
  next hp =>
    rw [length_eq_zero_iff] at hp
    subst hp
    exact UpdateOk.empty h off hv.1 (by simp at hv; omega)
  split
  · exact UpdateOk.error h (Heap.Extends.refl m) off p _
  next hp hcom =>
  have hext := (updateLocked_spec d h rd off.toNat p.length p false rfl (by omega) (by omega)).1
  split
  next m' e hu =>
    rw [hu] at hext
    exact UpdateOk.error h hext off p e
  next m' d' hu =>
    obtain ⟨h1, h2⟩ := recordOperation_same { d' with
      writes := d'.writes + 1, writeBytes := d'.writeBytes + p.length.toUInt64 } .write off p.length
    have hd' : (d.updateLocked m rd off.toNat p.length p false).2 = .ok d' := by rw [hu]
    have := UpdateOk.locked h rd off p.length p false rfl (by omega) hv.1 (by omega) hcom hd' _
      { h1 with } h2
    rw [hu] at this
    exact this

/-- `ZeroAt` writes zeros or leaves the device. -/
lemma zeroAt_ok (h : DeviceOk m d) (rd : BaseRead b) (off len : Int) :
    UpdateOk m d off (replicate len.toNat 0) (d.zeroAt m rd off len) := by
  unfold zeroAt
  split
  · exact UpdateOk.error h (Heap.Extends.refl m) off _ _
  next hv =>
  rw [validateRange_eq_ok_iff] at hv
  split
  next hl =>
    subst hl
    exact UpdateOk.empty h off hv.1 (by omega)
  split
  · exact UpdateOk.error h (Heap.Extends.refl m) off _ _
  next hl hcom =>
  have hsource : (payload len.toNat [] true).length = len.toNat := by simp [payload]
  have hext := (updateLocked_spec d h rd off.toNat len.toNat [] true hsource (by omega) (by omega)).1
  split
  next m' e hu =>
    rw [hu] at hext
    exact UpdateOk.error h hext off _ e
  next m' d' hu =>
    obtain ⟨h1, h2⟩ := recordOperation_same { d' with
      writes := d'.writes + 1, writeBytes := d'.writeBytes + len.toNat.toUInt64 } .zero off len
    have hd' : (d.updateLocked m rd off.toNat len.toNat [] true).2 = .ok d' := by rw [hu]
    have := UpdateOk.locked h rd off len.toNat [] true hsource (by omega) hv.1 (by omega) hcom hd' _
      { h1 with } h2
    rw [hu] at this
    exact this

lemma zeroAt_length (rd : BaseRead b) (off length : Int)
    (herr : (d.zeroAt m rd off length).2.2 = none) : 0 ≤ length := by
  unfold zeroAt at herr
  split at herr
  · simp at herr
  next hv => exact ((validateRange_eq_ok_iff _ _ _).mp hv).2.1

end

/-! ## Runs -/

/-- Writing to the view is writing to the flat disk. -/
lemma Flat.written_disk (disk src : List UInt8) (view : Nat → Option UInt8) (off i : Nat)
    (hoff : off + src.length ≤ disk.length) (hi : i < disk.length) (hv : view i = disk[i]?) :
    written view off src i = (overwrite disk off src)[i]? := by
  unfold written
  rw [getElem?_overwrite _ _ _ (by omega)]
  by_cases h : off ≤ i ∧ i < off + src.length
  · rw [if_pos h, if_pos (by omega)]
  · rw [if_neg h, if_neg (by omega), hv]

/-- An update keeps the refinement, snapshots included. -/
lemma Refines.update (h : Refines s a) (off : Int) (src : List UInt8)
    (r : Heap (List UInt8) × OverlayBlockDevice b × Option BlockError)
    (hr : UpdateOk s.heap s.dev off src r) (a' : Flat) (hfail : r.2.2 ≠ none → a' = a)
    (hdone : r.2.2 = none → a' = { a with disk := overwrite a.disk off.toNat src }) :
    Refines { s with heap := r.1, dev := r.2.1 } a' := by
  have hsnaps : List.Forall₂ (SnapshotOk r.1) s.snaps a.snaps := h.snaps.imp fun _ _ hs => hs.mono hr.heap
  by_cases herr : r.2.2 = none
  · obtain ⟨h0, hlen, hview⟩ := hr.done herr
    have hlen' : off.toNat + src.length ≤ a.disk.length := by rw [h.len]; exact hlen
    rw [hdone herr]
    refine ⟨hr.dev, ?_, fun i hi => ?_, by rw [hr.committed, h.committed], hsnaps⟩
    · rw [length_overwrite _ _ _ (by omega), h.len]
    · rw [length_overwrite _ _ _ (by omega)] at hi
      rw [hview i (by rw [← h.len]; exact hi)]
      exact Flat.written_disk a.disk src _ _ i hlen' hi (h.view i hi)
  · rw [hfail herr]
    refine ⟨hr.dev, h.len, fun i hi => ?_, by rw [hr.committed, h.committed], hsnaps⟩
    simp only [hr.failed herr]
    rw [← h.view i hi]
    exact h.dev.chunks.viewByte_mono hr.heap i

lemma Refines.same (h : Refines s a) (d : OverlayBlockDevice b) (held : List Bool)
    (hd : SameDisk s.dev d) (hc : d.committed = s.dev.committed) : Refines { s with dev := d, held := held } a := by
  refine ⟨hd.deviceOk h.dev, h.len, fun i hi => ?_, by rw [hc, h.committed], h.snaps⟩
  rw [hd.view]
  exact h.view i hi

/-- One call keeps the refinement. -/
lemma Refines.step (h : Refines s a) (op : Op b) : Refines (s.step op).1 (a.step op (s.step op).2.err) := by
  cases op with
  | readAt off n rd =>
    obtain ⟨h1, h2, _⟩ := readAt_same s.heap s.dev rd off n
    have := h.same _ s.held h1 h2
    simp only [Flat.step]
    exact this
  | writeAt off p rd =>
    simp only [Sys.step]
    apply h.update off p _ (writeAt_ok s.dev h.dev rd p off)
    · intro herr
      cases he : (s.dev.writeAt s.heap rd p off).2.2 with
      | none => exact absurd he herr
      | some e => rfl
    · intro herr
      rw [herr]
      rfl
  | zeroAt off length rd =>
    simp only [Sys.step]
    apply h.update off _ _ (zeroAt_ok s.dev h.dev rd off length)
    · intro herr
      cases he : (s.dev.zeroAt s.heap rd off length).2.2 with
      | none => exact absurd he herr
      | some e => rfl
    · intro herr
      rw [herr]
      rfl
  | snapshot =>
    simp only [Sys.step, snapshot]
    by_cases hc : s.dev.committed = true
    · simp only [if_pos hc, Flat.step]
      exact h
    simp only [if_neg hc, Flat.step]
    refine ⟨⟨h.dev.chunks, h.dev.dirty, h.dev.cap⟩, h.len, h.view, h.committed, ?_⟩
    apply rel_append h.snaps
    refine List.Forall₂.cons ?_ List.Forall₂.nil
    have hlook : (s.dev.chunks.entries.foldl (fun chunks e => chunks.insert e.1 e.2.data)
        (∅ : AList fun _ : Nat => Nat)).lookup = s.dev.look :=
      funext fun k => AList.lookup_foldl_insert (·.data) k s.dev.chunks
    refine ⟨?_, h.len, fun i hi => ?_⟩
    · simp only [hlook]
      exact h.dev.chunks
    · simp only [hlook]
      exact h.view i hi
  | commit =>
    simp only [Sys.step, commit]
    split
    · exact h
    · exact ⟨⟨h.dev.chunks, h.dev.dirty, h.dev.cap⟩, h.len, h.view, rfl, h.snaps⟩
  | acquire =>
    simp only [Sys.step, acquire]
    split <;> exact h.same _ _ ⟨rfl, rfl, rfl, rfl⟩ rfl
  | release k =>
    simp only [Sys.step]
    split
    · exact h.same _ _ ⟨rfl, rfl, rfl, rfl⟩ rfl
    · exact h
  | readSnapshot k off n rd =>
    simp only [Sys.step]
    split <;> exact h

/-- What a failed call leaves behind: buffers, and nothing that refers to them. -/
structure Unchanged (s s' : Sys b) : Prop where
  dev : s'.dev = s.dev
  snaps : s'.snaps = s.snaps
  held : s'.held = s.held
  heap : s.heap.Extends s'.heap

/-- A failed call leaves device, snapshots and leases. -/
lemma step_failed (h : Refines s a) (op : Op b) (herr : (s.step op).2.err ≠ none) : Unchanged s (s.step op).1 := by
  cases op with
  | readAt off n rd => exact ⟨(readAt_same s.heap s.dev rd off n).2.2 herr, rfl, rfl, Heap.Extends.refl _⟩
  | writeAt off p rd =>
    have hw := writeAt_ok s.dev h.dev rd p off
    exact ⟨hw.failed herr, rfl, rfl, hw.heap⟩
  | zeroAt off len rd =>
    have hz := zeroAt_ok s.dev h.dev rd off len
    exact ⟨hz.failed herr, rfl, rfl, hz.heap⟩
  | snapshot =>
    simp only [step, snapshot] at herr ⊢
    by_cases hc : s.dev.committed = true
    · simp only [if_pos hc]; exact ⟨rfl, rfl, rfl, Heap.Extends.refl _⟩
    · simp only [if_neg hc] at herr; exact absurd rfl herr
  | commit =>
    simp only [step, commit] at herr ⊢
    by_cases hl : s.dev.leases ≠ 0
    · simp only [if_pos hl]; exact ⟨rfl, rfl, rfl, Heap.Extends.refl _⟩
    · simp only [if_neg hl] at herr; exact absurd rfl herr
  | acquire =>
    simp only [step, acquire] at herr ⊢
    by_cases hc : s.dev.committed = true
    · simp only [if_pos hc]; exact ⟨rfl, rfl, rfl, Heap.Extends.refl _⟩
    · simp only [if_neg hc] at herr; exact absurd rfl herr
  | release k =>
    simp only [step] at herr
    split at herr <;> exact absurd rfl herr
  | readSnapshot k off n rd =>
    simp only [step]
    split <;> exact ⟨rfl, rfl, rfl, Heap.Extends.refl _⟩

lemma step_maxDirty (h : Refines s a) (op : Op b) : (s.step op).1.dev.maxDirty = s.dev.maxDirty := by
  cases op with
  | readAt off n rd => exact (readAt_same s.heap s.dev rd off n).1.maxDirty
  | writeAt off p rd => exact (writeAt_ok s.dev h.dev rd p off).maxDirty
  | zeroAt off len rd => exact (zeroAt_ok s.dev h.dev rd off len).maxDirty
  | snapshot =>
    simp only [step, snapshot]
    by_cases hc : s.dev.committed = true
    · simp only [if_pos hc]
    · simp only [if_neg hc]
  | commit => simp only [step, commit]; split <;> rfl
  | acquire => simp only [step, acquire]; split <;> rfl
  | release k => simp only [step]; split <;> rfl
  | readSnapshot k off n rd => simp only [step]; split <;> rfl

/-- The flat disk of a base. -/
def Flat.init (b : Base) : Flat := ⟨b.data, [], false⟩

/-- A new overlay shows its base. -/
lemma refines_init (maxDirty chunkSize : Int) (traceLimit : Nat) (d : OverlayBlockDevice b)
    (hd : newOverlayBlockDevice b maxDirty chunkSize traceLimit = .ok d) :
    Refines (init d) (Flat.init b) ∧ d.maxDirty = maxDirty := by
  unfold newOverlayBlockDevice at hd
  split at hd
  · cases hd
  split at hd
  · cases hd
  split at hd
  · cases hd
  next hpos _ _ =>
  simp only [Except.ok.injEq] at hd
  subst hd
  have hlook : ∀ k, (init (b := b) ⟨maxDirty, chunkSize.toNat, ∅, 0, 1, false, 0, 0, 0, 0, 0, 0,
      0, traceLimit, 0, []⟩).dev.look k = none := fun k => rfl
  refine ⟨⟨⟨⟨?_, ?_, ?_⟩, rfl, ?_⟩, rfl, fun i hi => rfl, rfl, List.Forall₂.nil⟩, rfl⟩
  · show 0 < chunkSize.toNat
    omega
  · intro k a hk
    rw [hlook k] at hk
    cases hk
  · intro k a hk
    rw [hlook k] at hk
    cases hk
  · show (0 : Int) ≤ maxDirty
    omega

/-- Every sequence of calls keeps the refinement. -/
lemma refines_run (maxDirty : Int) (s : Sys b) (a : Flat) (h : Refines s a)
    (hmax : s.dev.maxDirty = maxDirty) (ops : List (Op b)) : Refines (run (s, a) ops).1 (run (s, a) ops).2 ∧
      (run (s, a) ops).1.dev.maxDirty = maxDirty := by
  induction ops generalizing s a with
  | nil => exact ⟨h, hmax⟩
  | cons op ops ih => exact ih _ _ (h.step op) (by rw [step_maxDirty h op, hmax])

/-- **The overlay is a flat disk.**  After any run on a new device `a`, which the successful updates made of
the base, is what is read; a failed call changes nothing, and a snapshot keeps its disk. -/
theorem overlay_refines_flat_disk (b : Base) (maxDirty chunkSize : Int) (traceLimit : Nat)
    (d : OverlayBlockDevice b)
    (hd : newOverlayBlockDevice b maxDirty chunkSize traceLimit = .ok d) (ops : List (Op b))
    (s : Sys b) (a : Flat) (hrun : run (Sys.init d, Flat.init b) ops = (s, a)) :
    (∀ off n rd, (s.step (.readAt off n rd)).2.err = none →
      (s.step (.readAt off n rd)).2.data.length = n ∧
      (s.step (.readAt off n rd)).2.data = slice a.disk off.toNat n) ∧
    (∀ op, (s.step op).2.err ≠ none → Unchanged s (s.step op).1) ∧
    (∀ k off n rd, (s.step (.readSnapshot k off n rd)).2.err = none →
      ∃ c, a.snaps[k]? = some c ∧ (s.step (.readSnapshot k off n rd)).2.data.length = n ∧
        (s.step (.readSnapshot k off n rd)).2.data = slice c off.toNat n) ∧
    (a.committed = true →
      (∀ off p rd, p ≠ [] → (s.step (.writeAt off p rd)).2.err ≠ none) ∧
      (∀ off length rd, length ≠ 0 → (s.step (.zeroAt off length rd)).2.err ≠ none)) ∧
    s.dev.dirtyBytes = storedBytes s.heap s.dev ∧ s.dev.dirtyBytes ≤ maxDirty := by
  obtain ⟨hinit, hmax⟩ := refines_init maxDirty chunkSize traceLimit d hd
  obtain ⟨h, hmax⟩ := refines_run maxDirty _ _ hinit hmax ops
  rw [hrun] at h hmax
  refine ⟨fun off n rd herr => ?_, fun op herr => step_failed h op herr, fun k off n rd herr => ?_,
    fun hc => ⟨fun off p rd hp => ?_, fun off length rd hl => ?_⟩, h.dev.dirty, hmax ▸ h.dev.cap⟩
  · obtain ⟨hn, hshow⟩ := readAt_shows s.dev h.dev.chunks rd off n herr
    exact ⟨hshow.1, hshow.eq_slice (by rw [h.len]; exact hn) h.view⟩
  · simp only [Sys.step] at herr ⊢
    cases hk : s.snaps[k]? with
    | none => simp [hk] at herr
    | some snap =>
    simp only [hk] at herr ⊢
    have hkl : k < s.snaps.length := (List.getElem?_eq_some_iff.mp hk).1
    have hka : k < a.snaps.length := by rw [← h.snaps.length_eq]; exact hkl
    have hsnap : SnapshotOk s.heap snap a.snaps[k] := by
      have := h.snaps.get hkl hka
      rwa [List.get_eq_getElem, List.get_eq_getElem, (List.getElem?_eq_some_iff.mp hk).2] at this
    obtain ⟨hn, hshow⟩ := snapshot_readAt_shows snap hsnap.chunks rd off n herr
    refine ⟨a.snaps[k], List.getElem?_eq_getElem hka, hshow.1, ?_⟩
    exact hshow.eq_slice (by rw [hsnap.len]; exact hn) hsnap.view
  · exact (writeAt_ok s.dev h.dev rd p off).denied (by rw [h.committed, hc]) hp
  · intro herr
    have hpos := zeroAt_length s.dev rd off length herr
    refine (zeroAt_ok s.dev h.dev rd off length).denied (by rw [h.committed, hc]) ?_ herr
    simp only [ne_eq, List.replicate_eq_nil_iff]
    omega

/-- A write and a snapshot on a disk of four bytes, and a read of all of them. -/
theorem overlay_refines_flat_disk_after_write :
    let b : Base := ⟨[1, 2, 3, 4], 2⟩
    ∃ d s a, newOverlayBlockDevice b 4 2 0 = .ok d ∧
      run (Sys.init d, Flat.init b) [.writeAt 1 [9, 8] b.answers, .snapshot] = (s, a) ∧
      a.disk = [1, 9, 8, 4] ∧ (s.step (.readAt 0 4 b.answers)).2.data = slice a.disk 0 4 :=
  ⟨_, _, _, rfl, rfl, rfl, ((overlay_refines_flat_disk ⟨[1, 2, 3, 4], 2⟩ 4 2 0 _ rfl
      [.writeAt 1 [9, 8] (Base.answers _), .snapshot] _ _ rfl).1 0 4 _ rfl).2⟩

/-- A committed device still accepts a write of no bytes: the empty write returns
before the device looks whether it is committed. -/
theorem committed_overlay_accepts_empty_write :
    ¬ ∀ (b : Base) (maxDirty chunkSize : Int) (traceLimit : Nat) (d : OverlayBlockDevice b),
      newOverlayBlockDevice b maxDirty chunkSize traceLimit = .ok d →
      ∀ (ops : List (Op b)) (s : Sys b) (a : Flat), run (Sys.init d, Flat.init b) ops = (s, a) →
        a.committed = true → ∀ off p rd, (s.step (.writeAt off p rd)).2.err ≠ none := by
  intro h
  exact h ⟨[1, 2, 3, 4], 2⟩ 4 2 0 _ rfl [.commit] _ _ rfl rfl 0 [] (Base.answers _) rfl

end Trex.Block
