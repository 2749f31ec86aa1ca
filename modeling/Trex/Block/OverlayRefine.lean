import Mathlib.Algebra.Ring.Int.Defs
import Trex.Lib.AListSum
import Trex.Lib.Checked
import Trex.Block.Overlay

/-!
# What the overlay shows and what an update does to it

Byte `i` is in the chunk that covers it, or in the base (`viewByte`).  A read returns these bytes, an
update replaces those of its range and keeps the dirty byte counter (`updateLocked_spec`); the heart is
`stageChunk_spec`.
-/

namespace Trex.Block

open List Option OverlayBlockDevice

open Slice

variable {b : Base}

/-! ## Reading through chunks -/

/-- Byte `i` of a device whose chunk `k` is stored at address `look k`. -/
def viewByte (b : Base) (m : Heap (List UInt8)) (cs : Nat) (look : Nat → Option Nat) (i : Nat) :
    Option UInt8 :=
  match look (i / cs) with
  | some a => (buffer m a)[i % cs]?
  | none => b.data[i]?

/-- Stored chunks have valid addresses and the length of their place on the disk. -/
structure ChunksOk (b : Base) (m : Heap (List UInt8)) (cs : Nat) (look : Nat → Option Nat) :
    Prop where
  pos : 0 < cs
  addr : ∀ k a, look k = some a → a < m.size
  len : ∀ k a, look k = some a → (buffer m a).length = min cs (b.data.length - k * cs)

/-- `p` holds the `n` bytes that the view has at `i`. -/
def Shows (view : Nat → Option UInt8) (i : Nat) (p : List UInt8) (n : Nat) : Prop :=
  p.length = n ∧ ∀ j, j < n → p[j]? = view (i + j)

lemma Shows.nil (view : Nat → Option UInt8) (i : Nat) : Shows view i [] 0 :=
  ⟨rfl, fun j hj => by omega⟩

/-- Two reads in a row are one read. -/
lemma Shows.append {view : Nat → Option UInt8} {i m n : Nat} {p q : List UInt8}
    (hp : Shows view i p m) (hq : Shows view (i + m) q n) : Shows view i (p ++ q) (m + n) := by
  refine ⟨by rw [length_append, hp.1, hq.1], fun j hj => ?_⟩
  rcases lt_or_ge j m with h | h
  · rw [getElem?_append_left (by rw [hp.1]; exact h), hp.2 j h]
  · rw [getElem?_append_right (by rw [hp.1]; exact h), hp.1, hq.2 (j - m) (by omega)]
    congr 1
    omega

variable {i n : Nat} {m m' : Heap (List UInt8)} {d : OverlayBlockDevice b}

/-- What is shown of a disk is a slice of it. -/
lemma Shows.eq_slice {view : Nat → Option UInt8} {p disk : List UInt8} (h : Shows view i p n)
    (hn : i + n ≤ disk.length) (hd : ∀ k, k < disk.length → view k = disk[k]?) : p = slice disk i n := by
  apply ext_of_lt
  · rw [h.1, length_slice _ _ _ hn]
  · intro j hj
    rw [h.1] at hj
    rw [h.2 j hj, hd _ (by omega), getElem?_slice, if_pos hj]

lemma buffer_extends (h : m.Extends m') (a : Nat) (ha : a < m.size) : buffer m' a = buffer m a := by
  unfold buffer
  rw [h.2 a ha]

section
variable {m m' : Heap (List UInt8)} {cs : Nat} {look : Nat → Option Nat}

/-- New buffers do not matter to the chunks that are there. -/
lemma ChunksOk.mono (h : ChunksOk b m cs look) (he : m.Extends m') : ChunksOk b m' cs look := by
  refine ⟨h.pos, fun k a hk => lt_of_lt_of_le (h.addr k a hk) he.1, fun k a hk => ?_⟩
  rw [buffer_extends he a (h.addr k a hk), h.len k a hk]

/-- New buffers do not change what is seen. -/
lemma ChunksOk.viewByte_mono (h : ChunksOk b m cs look) (he : m.Extends m') (i : Nat) :
    viewByte b m' cs look i = viewByte b m cs look i := by
  unfold viewByte
  cases hl : look (i / cs) with
  | none => rfl
  | some a => simp only [buffer_extends he a (h.addr _ a hl)]

/-- One turn of a read loop stays inside one chunk and makes progress. -/
lemma turn_bounds (hcs : 0 < cs) (size abs n : Nat) (hn : abs + (n + 1) ≤ size) :
    0 < min (n + 1) (min cs (size - abs / cs * cs) - abs % cs) ∧
    abs % cs + min (n + 1) (min cs (size - abs / cs * cs) - abs % cs) ≤
      min cs (size - abs / cs * cs) := by
  have h1 := Nat.mod_lt abs hcs
  have h2 := Nat.div_add_mod abs cs
  rw [mul_comm] at h2
  omega

lemma div_mod_in_chunk (cs abs j : Nat) (hj : abs % cs + j < cs) :
    (abs + j) / cs = abs / cs ∧ (abs + j) % cs = abs % cs + j := by
  have h2 := Nat.div_add_mod abs cs
  have e : abs + j = abs % cs + j + cs * (abs / cs) := by omega
  constructor
  · rw [e, Nat.add_mul_div_left _ _ (by omega), Nat.div_eq_of_lt hj, zero_add]
  · rw [e, Nat.add_mul_mod_self_left, Nat.mod_eq_of_lt hj]

/-- A piece inside one chunk comes from its buffer or from the base. -/
lemma fetch_shows (h : ChunksOk b m cs look) (rd : BaseRead b) (abs n : Nat) (hn : abs + n ≤ b.data.length)
    (hw : abs % cs + n ≤ min cs (b.data.length - abs / cs * cs)) (got : List UInt8)
    (hgot : fetch m rd (look (abs / cs)) abs (abs % cs) n = (got, none)) :
    Shows (viewByte b m cs look) abs got n := by
  have hview : ∀ j, j < n → viewByte b m cs look (abs + j) = match look (abs / cs) with
      | some a => (buffer m a)[abs % cs + j]?
      | none => b.data[abs + j]? := by
    intro j hj
    obtain ⟨hd, hm⟩ := div_mod_in_chunk cs abs j (by omega)
    unfold viewByte
    rw [hd, hm]
  cases hl : look (abs / cs) with
  | none =>
    rw [hl] at hgot hview
    have hgot := readFullAt_eq rd abs n hn got hgot
    refine ⟨by rw [hgot, length_slice _ _ _ hn], fun j hj => ?_⟩
    rw [hview j hj, hgot, getElem?_slice, if_pos hj]
  | some a =>
  rw [hl] at hgot hview
  simp only [fetch, Prod.mk.injEq, and_true] at hgot
  have hlen := h.len _ a hl
  refine ⟨by rw [← hgot, length_slice _ _ _ (by omega)], fun j hj => ?_⟩
  rw [hview j hj, ← hgot, getElem?_slice, if_pos hj]

end

/-- A read without an error shows the disk; the loop goes chunk by chunk. -/
lemma OverlayBlockDevice.readLoop_shows (d : OverlayBlockDevice b)
    (h : ChunksOk b m d.chunkSize d.look) (rd : BaseRead b) (turns abs n : Nat)
    (hn : abs + n ≤ b.data.length) (p : List UInt8) (hp : d.readLoop m rd turns abs n = (p, none)) :
    Shows (viewByte b m d.chunkSize d.look) abs p n := by
  induction turns generalizing abs n p with
  | zero =>
    cases n with
    | zero => simp only [readLoop, Prod.mk.injEq, and_true] at hp; rw [← hp]; exact Shows.nil _ _
    | succ n => simp [readLoop] at hp
  | succ turns ih =>
  cases n with
  | zero => simp only [readLoop, Prod.mk.injEq, and_true] at hp; rw [← hp]; exact Shows.nil _ _
  | succ n =>
  obtain ⟨hpos, hw⟩ := turn_bounds h.pos b.data.length abs n hn
  change 0 < min (n + 1) (d.chunkLength (abs / d.chunkSize) - abs % d.chunkSize) at hpos
  simp only [readLoop] at hp
  rw [if_neg (ne_of_gt hpos)] at hp
  generalize hc : min (n + 1) (d.chunkLength (abs / d.chunkSize) - abs % d.chunkSize) = count at hp hpos
  unfold chunkLength at hc
  rw [hc] at hw
  split at hp
  · simp at hp
  next got hg =>
  obtain ⟨rfl, herr⟩ := Prod.mk.inj hp
  have hrest := ih (abs + count) (n + 1 - count) (by omega) _ (Prod.ext rfl herr)
  have := (fetch_shows h rd abs count (by omega) hw got hg).append hrest
  rwa [show count + (n + 1 - count) = n + 1 by omega] at this

/-- The same for a snapshot. -/
lemma OverlaySnapshotBlockDevice.readLoop_shows (d : OverlaySnapshotBlockDevice b)
    (h : ChunksOk b m d.chunkSize d.chunks.lookup) (rd : BaseRead b) (turns abs n : Nat)
    (hn : abs + n ≤ b.data.length) (p : List UInt8) (hp : d.readLoop m rd turns abs n = (p, none)) :
    Shows (viewByte b m d.chunkSize d.chunks.lookup) abs p n := by
  induction turns generalizing abs n p with
  | zero =>
    cases n with
    | zero => simp only [readLoop, Prod.mk.injEq, and_true] at hp; rw [← hp]; exact Shows.nil _ _
    | succ n => simp [readLoop] at hp
  | succ turns ih =>
  cases n with
  | zero => simp only [readLoop, Prod.mk.injEq, and_true] at hp; rw [← hp]; exact Shows.nil _ _
  | succ n =>
  obtain ⟨hpos, hw⟩ := turn_bounds h.pos b.data.length abs n hn
  simp only [readLoop] at hp
  generalize hc : min (n + 1) (min d.chunkSize (b.data.length -
    abs / d.chunkSize * d.chunkSize) - abs % d.chunkSize) = count at hp hpos hw
  split at hp
  · simp at hp
  next got hg =>
  obtain ⟨rfl, herr⟩ := Prod.mk.inj hp
  have hrest := ih (abs + count) (n + 1 - count) (by omega) _ (Prod.ext rfl herr)
  have := (fetch_shows h rd abs count (by omega) hw got hg).append hrest
  rwa [show count + (n + 1 - count) = n + 1 by omega] at this

/-! ## Staging one chunk -/

/-- The bytes that an operation writes. -/
def payload (length : Nat) (data : List UInt8) (zero : Bool) : List UInt8 :=
  if zero then List.replicate length 0 else data

/-- The view after a write. -/
def written (view : Nat → Option UInt8) (off : Nat) (src : List UInt8) (i : Nat) : Option UInt8 :=
  if off ≤ i ∧ i < off + src.length then src[i - off]? else view i

/-- A byte of the patched chunk is the byte after the write. -/
lemma patched_cell (view : Nat → Option UInt8) (S L off len : Nat) (data : List UInt8)
    (zero : Bool) (hpayload : (payload len data zero).length = len) (src : List UInt8)
    (hsource : Shows view S src L) (h1 : off < S + L) (h2 : S < off + len) (j : Nat) (hj : j < L) :
    (overwrite src (max off S - S) (patchOf off len data zero S L))[j]? =
      written view off (payload len data zero) (S + j) := by
  have hpat : patchOf off len data zero S L =
      slice (payload len data zero) (max off S - off) (min (off + len) (S + L) - max off S) := by
    unfold patchOf payload
    cases zero with
    | false => rfl
    | true =>
    simp only [if_true, slice, drop_replicate, take_replicate]
    congr 1
    omega
  have hlen : (slice (payload len data zero) (max off S - off)
      (min (off + len) (S + L) - max off S)).length = min (off + len) (S + L) - max off S := by
    apply length_slice
    omega
  rw [hpat, getElem?_overwrite _ _ _ (by rw [hsource.1]; omega), hlen, hsource.1]
  unfold written
  rw [hpayload]
  by_cases hin : off ≤ S + j ∧ S + j < off + len
  · rw [if_pos (by omega), if_pos hin, getElem?_slice, if_pos (by omega)]
    congr 1
    omega
  · rw [if_neg (by omega), if_neg hin, hsource.2 j hj]

/-- The candidate buffer holds the chunk after the write. -/
lemma candidate_spec (m : Heap (List UInt8)) (view : Nat → Option UInt8) (S L off len : Nat)
    (data : List UInt8) (zero : Bool) (hpayload : (payload len data zero).length = len)
    (source : List UInt8) (hsource : Shows view S source L) (h1 : off < S + L)
    (h2 : S < off + len) (m' : Heap (List UInt8))
    (hm' : m' = ((m.alloc (replicate L 0)).modify m.size (overwrite · 0 source)).modify m.size
      (overwrite · (max off S - S) (patchOf off len data zero S L))) : m.Extends m' ∧ m.size < m'.size ∧
      Shows (written view off (payload len data zero)) S (buffer m' m.size) L := by
  have hfull : overwrite (replicate L (0 : UInt8)) 0 source = source := by simp [overwrite, hsource.1]
  have hbuf : buffer m' m.size = overwrite source (max off S - S) (patchOf off len data zero S L) := by
    unfold buffer
    rw [hm', Heap.read_modify_self, Heap.read_modify_self, Heap.read_alloc_self]
    simp [hfull]
  refine ⟨?_, by rw [hm']; simp, ?_⟩
  · rw [hm']
    exact ((Heap.extends_alloc m _).modify _ _ le_rfl).modify _ _ le_rfl
  · rw [hbuf]
    refine ⟨by rw [length_overwrite _ _ _ (by rw [hsource.1]; omega), hsource.1], fun j hj => ?_⟩
    exact patched_cell view S L off len data zero hpayload source hsource h1 h2 j hj

/-- A staged update of chunk `k`: it stores a buffer that shows the new bytes, or
it stores nothing and the base shows them. -/
def StagedOk (m : Heap (List UInt8)) (d : OverlayBlockDevice b) (view' : Nat → Option UInt8)
    (k : Nat) (u : Update) : Prop :=
  match u.chunk with
  | some c => c.data < m.size ∧ Shows view' (k * d.chunkSize) (buffer m c.data) (d.chunkLength k)
  | none => Shows view' (k * d.chunkSize) (slice b.data (k * d.chunkSize) (d.chunkLength k))
      (d.chunkLength k)

/-- How a staged chunk changes the number of stored bytes. -/
def stagedBytes (d : OverlayBlockDevice b) (k : Nat) (u : Update) : Int :=
  (if u.chunk.isSome then (d.chunkLength k : Int) else 0) -
    (if (d.chunks.lookup k).isSome then (d.chunkLength k : Int) else 0)

lemma StagedOk.mono {view' : Nat → Option UInt8} {k : Nat} {u : Update}
    (h : StagedOk m d view' k u) (he : m.Extends m') : StagedOk m' d view' k u := by
  unfold StagedOk at *
  cases hu : u.chunk with
  | none => rw [hu] at h; exact h
  | some c =>
  rw [hu] at h
  refine ⟨lt_of_lt_of_le h.1 he.1, ?_⟩
  rw [buffer_extends he c.data h.1]
  exact h.2

/-- A touched chunk meets the range. -/
lemma mem_touched (d : OverlayBlockDevice b) (hcs : 0 < d.chunkSize) (off length k : Nat)
    (hpos : 0 < length) (hk : k ∈ d.touched off length) :
    off < k * d.chunkSize + d.chunkSize ∧ k * d.chunkSize < off + length := by
  unfold touched at hk
  rw [mem_range'_1] at hk
  have h1 : off / d.chunkSize < k + 1 := by omega
  have h2 : k ≤ (off + length - 1) / d.chunkSize := by omega
  rw [Nat.div_lt_iff_lt_mul hcs, Nat.add_mul, Nat.one_mul] at h1
  rw [Nat.le_div_iff_mul_le hcs] at h2
  omega

/-- Staging a chunk extends the heap, and what is staged is the chunk after the write. -/
lemma stageChunk_spec (d : OverlayBlockDevice b) (h : ChunksOk b m d.chunkSize d.look)
    (rd : BaseRead b) (off len : Nat) (data : List UInt8) (zero : Bool)
    (hsource : (payload len data zero).length = len) (hpos : 0 < len)
    (hn : off + len ≤ b.data.length) (dirty : Int) (k : Nat) (hk : k ∈ d.touched off len) :
    m.Extends (d.stageChunk m rd off len data zero dirty k).1 ∧
    ∀ u dirty', (d.stageChunk m rd off len data zero dirty k).2 = .ok (u, dirty') →
      StagedOk (d.stageChunk m rd off len data zero dirty k).1 d
        (written (viewByte b m d.chunkSize d.look) off (payload len data zero)) k u ∧
      dirty' = dirty + stagedBytes d k u := by
  obtain ⟨h1, h2⟩ := mem_touched d h.pos off len k hpos hk
  have hL : d.chunkLength k = min d.chunkSize (b.data.length - k * d.chunkSize) := rfl
  have hSL : k * d.chunkSize + d.chunkLength k ≤ b.data.length := by omega
  -- inside chunk `k` the view is that chunk alone
  have hview : ∀ j, j < d.chunkLength k → viewByte b m d.chunkSize d.look (k * d.chunkSize + j) =
        match d.look k with
        | some a => (buffer m a)[j]?
        | none => b.data[k * d.chunkSize + j]? := by
    intro j hj
    have hdiv : (k * d.chunkSize + j) / d.chunkSize = k := by
      rw [mul_comm, Nat.mul_add_div h.pos, Nat.div_eq_of_lt (by omega), add_zero]
    have hmod : (k * d.chunkSize + j) % d.chunkSize = j := by
      rw [mul_comm, Nat.mul_add_mod, Nat.mod_eq_of_lt (by omega)]
    unfold viewByte
    rw [hdiv, hmod]
  unfold stageChunk
  cases hl : d.chunks.lookup k with
  | none =>
    have hlook : d.look k = none := by simp [look, hl]
    rw [hlook] at hview
    simp only
    split
    · exact ⟨Heap.extends_alloc m _, by simp⟩
    next base hb =>
    have hb := readFullAt_eq rd _ _ hSL base hb
    have hbase : Shows (viewByte b m d.chunkSize d.look) (k * d.chunkSize) base
        (d.chunkLength k) := by
      refine ⟨by rw [hb, length_slice _ _ _ hSL], fun j hj => ?_⟩
      rw [hview j hj, hb, getElem?_slice, if_pos hj]
    obtain ⟨hext, hsize, hshow⟩ := candidate_spec m _ _ _ off len data zero hsource base hbase
      (by omega) h2 _ rfl
    split
    next heq =>
      refine ⟨hext, fun u dirty' hu => ?_⟩
      obtain ⟨rfl, rfl⟩ := Checked.ok_pair hu
      refine ⟨?_, by simp [stagedBytes, hl]⟩
      unfold StagedOk
      simp only
      rw [← hb, ← heq]
      exact hshow
    · refine ⟨hext, fun u dirty' hu => ?_⟩
      obtain ⟨rfl, rfl⟩ := Checked.ok_pair hu
      exact ⟨⟨hsize, hshow⟩, by simp [stagedBytes, hl]⟩
  | some current =>
  have hlook : d.look k = some current.data := by simp [look, hl]
  rw [hlook] at hview
  have hcur : buffer (m.alloc (replicate (d.chunkLength k) 0)) current.data =
      buffer m current.data := buffer_extends (Heap.extends_alloc m _) _ (h.addr k _ hlook)
  have hbase : Shows (viewByte b m d.chunkSize d.look) (k * d.chunkSize)
      (buffer m current.data) (d.chunkLength k) :=
    ⟨h.len k _ hlook, fun j hj => (hview j hj).symm⟩
  obtain ⟨hext, hsize, hshow⟩ := candidate_spec m _ _ _ off len data zero hsource _ hbase
    (by omega) h2 _ rfl
  simp only [hcur]
  split
  · split
    · exact ⟨hext, by simp⟩
    next base hb =>
    have hb := readFullAt_eq rd _ _ hSL base hb
    split
    next heq =>
      refine ⟨hext, fun u dirty' hu => ?_⟩
      obtain ⟨rfl, rfl⟩ := Checked.ok_pair hu
      refine ⟨?_, by simp [stagedBytes, hl]; omega⟩
      unfold StagedOk
      simp only
      rw [← hb, ← heq]
      exact hshow
    · refine ⟨hext, fun u dirty' hu => ?_⟩
      obtain ⟨rfl, rfl⟩ := Checked.ok_pair hu
      exact ⟨⟨hsize, hshow⟩, by simp [stagedBytes, hl]⟩
  · refine ⟨hext, fun u dirty' hu => ?_⟩
    obtain ⟨rfl, rfl⟩ := Checked.ok_pair hu
    exact ⟨⟨hsize, hshow⟩, by simp [stagedBytes, hl]⟩

/-! ## Staging a range and committing it -/

/-- The staging loop only adds buffers, and each update it collects is right. -/
lemma stage_spec (d : OverlayBlockDevice b) (m0 : Heap (List UInt8))
    (h : ChunksOk b m0 d.chunkSize d.look) (rd : BaseRead b) (off len : Nat) (data : List UInt8)
    (zero : Bool) (hsource : (payload len data zero).length = len)
    (hpos : 0 < len) (hn : off + len ≤ b.data.length) (ks : List Nat)
    (hks : ∀ k ∈ ks, k ∈ d.touched off len) (m : Heap (List UInt8)) (hm : m0.Extends m) (dirty : Int) :
    m.Extends (d.stage rd off len data zero ks m dirty).1 ∧
    ∀ us dirty', (d.stage rd off len data zero ks m dirty).2 = .ok (us, dirty') → us.map Prod.fst = ks ∧
      (∀ u ∈ us, StagedOk (d.stage rd off len data zero ks m dirty).1 d
        (written (viewByte b m0 d.chunkSize d.look) off (payload len data zero)) u.1 u.2) ∧
      dirty' = dirty + (us.map fun u => stagedBytes d u.1 u.2).sum := by
  induction ks generalizing m dirty with
  | nil =>
    refine ⟨Heap.Extends.refl m, fun us dirty' hus => ?_⟩
    obtain ⟨rfl, rfl⟩ := Checked.ok_pair hus
    simp
  | cons k ks ih =>
  have hchunk := stageChunk_spec d (h.mono hm) rd off len data zero hsource hpos hn dirty k
    (hks k mem_cons_self)
  have hview : viewByte b m d.chunkSize d.look = viewByte b m0 d.chunkSize d.look :=
    funext fun i => h.viewByte_mono hm i
  rw [hview] at hchunk
  simp only [stage]
  generalize d.stageChunk m rd off len data zero dirty k = r at hchunk
  obtain ⟨m1, res⟩ := r
  obtain ⟨hext, hok⟩ := hchunk
  cases res with
  | error e => exact ⟨hext, by simp⟩
  | ok r =>
  obtain ⟨u, dirty1⟩ := r
  obtain ⟨hu, hd1⟩ := hok u dirty1 rfl
  have hrest := ih (fun k' hk' => hks k' (mem_cons_of_mem _ hk')) m1 (hm.trans hext) dirty1
  simp only
  generalize d.stage rd off len data zero ks m1 dirty1 = r at hrest
  obtain ⟨m2, res⟩ := r
  obtain ⟨hext2, hok2⟩ := hrest
  cases res with
  | error e => exact ⟨hext.trans hext2, by simp⟩
  | ok r =>
  obtain ⟨us, dirty2⟩ := r
  obtain ⟨hkeys, hall, hd2⟩ := hok2 us dirty2 rfl
  refine ⟨hext.trans hext2, fun us' dirty' hus => ?_⟩
  obtain ⟨rfl, rfl⟩ := Checked.ok_pair hus
  refine ⟨by simp [hkeys], fun u' hu' => ?_, ?_⟩
  · rcases mem_cons.mp hu' with rfl | hu'
    · exact hu.mono hext2
    · exact hall u' hu'
  · simp only [map_cons, sum_cons]
    omega

/-- Committing changes only the chunk map and the copy counter. -/
lemma foldl_applyUpdate_frame (m : Heap (List UInt8)) (us : List (Nat × Update)) (d : OverlayBlockDevice b) :
    (us.foldl (applyUpdate m) d).chunkSize = d.chunkSize ∧ (us.foldl (applyUpdate m) d).maxDirty = d.maxDirty ∧
    (us.foldl (applyUpdate m) d).committed = d.committed := by
  induction us generalizing d with
  | nil => simp
  | cons u us ih =>
  simp only [foldl_cons]
  obtain ⟨h1, h2, h3⟩ := ih (applyUpdate m d u)
  rw [h1, h2, h3]
  unfold applyUpdate
  cases u.2.chunk <;> simp

/-- An update changes its own chunk only. -/
lemma lookup_applyUpdate (m : Heap (List UInt8)) (d : OverlayBlockDevice b) (u : Nat × Update)
    (k : Nat) : (applyUpdate m d u).chunks.lookup k = if k = u.1 then u.2.chunk else d.chunks.lookup k := by
  unfold applyUpdate
  by_cases h : k = u.1
  · subst h
    cases u.2.chunk <;> simp
  · cases u.2.chunk with
    | none => simp only [if_neg h]; exact AList.lookup_erase_ne h
    | some c => simp only [if_neg h]; exact AList.lookup_insert_ne h

def chunkBytes (m : Heap (List UInt8)) (c : Option OverlayChunk) : Nat :=
  (c.map fun c => (buffer m c.data).length).getD 0

/-- The bytes of all stored chunks. -/
def storedBytes (m : Heap (List UInt8)) (d : OverlayBlockDevice b) : Nat :=
  AList.total (fun c => (buffer m c.data).length) d.chunks

/-- An update trades the bytes of the old chunk for those of the new one. -/
lemma storedBytes_applyUpdate (m : Heap (List UInt8)) (d : OverlayBlockDevice b) (u : Nat × Update) :
    storedBytes m (applyUpdate m d u) + chunkBytes m (d.chunks.lookup u.1) =
      storedBytes m d + chunkBytes m u.2.chunk := by
  unfold applyUpdate storedBytes chunkBytes
  cases u.2.chunk with
  | none => simpa using AList.total_erase _ u.1 d.chunks
  | some c => simpa using AList.total_insert _ u.1 c d.chunks

/-- All updates together, one for each chunk. -/
lemma foldl_applyUpdate_spec (m : Heap (List UInt8)) (us : List (Nat × Update))
    (hnodup : (us.map Prod.fst).Nodup) (d : OverlayBlockDevice b) : (∀ k, k ∉ us.map Prod.fst →
      (us.foldl (applyUpdate m) d).chunks.lookup k = d.chunks.lookup k) ∧
    (∀ u ∈ us, (us.foldl (applyUpdate m) d).chunks.lookup u.1 = u.2.chunk) ∧
    (storedBytes m (us.foldl (applyUpdate m) d) : Int) = storedBytes m d +
      (us.map fun u => (chunkBytes m u.2.chunk : Int) - chunkBytes m (d.chunks.lookup u.1)).sum := by
  induction us generalizing d with
  | nil => simp
  | cons u us ih =>
  simp only [map_cons, nodup_cons] at hnodup
  obtain ⟨h1, h2, h3⟩ := ih hnodup.2 (applyUpdate m d u)
  simp only [foldl_cons, map_cons, sum_cons]
  refine ⟨fun k hk => ?_, fun v hv => ?_, ?_⟩
  · simp only [mem_cons, not_or] at hk
    rw [h1 k hk.2, lookup_applyUpdate, if_neg hk.1]
  · rcases mem_cons.mp hv with rfl | hv
    · rw [h1 v.1 hnodup.1, lookup_applyUpdate, if_pos rfl]
    · exact h2 v hv
  have hstep := storedBytes_applyUpdate m d u
  -- later keys are different, so the map they see is still the old one
  have hold : (us.map fun v => (chunkBytes m v.2.chunk : Int) -
        chunkBytes m ((applyUpdate m d u).chunks.lookup v.1)) =
      us.map fun v => (chunkBytes m v.2.chunk : Int) - chunkBytes m (d.chunks.lookup v.1) := by
    apply map_congr_left
    intro v hv
    rw [lookup_applyUpdate, if_neg (fun e : v.1 = u.1 => hnodup.1 (e ▸ mem_map_of_mem hv))]
  rw [h3, hold]
  omega

/-- The invariant of a device: its chunks are well formed, the counter is their
total length, and the total is within the limit. -/
structure DeviceOk (m : Heap (List UInt8)) (d : OverlayBlockDevice b) : Prop where
  chunks : ChunksOk b m d.chunkSize d.look
  dirty : d.dirtyBytes = storedBytes m d
  cap : d.dirtyBytes ≤ d.maxDirty

/-- The disk as a reader sees it. -/
def OverlayBlockDevice.view (m : Heap (List UInt8)) (d : OverlayBlockDevice b) :
    Nat → Option UInt8 :=
  viewByte b m d.chunkSize d.look

lemma storedBytes_mono (d : OverlayBlockDevice b) (h : ChunksOk b m d.chunkSize d.look) (he : m.Extends m') :
    storedBytes m' d = storedBytes m d := by
  unfold storedBytes
  apply AList.total_congr
  intro k c hc
  rw [buffer_extends he c.data (h.addr k c.data (by simp [look, hc]))]

lemma DeviceOk.mono (h : DeviceOk m d) (he : m.Extends m') : DeviceOk m' d :=
  ⟨h.chunks.mono he, by rw [h.dirty, storedBytes_mono d h.chunks he], h.cap⟩

/-- A byte of the range lies in a touched chunk. -/
lemma mem_touched_of_mem (d : OverlayBlockDevice b) (off length i : Nat)
    (h1 : off ≤ i) (h2 : i < off + length) : i / d.chunkSize ∈ d.touched off length := by
  unfold touched
  rw [mem_range'_1]
  have h3 : off / d.chunkSize ≤ i / d.chunkSize := Nat.div_le_div_right h1
  have h4 : i / d.chunkSize ≤ (off + length - 1) / d.chunkSize := Nat.div_le_div_right (by omega)
  omega

/-! ## Committing what has been staged -/

section

variable {us : List (Nat × Update)} {view' : Nat → Option UInt8} {u : Update} {look : Nat → Option Nat} {i : Nat}

/-- A byte of a staged chunk is what the staging meant, wherever the chunk is looked up. -/
lemma StagedOk.viewByte_eq (h : StagedOk m d view' (i / d.chunkSize) u) (hpos : 0 < d.chunkSize)
    (hi : i < b.data.length) (hlook : look (i / d.chunkSize) = u.chunk.map OverlayChunk.data) :
    viewByte b m d.chunkSize look i = view' i := by
  have hmod := Nat.mod_lt i hpos
  have hdm : i / d.chunkSize * d.chunkSize + i % d.chunkSize = i := by
    rw [mul_comm]
    exact Nat.div_add_mod i d.chunkSize
  have hj : i % d.chunkSize < d.chunkLength (i / d.chunkSize) := by
    unfold chunkLength
    omega
  unfold viewByte
  rw [hlook]
  cases hc : u.chunk with
  | none =>
    simp only [StagedOk, hc] at h
    have hbyte := h.2 _ hj
    rw [getElem?_slice, if_pos hj, hdm] at hbyte
    exact hbyte
  | some c =>
    simp only [StagedOk, hc] at h
    have hbyte := h.2.2 _ hj
    rw [hdm] at hbyte
    exact hbyte

variable (hnodup : (us.map Prod.fst).Nodup) (hall : ∀ u ∈ us, StagedOk m d view' u.1 u.2)
  (hchunks : ChunksOk b m d.chunkSize d.look)

include hnodup hall hchunks

/-- The buffers behind the chunks are those of the staged ones, or old. -/
lemma chunksOk_committed : ChunksOk b m d.chunkSize (us.foldl (applyUpdate m) d).look := by
  obtain ⟨hout, hin, -⟩ := foldl_applyUpdate_spec m us hnodup d
  have hstored : ∀ k a, (us.foldl (applyUpdate m) d).look k = some a →
      a < m.size ∧ (buffer m a).length = d.chunkLength k := by
    intro k a hk
    unfold OverlayBlockDevice.look at hk
    by_cases hmk : k ∈ us.map Prod.fst
    · obtain ⟨u, hu, rfl⟩ := mem_map.mp hmk
      rw [hin u hu] at hk
      have hstaged := hall u hu
      cases hc : u.2.chunk with
      | none => simp [hc] at hk
      | some c =>
      simp only [hc, map_some, some.injEq] at hk
      simp only [StagedOk, hc] at hstaged
      rw [← hk]
      exact ⟨hstaged.1, hstaged.2.1⟩
    · rw [hout k hmk] at hk
      exact ⟨hchunks.addr k a hk, hchunks.len k a hk⟩
  exact ⟨hchunks.pos, fun k a hk => (hstored k a hk).1, fun k a hk => (hstored k a hk).2⟩

/-- Each committed update moves the total as the staging loop counted. -/
lemma storedBytes_committed :
    (storedBytes m (us.foldl (applyUpdate m) d) : Int) =
      storedBytes m d + (us.map fun u => stagedBytes d u.1 u.2).sum := by
  obtain ⟨-, -, hsum⟩ := foldl_applyUpdate_spec m us hnodup d
  have hdelta : (us.map fun u => (chunkBytes m u.2.chunk : Int) -
      chunkBytes m (d.chunks.lookup u.1)) = us.map fun u => stagedBytes d u.1 u.2 := by
    apply map_congr_left
    intro u hu
    unfold stagedBytes chunkBytes
    congr 1
    · have hstaged := hall u hu
      cases hc : u.2.chunk with
      | none => simp
      | some c =>
        simp only [StagedOk, hc] at hstaged
        simp [hstaged.2.1]
    cases hc : d.chunks.lookup u.1 with
    | none => simp
    | some c =>
    have hlen := hchunks.len u.1 c.data (by simp [OverlayBlockDevice.look, hc])
    simp only [map_some, getD_some, isSome_some, if_true, hlen]
    rfl
  rw [hsum, hdelta]

end

/-- An update that succeeds keeps the invariant and writes its bytes, no others. -/
lemma updateLocked_spec (d : OverlayBlockDevice b) (h : DeviceOk m d) (rd : BaseRead b)
    (off len : Nat) (data : List UInt8) (zero : Bool)
    (hsource : (payload len data zero).length = len) (hpos : 0 < len)
    (hn : off + len ≤ b.data.length) : m.Extends (d.updateLocked m rd off len data zero).1 ∧
    ∀ d', (d.updateLocked m rd off len data zero).2 = .ok d' →
      DeviceOk (d.updateLocked m rd off len data zero).1 d' ∧ d'.committed = d.committed ∧ d'.maxDirty = d.maxDirty ∧
      ∀ i, i < b.data.length → d'.view (d.updateLocked m rd off len data zero).1 i =
        written (d.view m) off (payload len data zero) i := by
  have hstage := stage_spec d m h.chunks rd off len data zero hsource hpos hn (d.touched off len)
    (fun k hk => hk) m (Heap.Extends.refl m) d.dirtyBytes
  unfold updateLocked
  generalize d.stage rd off len data zero (d.touched off len) m d.dirtyBytes = r at hstage
  obtain ⟨m', res⟩ := r
  obtain ⟨hext, hok⟩ := hstage
  cases res with
  | error e => exact ⟨hext, by simp⟩
  | ok r =>
  obtain ⟨us, dirty'⟩ := r
  obtain ⟨hkeys, hall, hdirty⟩ := hok us dirty' rfl
  simp only
  split
  · exact ⟨hext, by simp⟩
  next hcap =>
  refine ⟨hext, fun d' hd' => ?_⟩
  simp only [Except.ok.injEq] at hd'
  have hnodup : (us.map Prod.fst).Nodup := by rw [hkeys]; exact nodup_range'
  have hold := h.chunks.mono hext
  have hchunks := chunksOk_committed hnodup hall hold
  have hbytes := storedBytes_committed hnodup hall hold
  obtain ⟨hcs, hmax, hcom⟩ := foldl_applyUpdate_frame m' us d
  obtain ⟨hout, hin, -⟩ := foldl_applyUpdate_spec m' us hnodup d
  generalize us.foldl (applyUpdate m') d = f at hd' hcs hmax hcom hout hin hchunks hbytes
  subst hd'
  refine ⟨⟨by rw [hcs]; exact hchunks, ?_, by simp only [hmax]; omega⟩, hcom, hmax, fun i hi => ?_⟩
  · rw [storedBytes_mono d h.chunks hext, ← h.dirty, ← hdirty] at hbytes
    exact hbytes.symm
  show viewByte b m' f.chunkSize f.look i = _
  rw [hcs]
  by_cases hk : i / d.chunkSize ∈ d.touched off len
  · rw [← hkeys, List.mem_map] at hk
    obtain ⟨u, hu, hku⟩ := hk
    refine StagedOk.viewByte_eq (hku ▸ hall u hu) h.chunks.pos hi ?_
    unfold OverlayBlockDevice.look
    rw [← hku, hin u hu]
  -- no byte of an untouched chunk is in the range
  have hno : ¬ (off ≤ i ∧ i < off + (payload len data zero).length) := by
    rw [hsource]
    exact fun hi' => hk (mem_touched_of_mem d off len i hi'.1 hi'.2)
  unfold viewByte look written
  rw [if_neg hno, hout _ (by rw [hkeys]; exact hk)]
  exact h.chunks.viewByte_mono hext i

end Trex.Block
