import Trex.Block.Sparse

/-!
# The sparse overlay is the base with the writes over it

`SparseOverlay.byte` is what the overlay would deliver.  Until something fails it is the base
overwritten by the successful writes (`Holds`); afterwards every answer is an error.
-/

namespace Trex.Block

open List

open Slice Memory

/-! ## Reading -/

def Base.byte (b : Base) (x : Nat) : UInt8 := b.data.getD x 0

variable {off n a i : Nat} {b : Base} {p : List UInt8}

lemma slice_eq_window (b : Base) (h : off + n ≤ b.data.length) : slice b.data off n = window b.byte off n := by
  refine ext_of_lt _ _ ?_ fun j hj => ?_
  · rw [length_slice _ _ _ h, length_window]
  · rw [length_slice _ _ _ h] at hj
    rw [getElem?_slice, if_pos hj, getElem?_window _ _ _ _ hj]
    have hx : off + j < b.data.length := by omega
    simp [Base.byte, List.getD, hx]

lemma slice_window (m : Nat → UInt8) {a n i k : Nat} (h : i + k ≤ n) :
    slice (window m a n) i k = window m (a + i) k := by
  refine ext_of_lt _ _ ?_ fun j hj => ?_
  · rw [length_slice _ _ _ (by rw [length_window]; exact h), length_window]
  · rw [length_slice _ _ _ (by rw [length_window]; exact h)] at hj
    rw [getElem?_slice, if_pos hj, getElem?_window _ _ _ _ (by omega), getElem?_window _ _ _ _ hj, Nat.add_assoc]

lemma overwrite_window (m : Nat → UInt8) {data : List UInt8} (h : i + data.length ≤ n) :
    overwrite (window m a n) i data = window (put m (a + i) data) a n := by
  have hlen : (overwrite (window m a n) i data).length = n := by
    rw [length_overwrite _ _ _ (by rw [length_window]; omega), length_window]
  refine ext_of_lt _ _ (by rw [hlen, length_window]) fun j hj => ?_
  rw [hlen] at hj
  rw [getElem?_overwrite _ _ _ (by rw [length_window]; omega), length_window,
    getElem?_window _ _ _ _ hj, getElem?_window _ _ _ _ hj]
  split
  case isTrue hin =>
    rw [put_of_inside _ _ _ (by omega) (by omega)]
    congr 1
    omega
  case isFalse hout => rw [put_of_outside _ _ _ (by omega)]

/-- A full read of the base without an error is right. -/
lemma SparseIO.base_eq (io : SparseIO b) (hn : off + n ≤ b.data.length)
    (h : readFullAt io.base.readAt off n = (p, none)) : p = window b.byte off n := by
  rw [readFullAt_eq io.base off n hn p h, slice_eq_window b hn]

/-- A full read of the store without an error is right. -/
lemma SparseIO.store_eq (io : SparseIO b) (s : Store)
    (h : readFullAt (io.readAt s) off n = (p, none)) : p = window s off n :=
  readFullLoop_part (fun _ _ _ => length_window ..) (window_add s) (fun off n _ => io.faithful s off n)
    n off n (Nat.le_refl (off + n)) p h

namespace SparseOverlay

variable {chunk : Nat} {b : Base} {d : SparseOverlay} {cont : Nat → UInt8}

/-- Byte `x` as the overlay shows it. -/
def byte (chunk : Nat) (b : Base) (d : SparseOverlay) (x : Nat) : UInt8 :=
  if x / chunk ∈ d.dirty then d.store x else b.byte x

/-- The overlay shows `content`. -/
def Holds (chunk : Nat) (b : Base) (d : SparseOverlay) (content : Nat → UInt8) : Prop :=
  ∀ x, x < b.data.length → d.byte chunk b x = content x

lemma div_eq_of_inside {pos x n : Nat} (hn : pos % chunk + n ≤ chunk) (hlo : pos ≤ x)
    (hhi : x < pos + n) : x / chunk = pos / chunk := by
  have hparts := Nat.div_add_mod pos chunk
  refine Nat.div_eq_of_lt_le ?_ ?_
  · rw [Nat.mul_comm]
    omega
  · rw [Nat.succ_mul, Nat.mul_comm]
    omega

lemma aligned_or_left (hc : 0 < chunk) (pos left : Nat) :
    (pos + min left (chunk - pos % chunk)) % chunk = 0 ∨ min left (chunk - pos % chunk) = left := by
  rcases Nat.le_total left (chunk - pos % chunk) with hle | hge
  · exact .inr (Nat.min_eq_left hle)
  left
  have hmod := Nat.mod_lt pos hc
  have hparts := Nat.div_add_mod pos chunk
  have hsum : pos + (chunk - pos % chunk) = chunk * (pos / chunk + 1) := by
    rw [Nat.mul_succ]
    omega
  rw [Nat.min_eq_right hge, hsum, Nat.mul_mod_right]

/-- Neighbouring chunks are joined only while they have the state of the first one. -/
lemma coalesce_spec (hc : 0 < chunk) (d : SparseOverlay) (pos left : Nat) (dirty : Bool)
    (turns size : Nat) (hsize : size ≤ left) (halign : (pos + size) % chunk = 0 ∨ size = left)
    (hsame : ∀ x, pos ≤ x → x < pos + size → decide (x / chunk ∈ d.dirty) = dirty) :
    size ≤ coalesce chunk d pos left dirty turns size ∧ coalesce chunk d pos left dirty turns size ≤ left ∧
      ∀ x, pos ≤ x → x < pos + coalesce chunk d pos left dirty turns size → decide (x / chunk ∈ d.dirty) = dirty := by
  induction turns generalizing size with
  | zero => exact ⟨Nat.le_refl _, hsize, hsame⟩
  | succ turns ih =>
  rw [coalesce]
  split
  case isFalse => exact ⟨Nat.le_refl _, hsize, hsame⟩
  case isTrue hlt =>
  split
  case isTrue => exact ⟨Nat.le_refl _, hsize, hsame⟩
  case isFalse hdirty =>
  have hmod : (pos + size) % chunk = 0 := by
    rcases halign with h | h
    · exact h
    · omega
  have hnext : (pos + (size + min (left - size) chunk)) % chunk = 0 ∨ size + min (left - size) chunk = left := by
    have hchunk := aligned_or_left hc (pos + size) (left - size)
    rw [hmod, Nat.sub_zero, Nat.add_assoc] at hchunk
    exact hchunk.imp_right (by omega)
  obtain ⟨hle, hleft, hall⟩ := ih (size + min (left - size) chunk) (by omega) hnext (by
    intro x hlo hhi
    by_cases hold : x < pos + size
    · exact hsame x hlo hold
    · -- `x` lies in the chunk that starts at `pos + size`
      have hdiv : x / chunk = (pos + size) / chunk := div_eq_of_inside (n := chunk) (by omega) (by omega) (by omega)
      rw [hdiv]
      exact not_not.mp hdirty)
  exact ⟨by omega, hleft, hall⟩

/-- A run of like chunks is read from one place. -/
lemma window_of_same {pos size : Nat} (hview : Holds chunk b d cont)
    (hin : pos + size ≤ b.data.length) {dirty : Bool}
    (hsame : ∀ x, pos ≤ x → x < pos + size → decide (x / chunk ∈ d.dirty) = dirty) :
    window (if dirty then d.store else b.byte) pos size = window cont pos size := by
  refine window_congr fun x hlo hhi => ?_
  rw [← hview x (by omega)]
  unfold byte
  have hx := hsame x hlo hhi
  cases dirty with
  | true => rw [if_pos rfl, if_pos (of_decide_eq_true hx)]
  | false => rw [if_neg (by simp), if_neg (of_decide_eq_false hx)]

/-- A read without an error delivers the content. -/
lemma readLoop_eq (hc : 0 < chunk) (io : SparseIO b) (hview : Holds chunk b d cont)
    {off length : Nat} (hin : off + length ≤ b.data.length) (turns : Nat) (p q : List UInt8)
    (hp : p.length ≤ length) (hturns : length ≤ p.length + turns)
    (h : d.readLoop chunk io off length turns p = (q, none)) :
    q = p ++ window cont (off + p.length) (length - p.length) := by
  induction turns generalizing p with
  | zero =>
    rw [readLoop, Prod.mk.injEq] at h
    rw [← h.1, show length - p.length = 0 by omega]
    simp [window]
  | succ turns ih =>
  rw [readLoop] at h
  split at h
  case isFalse hge =>
    rw [Prod.mk.injEq] at h
    rw [← h.1, show length - p.length = 0 by omega]
    simp [window]
  case isTrue hlt =>
  simp only at h
  have hmod := Nat.mod_lt (off + p.length) hc
  have hfirst : ∀ x, off + p.length ≤ x →
      x < off + p.length + min (length - p.length) (chunk - (off + p.length) % chunk) →
      decide (x / chunk ∈ d.dirty) = decide ((off + p.length) / chunk ∈ d.dirty) := by
    intro x hlo hhi
    rw [div_eq_of_inside (by omega) hlo hhi]
  obtain ⟨hge, hle, hsame⟩ := coalesce_spec hc d (off + p.length) (length - p.length) _
    (length - p.length) _ (Nat.min_le_left _ _) (aligned_or_left hc _ _) hfirst
  generalize coalesce chunk d (off + p.length) (length - p.length) _ (length - p.length) _ = size
    at h hge hle hsame
  generalize hread : readFullAt _ (off + p.length) size = r at h
  obtain ⟨got, err⟩ := r
  cases err with
  | some err => simp at h
  | none =>
  have hgot : got = window cont (off + p.length) size := by
    rw [← window_of_same hview (by omega) hsame]
    by_cases hdirty : (off + p.length) / chunk ∈ d.dirty
    · rw [decide_eq_true hdirty] at hread ⊢
      exact io.store_eq d.store hread
    · rw [decide_eq_false hdirty] at hread ⊢
      exact io.base_eq (by omega) hread
  have hlen : got.length = size := by rw [hgot, length_window]
  have hq := ih (p ++ got) (by rw [length_append]; omega)
    (by rw [length_append]; omega) h
  rw [hq, append_assoc, length_append, hlen, hgot, ← Nat.add_assoc, ← window_add]
  congr 2
  omega

/-! ## Writing -/

/-- A chunk that a write adds holds a byte that the write changes. -/
def Allocates (chunk : Nat) (d d' : SparseOverlay) (content : Nat → UInt8) (off : Nat)
    (p : List UInt8) : Prop :=
  ∀ k ∈ d'.dirty, k ∉ d.dirty → ∃ x, x / chunk = k ∧ off ≤ x ∧ x < off + p.length ∧ put content off p x ≠ content x

/-- A write to the store latches its failure or stores its bytes. -/
lemma storeChunk_cases (io : SparseIO b) (d : SparseOverlay) (idx pos : Nat) (data : List UInt8) :
    (∃ err after, d.storeChunk io idx pos data = ({ d.fail err with store := after }, some err)) ∨
    d.storeChunk io idx pos data = ({ d with
      store := put d.store pos data, dirty := if idx ∈ d.dirty then d.dirty else idx :: d.dirty }, none) := by
  unfold storeChunk
  simp only
  cases herr : (io.writeAt d.store pos data).err with
  | some err => exact .inl ⟨err, _, rfl⟩
  | none =>
  simp only
  split
  case isTrue hn => exact .inl ⟨_, _, rfl⟩
  case isFalse hn => exact .inr (by rw [io.stored _ _ _ (not_not.mp hn) herr])

lemma fail_failure (d : SparseOverlay) (err : BlockError) : (d.fail err).failure ≠ none := by
  unfold fail
  split
  next h => rw [h]; simp
  · simp

lemma fail_dirty (d : SparseOverlay) (err : BlockError) : (d.fail err).dirty = d.dirty := by
  unfold fail
  split <;> rfl

/-- One turn of the loop fails for good and adds no chunk, or writes its part of the data and adds the
chunk only for a byte that changes. -/
structure Turn (chunk : Nat) (b : Base) (d : SparseOverlay) (content : Nat → UInt8) (pos : Nat)
    (data : List UInt8) (r : SparseOverlay × Option BlockError) : Prop where
  failed : r.2 ≠ none → r.1.failure ≠ none
  holds : r.2 = none → Holds chunk b r.1 (put content pos data) ∧ r.1.failure = d.failure
  allocates : Allocates chunk d r.1 content pos data

/-- A failure is latched and adds no chunk. -/
lemma turn_fail (d : SparseOverlay) (err : BlockError) (after : Nat → UInt8) (cont : Nat → UInt8)
    (pos : Nat) (data : List UInt8) :
    Turn chunk b d cont pos data ({ d.fail err with store := after }, some err) := by
  refine ⟨fun _ => fail_failure d err, fun h => absurd h (by simp), fun k hk hnot => ?_⟩
  exact absurd (fail_dirty d err ▸ hk) hnot

/-- A write that allocates nothing. -/
lemma turn_keep {d' : SparseOverlay} {pos : Nat} {data : List UInt8} (hfail : d'.failure = d.failure)
    (hdirty : d'.dirty = d.dirty) (hview : Holds chunk b d' (put cont pos data)) :
    Turn chunk b d cont pos data (d', none) :=
  ⟨fun h => absurd rfl h, fun _ => ⟨hview, hfail⟩, fun _ hk hnot => absurd (hdirty ▸ hk) hnot⟩

variable {pos x n length : Nat} {data : List UInt8} {off : Int} {io : SparseIO b} {err : BlockError}

/-- A write to a chunk in the store. -/
lemma turn_dirty (io : SparseIO b) (hview : Holds chunk b d cont)
    (hn : pos % chunk + data.length ≤ chunk) (hdirty : pos / chunk ∈ d.dirty) :
    Turn chunk b d cont pos data (d.storeChunk io (pos / chunk) pos data) := by
  rcases storeChunk_cases io d (pos / chunk) pos data with ⟨err, after, heq⟩ | heq
  · rw [heq]
    exact turn_fail d err after cont pos data
  rw [heq, if_pos hdirty]
  refine turn_keep rfl rfl fun x hx => ?_
  have hold := hview x hx
  unfold byte at hold ⊢
  simp only
  by_cases hin : pos ≤ x ∧ x < pos + data.length
  · rw [if_pos (by rw [div_eq_of_inside hn hin.1 hin.2]; exact hdirty)]
    apply Option.some.inj
    rw [put_of_inside _ _ _ hin.1 hin.2, put_of_inside _ _ _ hin.1 hin.2]
  · rw [put_of_outside _ _ _ (by omega), put_of_outside _ _ _ (by omega)]
    exact hold

/-- A chunk outside the store has the bytes of the base. -/
lemma content_of_clean (hview : Holds chunk b d cont) (hx : x < b.data.length)
    (hclean : x / chunk ∉ d.dirty) : cont x = b.byte x := by
  rw [← hview x hx]
  unfold byte
  rw [if_neg hclean]

/-- Writing the bytes that are there changes nothing. -/
lemma turn_unchanged (hview : Holds chunk b d cont) (hn : pos % chunk + n ≤ chunk)
    (hclean : pos / chunk ∉ d.dirty) : Turn chunk b d cont pos (window b.byte pos n) (d, none) := by
  refine turn_keep rfl rfl fun x hx => ?_
  rw [put_window]
  split
  case isTrue hins =>
    rw [← content_of_clean hview hx (by rw [div_eq_of_inside hn hins.1 hins.2]; exact hclean)]
    exact hview x hx
  case isFalse => exact hview x hx

section

variable (hc : 0 < chunk) (io : SparseIO b)

include hc

/-- The first write to a clean chunk stores the whole chunk. -/
lemma turn_first (hview : Holds chunk b d cont)
    (hn : pos % chunk + data.length ≤ chunk) (hin : pos + data.length ≤ b.data.length)
    (hclean : pos / chunk ∉ d.dirty) (hchanged : window b.byte pos data.length ≠ data) :
    Turn chunk b d cont pos data (d.storeChunk io (pos / chunk) (pos / chunk * chunk)
      (window (put b.byte pos data) (pos / chunk * chunk) (min chunk (b.data.length - pos / chunk * chunk)))) := by
  rcases storeChunk_cases io d (pos / chunk) (pos / chunk * chunk) (window (put b.byte pos data)
      (pos / chunk * chunk) (min chunk (b.data.length - pos / chunk * chunk))) with
    ⟨err, after, heq⟩ | heq
  · rw [heq]
    exact turn_fail d err after cont pos data
  rw [heq, if_neg hclean]
  refine ⟨fun h => absurd rfl h, fun _ => ⟨fun x hx => ?_, rfl⟩, fun k hk hnot => ?_⟩
  · unfold byte
    simp only [put_window, mem_cons]
    by_cases hchunk : x / chunk = pos / chunk
    · have hparts := Nat.div_add_mod x chunk
      have hmod := Nat.mod_lt x hc
      rw [hchunk, Nat.mul_comm] at hparts
      rw [if_pos (.inl hchunk), if_pos (by omega)]
      by_cases hdata : pos ≤ x ∧ x < pos + data.length
      · apply Option.some.inj
        rw [put_of_inside _ _ _ hdata.1 hdata.2, put_of_inside _ _ _ hdata.1 hdata.2]
      · rw [put_of_outside _ _ _ (by omega), put_of_outside _ _ _ (by omega),
          content_of_clean hview hx (by rw [hchunk]; exact hclean)]
    -- the stored chunk does not reach `x`, and the data lies inside that chunk
    have hout : ¬ (pos / chunk * chunk ≤ x ∧
        x < pos / chunk * chunk + min chunk (b.data.length - pos / chunk * chunk)) := by
      rintro ⟨hlo, hhi⟩
      refine hchunk (Nat.div_eq_of_lt_le hlo ?_)
      rw [Nat.succ_mul]
      omega
    have hdata : x < pos ∨ pos + data.length ≤ x := by
      by_contra hcon
      exact hchunk (div_eq_of_inside hn (by omega) (by omega))
    rw [if_neg hout, put_of_outside cont pos data hdata, ← hview x hx]
    unfold byte
    by_cases hdirty : x / chunk ∈ d.dirty
    · rw [if_pos (.inr hdirty), if_pos hdirty]
    · rw [if_neg (by rintro (h | h); exacts [hchunk h, hdirty h]), if_neg hdirty]
  rcases mem_cons.mp hk with rfl | hk
  · -- some byte of the data differs from the base, which a clean chunk still shows
    by_contra hnone
    refine hchanged (ext_of_lt _ _ (by rw [length_window]) fun j hj => ?_)
    rw [length_window] at hj
    rw [getElem?_window _ _ _ _ hj]
    have hdiv := div_eq_of_inside hn (Nat.le_add_right pos j) (by omega)
    have hsame : put cont pos data (pos + j) = cont (pos + j) := by
      by_contra hne
      exact hnone ⟨pos + j, hdiv, Nat.le_add_right pos j, by omega, hne⟩
    have hcell := put_of_inside cont pos data (Nat.le_add_right pos j) (by omega)
    rw [hsame, content_of_clean hview (by omega) (by rw [hdiv]; exact hclean), Nat.add_sub_cancel_left] at hcell
    exact hcell
  · exact absurd hk hnot

/-- The three ways of a write inside one chunk. -/
lemma turn_writeChunk (hview : Holds chunk b d cont)
    (hpos : 0 < data.length) (hn : pos % chunk + data.length ≤ chunk) (hin : pos + data.length ≤ b.data.length) :
    Turn chunk b d cont pos data (d.writeChunk chunk io pos data) := by
  unfold writeChunk
  simp only
  split
  case isTrue hdirty => exact turn_dirty io hview hn hdirty
  case isFalse hclean =>
    have hparts := Nat.div_add_mod pos chunk
    rw [Nat.mul_comm] at hparts
    generalize hread : readFullAt io.base.readAt (pos / chunk * chunk)
      (min chunk (b.data.length - pos / chunk * chunk)) = r
    obtain ⟨scratch, err⟩ := r
    cases err with
    | some err => exact turn_fail d err _ cont pos data
    | none =>
    simp only
    have hscratch := io.base_eq (by omega) hread
    have hoff : pos / chunk * chunk + (pos - pos / chunk * chunk) = pos := by omega
    have hfit : pos - pos / chunk * chunk + data.length ≤ min chunk (b.data.length - pos / chunk * chunk) := by omega
    rw [hscratch, slice_window _ hfit, overwrite_window _ hfit, hoff]
    split
    case isTrue hsame =>
      have hturn := turn_unchanged hview hn hclean
      rwa [hsame] at hturn
    case isFalse hchanged => exact turn_first hc io hview hn hin hclean hchanged

/-- A write is one turn over its whole range. -/
lemma writeLoop_spec (off : Nat) (p : List UInt8)
    (hin : off + p.length ≤ b.data.length) (turns done : Nat) (d : SparseOverlay)
    (cont : Nat → UInt8) (hview : Holds chunk b d cont) (hdone : done ≤ p.length)
    (hturns : p.length ≤ done + turns) : Turn chunk b d cont (off + done) (p.drop done)
      ((writeLoop chunk io off p turns done d).2.2, (writeLoop chunk io off p turns done d).2.1) := by
  induction turns generalizing done d cont with
  | zero =>
    rw [writeLoop, drop_eq_nil_of_le (by omega)]
    exact turn_keep rfl rfl (by rwa [put_nil])
  | succ turns ih =>
  rw [writeLoop]
  split
  case isFalse hge =>
    rw [drop_eq_nil_of_le (by omega)]
    exact turn_keep rfl rfl (by rwa [put_nil])
  case isTrue hlt =>
  simp only
  have hmod := Nat.mod_lt (off + done) hc
  generalize hsize : min (p.length - done) (chunk - (off + done) % chunk) = size
  have hlen : (slice p done size).length = size := length_slice _ _ _ (by omega)
  -- the rest of the data is the part of this turn and what is left
  have hsplit : p.drop done = slice p done size ++ p.drop (done + size) := by
    unfold slice
    rw [← drop_drop, take_append_drop]
  have hturn : Turn chunk b d cont (off + done) (slice p done size)
      (d.writeChunk chunk io (off + done) (slice p done size)) :=
    turn_writeChunk hc io hview (by omega) (by omega) (by omega)
  generalize d.writeChunk chunk io (off + done) (slice p done size) = r at hturn
  obtain ⟨d', err⟩ := r
  have hpart : Allocates chunk d d' cont (off + done) (p.drop done) := by
    intro k hk hnot
    obtain ⟨x, hx, hlo, hhi, hne⟩ := hturn.allocates k hk hnot
    refine ⟨x, hx, hlo, by rw [length_drop]; omega, ?_⟩
    rw [hsplit, ← put_append, put_of_outside _ _ _ (by omega)]
    exact hne
  cases err with
  | some err => exact ⟨hturn.failed, fun h => absurd h (by simp), hpart⟩
  | none =>
  obtain ⟨hview', hfail⟩ := hturn.holds rfl
  have hrest := ih (done + size) d' _ hview' (by omega) (by omega)
  rw [← Nat.add_assoc] at hrest
  refine ⟨hrest.failed, fun hnone => ?_, fun k hk hnot => ?_⟩
  · obtain ⟨hfinal, hfail'⟩ := hrest.holds hnone
    refine ⟨?_, hfail'.trans hfail⟩
    rw [hsplit, ← put_append, hlen]
    exact hfinal
  by_cases hmid : k ∈ d'.dirty
  · exact hpart k hmid hnot
  · obtain ⟨x, hx, hlo, hhi, hne⟩ := hrest.allocates k hk hmid
    rw [length_drop] at hhi
    refine ⟨x, hx, by omega, by rw [length_drop]; omega, ?_⟩
    rw [hsplit, ← put_append, hlen]
    rwa [put_of_outside cont _ _ (by rw [hlen]; omega)] at hne

end

/-! ## Calls and runs -/

/-- The content after a call; only a write that succeeds changes it. -/
def written (content : Nat → UInt8) : SparseCall b → SparseAnswer → Nat → UInt8
  | .readAt _ _ _, _ => content
  | .writeAt off p _, answer => if answer.err = none then put content off.toNat p else content

/-- The base overwritten by the successful writes of a run. -/
def writtenAll (content : Nat → UInt8) : List (SparseCall b) → List SparseAnswer → Nat → UInt8
  | call :: calls, answer :: answers => writtenAll (written content call answer) calls answers
  | _, _ => content

/-- The overlay is usable and stands for `content`, or it has failed for good. -/
def Sound (chunk : Nat) (b : Base) (d : SparseOverlay) (content : Nat → UInt8) : Prop :=
  d.failure = none → Holds chunk b d content

/-- The call passes the check of its range. -/
def InRange : SparseCall b → Prop
  | .readAt off length _ => validateRange b.data.length off length = .ok ()
  | .writeAt off p _ => validateRange b.data.length off p.length = .ok ()

/-- What a call gives and leaves. -/
structure Answers (chunk : Nat) (d : SparseOverlay) (content : Nat → UInt8) (call : SparseCall b)
    (r : SparseAnswer × SparseOverlay) : Prop where
  sound : Sound chunk b r.2 (written content call r.1)
  read : ∀ off length io, call = .readAt off length io → r.1.err = none → r.1.bytes = window content off.toNat length
  allocates : ∀ k ∈ r.2.dirty, k ∉ d.dirty → ∃ off p io, call = .writeAt off p io ∧
    ∃ x, x / chunk = k ∧ off.toNat ≤ x ∧ x < off.toNat + p.length ∧ p[x - off.toNat]? ≠ some (content x)
  fault : r.1.fault = true → r.1.err ≠ none ∧ r.2.failure ≠ none
  latched : d.failure ≠ none → r.1.err ≠ none ∧ r.2.failure ≠ none
  succeeds : d.failure = none → r.1.fault = false → r.2.failure = none ∧ (InRange call → r.1.err = none)

/-- A call that is refused changes nothing. -/
lemma answers_refused (hsound : Sound chunk b d cont) (call : SparseCall b) (err : BlockError)
    (hwhy : d.failure ≠ none ∨ ¬ InRange call) : Answers chunk d cont call (⟨[], 0, some err, false⟩, d) := by
  refine ⟨?_, ?_, fun k hk hnot => absurd hk hnot, ?_, ?_, ?_⟩
  · cases call with
    | readAt off length io => exact hsound
    | writeAt off p io => exact hsound
  · intro _ _ _ _ h
    cases h
  · intro h
    cases h
  · intro h
    exact ⟨by simp, h⟩
  · intro hnone _
    refine ⟨hnone, fun hin => ?_⟩
    rcases hwhy with h | h
    · exact absurd hnone h
    · exact absurd hin h

section

variable (hc : 0 < chunk) (hsound : Sound chunk b d cont)

include hc hsound

lemma answers_readAt (off : Int) (length : Nat) (io : SparseIO b)
    : Answers chunk d cont (.readAt off length io) (d.readAt chunk off length io) := by
  unfold SparseOverlay.readAt
  cases hfail : d.failure with
  | some err => exact answers_refused hsound _ err (.inl (by rw [hfail]; simp))
  | none =>
  cases hrange : validateRange b.data.length off length with
  | error err => exact answers_refused hsound _ err (.inr fun hin => nomatch hrange.symm.trans hin)
  | ok u =>
  simp only
  have hin := (validateRange_eq_ok_iff _ _ _).mp hrange
  generalize hread : d.readLoop chunk io off.toNat length length [] = r
  obtain ⟨p, err⟩ := r
  cases err with
  | some err =>
    refine ⟨fun h => absurd h (fail_failure d err), ?_, ?_, ?_, ?_, ?_⟩
    · intro _ _ _ _ h
      cases h
    · intro k hk hnot
      exact absurd (fail_dirty d err ▸ hk) hnot
    · intro _
      exact ⟨by simp, fail_failure d err⟩
    · intro h
      exact absurd hfail h
    · intro _ h
      cases h
  | none =>
  refine ⟨hsound, ?_, fun k hk hnot => absurd hk hnot, ?_, ?_, ?_⟩
  · intro off' length' io' hcall _
    cases hcall
    have hp := readLoop_eq hc io (hsound hfail) (by omega) length [] p (Nat.zero_le _)
      (by simp) hread
    simpa using hp
  · intro h
    cases h
  · intro h
    exact absurd hfail h
  · intro _ _
    exact ⟨hfail, fun _ => rfl⟩

lemma answers_writeAt (off : Int) (p : List UInt8) (io : SparseIO b) :
    Answers chunk d cont (.writeAt off p io) (d.writeAt chunk off p io) := by
  unfold SparseOverlay.writeAt
  cases hfailure : d.failure with
  | some err => exact answers_refused hsound _ err (.inl (by rw [hfailure]; simp))
  | none =>
  cases hrange : validateRange b.data.length off p.length with
  | error err => exact answers_refused hsound _ err (.inr fun hin => nomatch hrange.symm.trans hin)
  | ok u =>
  simp only
  have hin := (validateRange_eq_ok_iff _ _ _).mp hrange
  have hloop := writeLoop_spec hc io off.toNat p (by omega) p.length 0 d cont
    (hsound hfailure) (Nat.zero_le _) (by omega)
  rw [Nat.add_zero, drop_zero] at hloop
  -- the bytes that differ are those of the data that differ from the contents
  have halloc : ∀ d', Allocates chunk d d' cont off.toNat p → ∀ k ∈ d'.dirty, k ∉ d.dirty →
      ∃ off' p' io', SparseCall.writeAt off p io = .writeAt off' p' io' ∧
        ∃ x, x / chunk = k ∧ off'.toNat ≤ x ∧ x < off'.toNat + p'.length ∧
          p'[x - off'.toNat]? ≠ some (cont x) := by
    intro d' h k hk hnot
    obtain ⟨x, hx, hlo, hhi, hne⟩ := h k hk hnot
    refine ⟨off, p, io, rfl, x, hx, hlo, hhi, fun hsame => hne ?_⟩
    apply Option.some.inj
    rw [put_of_inside _ _ _ hlo hhi, hsame]
  generalize writeLoop chunk io off.toNat p p.length 0 d = r at hloop
  obtain ⟨done, err, d'⟩ := r
  cases err with
  | some err =>
    have hfail : d'.failure ≠ none := hloop.failed (by simp)
    refine ⟨fun h => absurd h hfail, ?_, halloc d' hloop.allocates, ?_, ?_, ?_⟩
    · intro _ _ _ h
      cases h
    · intro _
      exact ⟨by simp, hfail⟩
    · intro h
      exact absurd hfailure h
    · intro _ h
      cases h
  | none =>
  obtain ⟨hview, hsame⟩ := hloop.holds rfl
  refine ⟨fun _ => hview, ?_, halloc d' hloop.allocates, ?_, ?_, ?_⟩
  · intro _ _ _ h
    cases h
  · intro h
    cases h
  · intro h
    exact absurd hfailure h
  · intro _ _
    exact ⟨hsame.trans hfailure, fun _ => rfl⟩

/-- What one call gives and leaves. -/
lemma answers_step (call : SparseCall b) : Answers chunk d cont call (d.step chunk call) := by
  cases call with
  | readAt off length io => exact answers_readAt hc hsound off length io
  | writeAt off p io => exact answers_writeAt hc hsound off p io

end

section

variable (hc : 0 < chunk) (calls : List (SparseCall b)) (d : SparseOverlay)

include hc

/-- Every state of a run is sound for what the run has written so far. -/
lemma sound_run (cont : Nat → UInt8) (hsound : Sound chunk b d cont) :
    Sound chunk b (d.run chunk calls).2 (writtenAll cont calls (d.run chunk calls).1) := by
  induction calls generalizing d cont with
  | nil => exact hsound
  | cons call calls ih => exact ih _ _ (answers_step hc hsound call).sound

/-- After a failure every call fails. -/
lemma latched_run (hfail : d.failure ≠ none) : ∀ ans ∈ (d.run chunk calls).1, ans.err ≠ none := by
  induction calls generalizing d with
  | nil => simp [run]
  | cons call calls ih =>
  have hanswers : Answers chunk d b.byte call (d.step chunk call) :=
    answers_step hc (fun h => absurd h hfail) call
  obtain ⟨herr, hnext⟩ := hanswers.latched hfail
  intro ans hans
  rcases mem_cons.mp hans with rfl | hans
  · exact herr
  · exact ih _ hnext ans hans

/-- Without a fault of the storage nothing is latched. -/
lemma usable_run (cont : Nat → UInt8) (hsound : Sound chunk b d cont) (hnone : d.failure = none)
    (hfault : ∀ ans ∈ (d.run chunk calls).1, ans.fault = false) : (d.run chunk calls).2.failure = none := by
  induction calls generalizing d cont with
  | nil => exact hnone
  | cons call calls ih =>
  have hanswers := answers_step hc hsound call
  have hfirst := hfault _ mem_cons_self
  exact ih _ _ hanswers.sound (hanswers.succeeds hnone hfirst).1
    fun ans hans => hfault ans (mem_cons_of_mem _ hans)

end

/-- **The sparse overlay refines the base with the writes over it**, adds a chunk only for a byte that
changes, and fails for good after a failure of the base or the store, and only then. -/
theorem sparseOverlay_refines (chunk : Nat) (hc : 0 < chunk) (b : Base) (store : Store)
    (before : List (SparseCall b)) (call : SparseCall b) (after : List (SparseCall b))
    (answers : List SparseAnswer) (answer : SparseAnswer) (d d' : SparseOverlay)
    (hbefore : (newSparseOverlay store).run chunk before = (answers, d))
    (hcall : d.step chunk call = (answer, d')) :
    (∀ off length io, call = .readAt off length io → answer.err = none →
      answer.bytes = window (writtenAll b.byte before answers) off.toNat length) ∧
    (∀ k ∈ d'.dirty, k ∉ d.dirty → ∃ off p io, call = .writeAt off p io ∧
      ∃ x, x / chunk = k ∧ off.toNat ≤ x ∧ x < off.toNat + p.length ∧
        p[x - off.toNat]? ≠ some (writtenAll b.byte before answers x)) ∧
    (answer.fault = true → answer.err ≠ none ∧ ∀ later ∈ (d'.run chunk after).1, later.err ≠ none) ∧
    ((∀ earlier ∈ answers, earlier.fault = false) → answer.fault = false → InRange call → answer.err = none) := by
  have hnew : Sound chunk b (newSparseOverlay store) b.byte := by
    intro _ x _
    simp [byte, newSparseOverlay]
  have hsound := sound_run hc before (newSparseOverlay store) b.byte hnew
  rw [hbefore] at hsound
  have hans := answers_step hc hsound call
  rw [hcall] at hans
  refine ⟨hans.read, hans.allocates, fun hfault => ?_, fun hearlier hfault hin => ?_⟩
  · obtain ⟨herr, hfail⟩ := hans.fault hfault
    exact ⟨herr, latched_run hc after d' hfail⟩
  · have husb := usable_run hc before (newSparseOverlay store) b.byte hnew rfl
      (by rw [hbefore]; exact hearlier)
    rw [hbefore] at husb
    exact (hans.succeeds husb hfault).2 hin

/-- Storage without failures. -/
def faultless (b : Base) : SparseIO b where
  base := b.answers
  readAt s off n := (window s off n, none)
  faithful _ _ n := ⟨n, Nat.le_refl n, rfl⟩
  writeAt s off data := ⟨data.length, none, put s off data⟩
  stored _ _ _ _ _ := rfl

/-- A write of one byte to a base of four, and a read of all of them. -/
theorem sparseOverlay_refines_sample :
    let b : Base := ⟨[1, 2, 3, 4], 1⟩
    let r := (newSparseOverlay fun _ => 0).run sparseChunkSize [.writeAt 1 [9] (faultless b)]
    (r.2.step sparseChunkSize (.readAt 0 4 (faultless b))).1.bytes = [1, 9, 3, 4] := by
  intro b r
  have hread := (sparseOverlay_refines sparseChunkSize (by decide) b (fun _ => 0)
    [.writeAt 1 [9] (faultless b)] (.readAt 0 4 (faultless b)) [] r.1 _ r.2 _ rfl rfl).1
    0 4 (faultless b) rfl (by decide +kernel)
  exact hread.trans (by decide +kernel)

end SparseOverlay

end Trex.Block
