import Mathlib.Algebra.Order.BigOperators.Group.List
import Trex.Filesystem.Image

/-!
# The views of a generated image

`byteAt` is the byte string that the extents describe.  Each of the three walks is compared
with it; the extents that passed the checks are `Ordered`.
-/

namespace Trex.Filesystem

open List Memory Extent Indexed

/-! ## The byte string -/

/-- The byte at a place inside an extent; before the start of a file there is none to read. -/
def Extent.byte (e : Extent) (i : Nat) : UInt8 :=
  match e.content with
  | .zeros => 0
  | .bytes data => data.getD i 0
  | .file f off => if off + i < 0 then 0 else f.byte (off + i).toNat

/-- The data are at least as long as the extent. -/
def Extent.Fits (e : Extent) : Prop :=
  match e.content with
  | .bytes data => e.size ≤ data.length
  | _ => True

/-- Byte `i` of an image, zero between the extents. -/
def byteAt (es : List Extent) (i : Nat) : UInt8 :=
  match es.find? fun e => decide (e.start ≤ i ∧ i < e.stop) with
  | some e => e.byte (i - e.start)
  | none => 0

/-- Extents one behind the other, from `lo` on and inside the image. -/
def Ordered (size : Nat) : Nat → List Extent → Prop
  | lo, [] => lo ≤ size
  | lo, e :: es => lo ≤ e.start ∧ 0 < e.size ∧ e.Fits ∧ Ordered size e.stop es

lemma byteAt_cons (e : Extent) (es : List Extent) (i : Nat) :
    byteAt (e :: es) i = if e.start ≤ i ∧ i < e.stop then e.byte (i - e.start) else byteAt es i := by
  unfold byteAt
  rw [find?_cons]
  by_cases h : e.start ≤ i ∧ i < e.stop
  · simp [h]
  · rw [if_neg h, decide_eq_false h]

variable {size lo i pos pos' off a n written written' position : Nat} {es rest : List Extent}
  {e : Extent} {ix : Indexed} {w w' : Output} {done : Bytes} {byte : Nat → UInt8}
  {out out' : List BlockExtent} {allocated : Bool}

lemma Ordered.byteAt_below (h : Ordered size lo es) (hi : i < lo) : byteAt es i = 0 := by
  induction es generalizing lo with
  | nil => rfl
  | cons e es ih =>
  obtain ⟨hlo, -, -, hrest⟩ := h
  have hstop : i < e.stop := by
    unfold stop
    omega
  rw [byteAt_cons, if_neg (by omega)]
  exact ih hrest hstop

/-- Between the extents there are zeros. -/
lemma Ordered.byteAt_gap (h : Ordered size lo (e :: es)) (hi : i < e.start) : byteAt (e :: es) i = 0 := by
  have hfrom : Ordered size e.start (e :: es) := ⟨le_rfl, h.2⟩
  exact hfrom.byteAt_below hi

lemma byteAt_inside (hlo : e.start ≤ i) (hhi : i < e.stop) : byteAt (e :: es) i = e.byte (i - e.start) := by
  rw [byteAt_cons, if_pos ⟨hlo, hhi⟩]

lemma byteAt_behind (hi : e.stop ≤ i) : byteAt (e :: es) i = byteAt es i := by
  rw [byteAt_cons, if_neg (by omega)]

/-! ## The checks -/

/-- A checked extent is not empty, lies in the image and has its data. -/
lemma checkExtents_ok {size : Int} {specs : List ExtentSpec} (hsize : 0 ≤ size)
    (h : checkExtents size specs = .ok es) : ∀ e ∈ es, 0 < e.size ∧ e.stop ≤ size.toNat ∧ e.Fits := by
  induction specs generalizing es with
  | nil =>
    cases h
    exact fun e he => absurd he not_mem_nil
  | cons spec specs ih =>
  rw [checkExtents] at h
  split at h
  · exact ih h
  next hnz =>
  split at h
  · cases h
  next hins =>
  split at h
  · cases h
  next hlong =>
  split at h
  · cases h
  next checked hchecked =>
  cases h
  intro e he
  rcases mem_cons.mp he with rfl | he
  · refine ⟨?_, ?_, ?_⟩
    · show 0 < spec.size.toNat
      omega
    · show spec.start.toNat + spec.size.toNat ≤ size.toNat
      omega
    unfold Extent.Fits ExtentSpec.toExtent
    cases hfile : spec.file with
    | some f => trivial
    | none =>
    cases hdata : spec.data with
    | none => trivial
    | some data =>
    simp only [hfile, hdata, Option.isNone_none, Option.any_some, decide_eq_true_eq, true_and] at hlong
    show spec.size.toNat ≤ data.length
    omega
  · exact ih hchecked e he

lemma ordered_of_checked (hgood : ∀ e ∈ es, 0 < e.size ∧ e.stop ≤ size ∧ e.Fits)
    (h : checkOverlap es = .ok ()) (hsize : lo ≤ size) (hlo : ∀ e, es.head? = some e → lo ≤ e.start) :
    Ordered size lo es := by
  induction es generalizing lo with
  | nil => exact hsize
  | cons e es ih =>
  obtain ⟨hpos, hstop, hfits⟩ := hgood e mem_cons_self
  refine ⟨hlo e rfl, hpos, hfits, ?_⟩
  have hrest : ∀ e' ∈ es, 0 < e'.size ∧ e'.stop ≤ size ∧ e'.Fits := fun e' he' => hgood e' (mem_cons_of_mem _ he')
  cases es with
  | nil => exact hstop
  | cons b rest =>
  rw [checkOverlap] at h
  split at h
  · cases h
  next hnext =>
  refine ih hrest h hstop fun e' he' => ?_
  cases he'
  exact not_lt.mp hnext

/-- An indexed image has its extents in order and apart. -/
lemma ensureIndexed_ordered {img : Image} (h : ensureIndexed img = .ok ix) : Ordered ix.size 0 ix.extents := by
  unfold ensureIndexed at h
  split at h
  · cases h
  next hsize =>
  split at h
  · cases h
  next checked hchecked =>
  simp only at h
  split at h
  · cases h
  next hoverlap =>
  cases h
  refine ordered_of_checked (fun e he => ?_) hoverlap (Nat.zero_le _) fun e _ => Nat.zero_le _
  exact checkExtents_ok (by omega) hchecked e ((perm_insertionSort _ _).mem_iff.mp he)

/-! ## The extents from an offset on -/

/-- `rest` is what matters of the extents from `pos` on. -/
structure From (size pos : Nat) (es rest : List Extent) : Prop where
  ordered : ∃ lo, Ordered size lo rest
  ahead : ∀ e, rest.head? = some e → pos < e.stop
  same : ∀ i, pos ≤ i → byteAt es i = byteAt rest i

lemma From.mono (h : From size pos es rest) (hle : pos ≤ pos')
    (hahead : ∀ e, rest.head? = some e → pos' < e.stop) : From size pos' es rest :=
  ⟨h.ordered, hahead, fun i hi => h.same i (le_trans hle hi)⟩

lemma From.next (h : From size pos es (e :: rest)) (hle : pos ≤ pos') (hbeh : pos' = e.stop) :
    From size pos' es rest := by
  obtain ⟨lo, hordered⟩ := h.ordered
  refine ⟨⟨e.stop, hordered.2.2.2⟩, fun e' he' => ?_, fun i hi => ?_⟩
  · cases rest with
    | nil => cases he'
    | cons b rest =>
    cases he'
    have hnext := hordered.2.2.2
    have hstart := hnext.1
    have hpos := hnext.2.1
    rw [hbeh]
    show e.stop < e'.start + e'.size
    omega
  · rw [h.same i (le_trans hle hi), byteAt_behind (by omega)]

section

variable (h : Ordered size lo es)

include h

lemma dropWhile_from (off : Nat) : From size off es (es.dropWhile fun e => decide (e.stop ≤ off)) := by
  induction es generalizing lo with
  | nil => exact ⟨⟨lo, h⟩, fun e he => absurd he (by simp), fun i _ => rfl⟩
  | cons e es ih =>
  rw [dropWhile_cons]
  split
  next hbef =>
    have hstop : e.stop ≤ off := by simpa using hbef
    have hfrom := ih h.2.2.2
    refine ⟨hfrom.ordered, hfrom.ahead, fun i hi => ?_⟩
    rw [byteAt_behind (by omega)]
    exact hfrom.same i hi
  next hbef =>
    have hstop : off < e.stop := by simpa using hbef
    refine ⟨⟨lo, h⟩, fun e' he' => ?_, fun i _ => rfl⟩
    cases he'
    exact hstop

lemma Ordered.lt_stop : ∀ e ∈ es, lo < e.stop := by
  induction es generalizing lo with
  | nil => exact fun e he => absurd he not_mem_nil
  | cons a es ih =>
  obtain ⟨hlo, hpos, -, hrest⟩ := h
  have ha : lo < a.stop := by
    unfold stop
    omega
  intro e he
  rcases mem_cons.mp he with rfl | he
  · exact ha
  · exact ha.trans (ih hrest e he)

lemma Ordered.pairwise : es.Pairwise fun a b => a.stop < b.stop := by
  induction es generalizing lo with
  | nil => exact .nil
  | cons a es ih => exact pairwise_cons.mpr ⟨h.2.2.2.lt_stop, ih h.2.2.2⟩

/-- The binary search finds the first extent that ends behind the offset. -/
lemma seekExtent_eq (off : Nat) : seekExtent es off = es.dropWhile fun e => decide (e.stop ≤ off) := by
  rw [seekExtent, Search.search_findIdx (q := fun e => decide (off < e.stop)), dropWhile_eq_drop_findIdx_not]
  · simp only [← decide_not, not_le]
  · intro i hi
    rw [getElem?_eq_getElem hi]
    rfl
  · refine h.pairwise.imp fun hab ha => ?_
    simp only [decide_eq_true_eq] at ha ⊢
    exact ha.trans hab

lemma seekExtent_from (off : Nat) : From size off es (seekExtent es off) := by
  rw [seekExtent_eq h]
  exact dropWhile_from h off

end

/-! ## Random access -/

lemma window_zero {m : Nat → UInt8} (h : ∀ i, a ≤ i → i < a + n → m i = 0) : window m a n = replicate n 0 := by
  have hcongr : window m a n = window (fun _ => 0) a n := window_congr h
  rw [hcongr]
  unfold window
  rw [map_const', length_range]

lemma window_getD {data : Bytes} (h : a + n ≤ data.length) :
    window (fun i => data.getD i 0) a n = (data.drop a).take n := by
  refine ext_getElem? fun i => ?_
  by_cases hi : i < n
  · rw [getElem?_window _ _ _ _ hi, getElem?_take_of_lt hi, getElem?_drop,
      getD_eq_getElem?_getD, getElem?_eq_getElem (by omega)]
    rfl
  · rw [getElem?_eq_none (by simp; omega), getElem?_eq_none (by simp; omega)]

/-- A backing file gives its own bytes, fewer than asked only with an error. -/
lemma Source.readAt_spec (f : Source) (off : Int) (n : Nat) :
    (f.readAt off n).1 = window f.byte off.toNat (f.readAt off n).1.length ∧ (f.readAt off n).1.length ≤ n ∧
      ((f.readAt off n).2 = .ok → 0 ≤ off ∧ (f.readAt off n).1.length = n) := by
  unfold Source.readAt
  split
  · refine ⟨rfl, Nat.zero_le _, fun h => ?_⟩
    cases h
  next hoff =>
    simp only
    split
    next k hk =>
      have hlt := mem_range.mp (mem_of_find?_eq_some hk)
      refine ⟨by simp, by simp; omega, fun h => ?_⟩
      cases h
    · refine ⟨by simp, by simp, fun h => ⟨by omega, ?_⟩⟩
      simp only [length_window]
      split at h
      · cases h
      · omega

/-- A read of an extent gives its bytes, all of them if it succeeds. -/
lemma Extent.read_spec (hfits : e.Fits) (within n : Nat) (hn : within + n ≤ e.size) :
    (e.read within n).1 = window e.byte within (e.read within n).1.length ∧ (e.read within n).1.length ≤ n ∧
      ((e.read within n).2 = .ok → (e.read within n).1.length = n) := by
  unfold read byte
  unfold Extent.Fits at hfits
  cases hcont : e.content with
  | zeros =>
    simp only [length_replicate, le_refl, implies_true, and_self, and_true]
    exact (window_zero fun _ _ _ => rfl).symm
  | bytes data =>
    simp only [hcont] at hfits ⊢
    have hlen : ((data.drop within).take n).length = n := by
      rw [length_take, length_drop]
      omega
    refine ⟨?_, hlen.le, fun _ => hlen⟩
    rw [hlen, window_getD (by omega)]
  | file f off =>
  obtain ⟨hbytes, hle, hok⟩ := f.readAt_spec (off + within) n
  refine ⟨?_, hle, fun h => (hok h).2⟩
  by_cases hneg : off + within < 0
  · have hnil : (f.readAt (off + within) n).1 = [] := by
      unfold Source.readAt
      rw [if_pos hneg]
    rw [hnil]
    rfl
  have hshift : ∀ k, window f.byte (off + within).toNat k =
      window (fun i : Nat => if off + i < 0 then 0 else f.byte (off + i).toNat) within k := by
    intro k
    unfold window
    refine map_congr_left fun i _ => ?_
    simp only
    rw [if_neg (by push_cast; omega)]
    congr 1
    omega
  rw [← hshift]
  exact hbytes

/-- Inside an extent the image shows its bytes. -/
lemma window_inside (h : From size pos es (e :: rest)) (hlo : e.start ≤ pos) (hn : pos + n ≤ e.stop) :
    window (byteAt es) pos n = window e.byte (pos - e.start) n := by
  unfold window
  refine map_congr_left fun i hi => ?_
  have hi := mem_range.mp hi
  rw [h.same _ (by omega), byteAt_inside (by omega) (by omega)]
  congr 1
  omega

/-- What has been read from `off` on is right. -/
def ReadSo (es : List Extent) (off : Nat) (done : Bytes) : Prop :=
  done = Memory.window (byteAt es) off done.length

lemma ReadSo.append {done got : Bytes} (h : ReadSo es off done)
    (hgot : got = window (byteAt es) (off + done.length) got.length) : ReadSo es off (done ++ got) := by
  unfold ReadSo at h ⊢
  rw [length_append, window_add, ← h, ← hgot]

/-- What the loop returns: a part of what was asked for, all of it if there is no error. -/
def ReadOk (es : List Extent) (off remaining : Nat) (r : Bytes × Option ReadError) : Prop :=
  ReadSo es off r.1 ∧ r.1.length ≤ remaining ∧ (r.2 = none → r.1.length = remaining)

/-- The loop reads the bytes of the image up to the first failure. -/
lemma readLoop_spec (off remaining turns : Nat) (done : Bytes)
    (hfrom : From size (off + done.length) es rest) (hso : ReadSo es off done)
    (hle : done.length ≤ remaining) (hturns : remaining - done.length < turns) :
    ReadOk es off remaining (readLoop off remaining turns rest done) := by
  induction turns generalizing rest done with
  | zero => omega
  | succ turns ih =>
  rw [readLoop]
  split
  next hmore =>
    -- bytes outside all extents up to `k` bytes ahead
    have hzeros : ∀ k, 0 < k → k ≤ remaining - done.length →
        (∀ i, off + done.length ≤ i → i < off + done.length + k → byteAt rest i = 0) →
        (∀ e, rest.head? = some e → off + done.length + k < e.stop) →
        ReadOk es off remaining (readLoop off remaining turns rest (done ++ replicate k 0)) := by
      intro k hk hkle hzero hahead
      have hlen : (done ++ replicate k 0).length = done.length + k := by simp
      refine ih _ (hfrom.mono (by omega) ?_) (hso.append ?_) (by omega) (by omega)
      · rw [hlen, ← add_assoc]
        exact hahead
      · rw [length_replicate]
        refine (window_zero fun i hlo hhi => ?_).symm
        rw [hfrom.same i hlo]
        exact hzero i hlo hhi
    match rest, hfrom, hzeros with
    | [], hfrom, hzeros => exact hzeros _ (by omega) le_rfl (fun i _ _ => rfl) fun e he => absurd he (by simp)
    | e :: rest', hfrom, hzeros =>
      obtain ⟨lo, hordered⟩ := hfrom.ordered
      have hstop := hfrom.ahead e rfl
      simp only
      split
      next hgap =>
        refine hzeros _ (by omega) (min_le_left _ _) (fun i _ hi => ?_) fun e' he' => ?_
        · exact hordered.byteAt_gap (by omega)
        · cases he'
          have hpos := hordered.2.1
          show _ < e.start + e.size
          omega
      next hgap =>
      have hstop' : off + done.length < e.start + e.size := hstop
      generalize hn : min (remaining - done.length) (e.size - (off + done.length - e.start)) = n
      obtain ⟨hbytes, hgotle, hgotok⟩ := read_spec hordered.2.2.1
        (off + done.length - e.start) n (by omega)
      generalize e.read (off + done.length - e.start) n = result at hbytes hgotle hgotok
      obtain ⟨got, ending⟩ := result
      simp only at hbytes hgotle hgotok ⊢
      have hwin : got = window (byteAt es) (off + done.length) got.length := by
        rw [window_inside hfrom (by omega) (by show _ ≤ e.start + e.size; omega)]
        exact hbytes
      have hso' := hso.append hwin
      have hlen : (done ++ got).length = done.length + got.length := length_append
      have hgo : 0 < got.length → ReadOk es off remaining (readLoop off remaining turns
          (if off + (done ++ got).length ≥ e.stop then rest' else e :: rest') (done ++ got)) := by
        intro hpos
        refine ih _ ?_ hso' (by omega) (by omega)
        split
        next hend =>
          refine hfrom.next (by omega) ?_
          show _ = e.start + e.size
          have hend' : e.start + e.size ≤ off + (done ++ got).length := hend
          omega
        next hend =>
        refine hfrom.mono (by omega) fun e' he' => ?_
        cases he'
        omega
      have hbound : (done ++ got).length ≤ remaining := by omega
      match ending with
      | .failed => exact ⟨hso', hbound, nofun⟩
      | .eof =>
        simp only
        split
        next hfull => exact hgo (by omega)
        next hshort => exact ⟨hso', hbound, nofun⟩
      | .ok =>
        have hfull := hgotok rfl
        simp only
        split
        next hnil =>
          rw [hnil] at hfull
          simp at hfull
          omega
        next hsome => exact hgo (by omega)
  next hdone => exact ⟨hso, hle, fun _ => by show done.length = remaining; omega⟩

/-- **Random access** gives the bytes of the image: all that were asked for when there is no error, a part of
them otherwise. -/
lemma Indexed.readAt_spec (h : Ordered ix.size 0 ix.extents) (off : Int) (len : Nat) :
    (ix.readAt off len).1 = window (byteAt ix.extents) off.toNat (ix.readAt off len).1.length ∧
      (ix.readAt off len).1.length ≤ len ∧
      ((ix.readAt off len).2 = none → (ix.readAt off len).1.length = len) := by
  unfold readAt
  split
  · exact ⟨rfl, Nat.zero_le _, nofun⟩
  split
  next hlen => exact ⟨rfl, Nat.zero_le _, fun _ => hlen.symm⟩
  split
  next hend => exact ⟨rfl, Nat.zero_le _, nofun⟩
  next hend =>
  simp only
  obtain ⟨hso, hle, hok⟩ := readLoop_spec off.toNat (min len (ix.size - off.toNat))
    (min len (ix.size - off.toNat) + 1) [] (seekExtent_from h off.toNat) rfl (Nat.zero_le _)
    (Nat.lt_succ_self _)
  split
  next done err heq =>
    rw [heq] at hso hle
    exact ⟨hso, le_trans hle (min_le_left _ _), nofun⟩
  next done heq =>
    rw [heq] at hso hle hok
    have hlen := hok rfl
    simp only at hso hle hlen ⊢
    refine ⟨hso, by omega, fun h => ?_⟩
    split at h
    · cases h
    · omega

/-! ## Writing -/

/-- The bytes that the backing file does not have. -/
def Extent.lack (e : Extent) : Nat :=
  match e.content with
  | .file f off => e.size - (f.size - off.toNat)
  | _ => 0

lemma Output.write_ok {l : Bytes} (h : w.write l = .ok w') :
    w'.content = put w.content w.position l ∧ w'.position = w.position + l.length ∧ w'.seeker = w.seeker := by
  unfold Output.write at h
  split at h
  · cases h
  · cases h
    exact ⟨rfl, rfl, rfl⟩

lemma put_window_at (m b : Nat → UInt8) (a k n i : Nat) :
    put m a (window b k n) i = if a ≤ i ∧ i < a + n then b (k + (i - a)) else m i := by
  split
  next h =>
    have hput := put_of_inside m a (window b k n) h.1 (by simpa using h.2)
    rw [getElem?_window _ _ _ _ (by omega)] at hput
    exact Option.some.inj hput
  next h => exact put_of_outside m a _ (by simp; omega)

lemma put_replicate (m : Nat → UInt8) (a n i : Nat) :
    put m a (replicate n 0) i = if a ≤ i ∧ i < a + n then 0 else m i := by
  rw [← window_zero (a := 0) fun _ _ _ => rfl]
  exact put_window_at m (fun _ => 0) a 0 n i

/-- A gap is written as zeros, or skipped up to its last byte. -/
lemma writeImageGap_ok (h : writeImageGap w n = .ok w') : w'.position = w.position + n ∧ w'.seeker = w.seeker ∧
      ∀ i, w'.content i = if w.position ≤ i ∧ i < w.position + n ∧
        ¬ (w.seeker = true ∧ i + 1 < w.position + n) then 0 else w.content i := by
  unfold writeImageGap at h
  split at h
  next hzero =>
    cases h
    exact ⟨by omega, rfl, fun i => by rw [if_neg (by omega)]⟩
  split at h
  next hnz hseek =>
    obtain ⟨hcont, hpos, hkeep⟩ := Output.write_ok h
    refine ⟨?_, hkeep, fun i => ?_⟩
    · rw [hpos]
      show w.position + (n - 1) + 1 = w.position + n
      omega
    have hput := put_replicate w.content (w.position + (n - 1)) 1 i
    rw [hcont]
    refine hput.trans ?_
    simp only [hseek, true_and]
    congr 1
    rw [eq_iff_iff]
    omega
  next hnz hseek =>
    obtain ⟨hcont, hpos, hkeep⟩ := Output.write_ok h
    refine ⟨by rw [hpos, length_replicate], hkeep, fun i => ?_⟩
    rw [hcont, put_replicate]
    refine if_congr ?_ rfl rfl
    simp [hseek]

/-- An extent is written where the output stands; only a file may give fewer bytes. -/
lemma Extent.write_ok (hfits : e.Fits) (h : e.write w = .ok w') :
    w'.position + e.lack = w.position + e.size ∧ w'.seeker = w.seeker ∧ ∀ i, w'.content i =
        if w.position ≤ i ∧ i < w'.position then e.byte (i - w.position) else w.content i := by
  unfold write at h
  unfold lack byte
  unfold Extent.Fits at hfits
  cases hcont : e.content with
  | zeros =>
    simp only [hcont] at h ⊢
    obtain ⟨hwriting, hpos, hkeep⟩ := Output.write_ok h
    rw [length_replicate] at hpos
    refine ⟨by omega, hkeep, fun i => ?_⟩
    rw [hwriting, put_replicate, hpos]
  | bytes data =>
    simp only [hcont] at h hfits ⊢
    obtain ⟨hwriting, hpos, hkeep⟩ := Output.write_ok h
    have hlen : (data.take e.size).length = e.size := by
      rw [length_take]
      omega
    rw [hlen] at hpos
    refine ⟨by omega, hkeep, fun i => ?_⟩
    have hdata : window (fun i => data.getD i 0) 0 e.size = data.take e.size := window_getD (by omega)
    rw [hwriting, hpos, ← hdata, put_window_at]
    simp only [zero_add]
  | file f off =>
  simp only [hcont] at h ⊢
  unfold writeFileRangeTo at h
  split at h
  · cases h
  next hrange =>
  simp only at h
  obtain ⟨hbytes, -, hok⟩ := f.readAt_spec off (min e.size (f.size - off.toNat))
  generalize f.readAt off (min e.size (f.size - off.toNat)) = result at h hbytes hok
  obtain ⟨got, ending⟩ := result
  cases ending with
  | eof => cases h
  | failed => cases h
  | ok =>
  simp only at h hbytes hok
  have hlen := (hok trivial).2
  obtain ⟨hwriting, hpos, hkeep⟩ := Output.write_ok h
  refine ⟨by omega, hkeep, fun i => ?_⟩
  rw [hwriting, hbytes, hlen, put_window_at, hpos, hlen]
  refine if_congr Iff.rfl ?_ rfl
  rw [if_neg (by omega)]
  congr 1
  omega

/-- The byte or its successor lies in an extent. -/
def Near (es : List Extent) (i : Nat) : Prop := ∃ e ∈ es, e.start ≤ i + 1 ∧ i < e.stop

instance (es : List Extent) (i : Nat) : Decidable (Near es i) :=
  inferInstanceAs (Decidable (∃ e ∈ es, e.start ≤ i + 1 ∧ i < e.stop))

lemma near_cons (e : Extent) (es : List Extent) (i : Nat) :
    Near (e :: es) i ↔ (e.start ≤ i + 1 ∧ i < e.stop) ∨ Near es i := by
  unfold Near
  simp [mem_cons, or_and_right, exists_or]

lemma Ordered.not_near (h : Ordered size lo es) (hi : i + 1 < lo) : ¬ Near es i := by
  induction es generalizing lo with
  | nil => simp [Near]
  | cons e es ih =>
  obtain ⟨hlo, hpos, -, hrest⟩ := h
  rw [near_cons, not_or]
  refine ⟨by omega, ih hrest ?_⟩
  show i + 1 < e.start + e.size
  omega

section

variable (hordered : Ordered size written es) (h : writeLoop es written w = .ok (written', w'))

include hordered h

/-- The counter of the loop, and the position of the output behind it. -/
lemma writeLoop_position : w'.position + (es.map lack).sum + written = w.position + written' ∧
      written ≤ written' ∧ written' ≤ size ∧ w'.seeker = w.seeker ∧ ∀ i, written' ≤ i → ¬ Near es i := by
  induction es generalizing written w with
  | nil =>
    cases h
    exact ⟨by simp, le_rfl, hordered, rfl, fun i _ => by simp [Near]⟩
  | cons e es ih =>
  obtain ⟨hlo, hpos, hfits, hrest⟩ := hordered
  rw [writeLoop] at h
  split at h
  · cases h
  next w1 hgap =>
  split at h
  · cases h
  next w2 hwrite =>
  have hcount : written + (e.start - written) + e.size = e.stop := by
    unfold stop
    omega
  rw [hcount] at h
  obtain ⟨hpos1, hseek1, -⟩ := writeImageGap_ok hgap
  obtain ⟨hpos2, hseek2, -⟩ := write_ok hfits hwrite
  obtain ⟨hposition, hle, hsize, hseek, hbeh⟩ := ih hrest h
  unfold stop at hle hposition hcount
  refine ⟨?_, by omega, hsize, by rw [hseek, hseek2, hseek1], fun i hi => ?_⟩
  · rw [map_cons, sum_cons]
    omega
  · rw [near_cons, not_or]
    refine ⟨?_, hbeh i hi⟩
    show ¬ (e.start ≤ i + 1 ∧ i < e.start + e.size)
    omega

/-- The byte before the counter belongs to the last extent. -/
lemma writeLoop_near (hlo : written ≤ i) (hi : i + 1 = written') : Near es i := by
  induction es generalizing written w with
  | nil =>
    cases h
    omega
  | cons e es ih =>
  obtain ⟨hfrom, hpos, -, hrest⟩ := hordered
  rw [writeLoop] at h
  split at h
  · cases h
  split at h
  · cases h
  rw [show written + (e.start - written) + e.size = e.stop by unfold stop; omega] at h
  have hle := (writeLoop_position hrest h).2.1
  rw [near_cons]
  rcases lt_or_ge i e.stop with hlt | hge
  · refine .inl ⟨?_, hlt⟩
    unfold stop at hle hlt
    omega
  · exact .inr (ih hrest h hge)

/-- Without a short file every byte is written but those that are skipped. -/
lemma writeLoop_content (hposition : w.position = written) (hlack : ∀ e ∈ es, e.lack = 0) (i : Nat) :
    w'.content i = if written ≤ i ∧ i < written' ∧ ¬ (w.seeker = true ∧ ¬ Near es i)
      then byteAt es i else w.content i := by
  induction es generalizing written w with
  | nil =>
    cases h
    rw [if_neg (by omega)]
  | cons e es ih =>
  have hall := hordered
  obtain ⟨hlo, hpos, hfits, hrest⟩ := hordered
  rw [writeLoop] at h
  split at h
  · cases h
  next w1 hgap =>
  split at h
  · cases h
  next w2 hwrite =>
  have hstop : e.stop = e.start + e.size := rfl
  rw [show written + (e.start - written) + e.size = e.stop by omega] at h
  obtain ⟨hpos1, hseek1, hcont1⟩ := writeImageGap_ok hgap
  obtain ⟨hpos2, hseek2, hcont2⟩ := write_ok hfits hwrite
  have hlack0 := hlack e mem_cons_self
  have hle := (writeLoop_position hrest h).2.1
  have hih := ih hrest h (by omega) fun e' he' => hlack e' (mem_cons_of_mem _ he')
  have hstart : w1.position = e.start := by omega
  have hend : w2.position = e.stop := by omega
  rw [hih, hcont2, hcont1, hstart, hend, hseek2, hseek1, hposition,
    show written + (e.start - written) = e.start by omega]
  rcases lt_or_ge i e.start with hbef | hfrom
  · -- in the gap before the extent, or before it all
    have hnear : Near (e :: es) i ↔ e.start ≤ i + 1 := by
      have hnot : ¬ Near es i := hrest.not_near (by omega)
      rw [near_cons]
      constructor
      · rintro (hnear | hnear)
        · exact hnear.1
        · exact absurd hnear hnot
      · exact fun hnear => .inl ⟨hnear, by omega⟩
    rw [if_neg (by omega), if_neg (by omega), hall.byteAt_gap hbef]
    refine if_congr ?_ rfl rfl
    rw [hnear, not_le]
    exact ⟨fun hin => ⟨hin.1, by omega, hin.2.2⟩, fun hin => ⟨hin.1, hbef, hin.2.2⟩⟩
  rcases lt_or_ge i e.stop with hins | hbeh
  · have hnear : Near (e :: es) i := by
      rw [near_cons]
      exact .inl ⟨by omega, hins⟩
    rw [if_neg (by omega), if_pos ⟨hfrom, hins⟩, byteAt_inside hfrom hins,
      if_pos ⟨by omega, by omega, fun hskip => hskip.2 hnear⟩]
  have hnear : Near (e :: es) i ↔ Near es i := by
    rw [near_cons]
    constructor
    · rintro (hnear | hnear)
      · omega
      · exact hnear
    · exact .inr
  rw [byteAt_behind hbeh]
  rw [if_neg (show ¬ (e.start ≤ i ∧ i < e.stop) by omega),
    if_neg (show ¬ (written ≤ i ∧ i < e.start ∧ ¬ (w.seeker = true ∧ i + 1 < e.start)) by omega)]
  refine if_congr ?_ rfl rfl
  rw [hnear]
  constructor
  · exact fun hin => ⟨by omega, hin.2⟩
  · exact fun hin => ⟨hbeh, hin.2⟩

end

/-- No extent touches the byte or the one behind it: a writer that can seek skips it. -/
def Skipped (ix : Indexed) (i : Nat) : Prop := i + 1 < ix.size ∧ ¬ Near ix.extents i

instance (ix : Indexed) (i : Nat) : Decidable (Skipped ix i) :=
  inferInstanceAs (Decidable (i + 1 < ix.size ∧ ¬ Near ix.extents i))

/-- No extent ends behind its file. -/
def Complete (ix : Indexed) : Prop := ∀ e ∈ ix.extents, e.lack = 0

/-- Away from the extents there are zeros. -/
lemma Ordered.byteAt_of_not_near (h : Ordered size lo es) (hi : ¬ Near es i) : byteAt es i = 0 := by
  induction es generalizing lo with
  | nil => rfl
  | cons e es ih =>
  rw [near_cons, not_or] at hi
  rw [byteAt_cons, if_neg (by omega)]
  exact ih h.2.2.2 hi.2

/-- **Writing** gives the bytes of the image exactly if no file is short and what is skipped was
zero before. -/
lemma Indexed.writeTo_agrees_iff (hordered : Ordered ix.size 0 ix.extents) (hw : w.position = 0)
    (h : ix.writeTo w = .ok (written, w')) :
    (w'.position = ix.size ∧ ∀ i, i < ix.size → w'.content i = byteAt ix.extents i) ↔
      Complete ix ∧ (w.seeker = true → ∀ i, Skipped ix i → w.content i = 0) := by
  unfold writeTo at h
  split at h
  · cases h
  next counted w1 hloop =>
  split at h
  · cases h
  next w2 hgap =>
  cases h
  obtain ⟨hpos, -, hsize, hseeker, hbeh⟩ := writeLoop_position hordered hloop
  obtain ⟨hpos', -, hcont'⟩ := writeImageGap_ok hgap
  have hlack : Complete ix ↔ (ix.extents.map lack).sum = 0 := by
    rw [sum_eq_zero_iff]
    simp [Complete]
  have hfull : w'.position = ix.size ↔ Complete ix := by
    rw [hlack]
    omega
  rw [hfull]
  refine and_congr_right fun hcomp => ?_
  have hcont := writeLoop_content hordered hloop hw hcomp
  have hcounted : w1.position = counted := by
    have hzero := hlack.mp hcomp
    omega
  rw [hcounted, hseeker, Nat.add_sub_cancel' hsize] at hcont'
  -- a byte of the image, unless it is skipped
  have hbyte : ∀ i, i < ix.size → w'.content i =
      if w.seeker = true ∧ Skipped ix i then w.content i else byteAt ix.extents i := by
    intro i hi
    rcases lt_or_ge i counted with hlt | hge
    · rw [hcont', if_neg (fun hin => absurd hin.1 (not_le.mpr hlt)), hcont]
      by_cases hskip : w.seeker = true ∧ ¬ Near ix.extents i
      · have hnotLast : i + 1 ≠ counted := fun hlast => hskip.2 (writeLoop_near hordered hloop (Nat.zero_le _) hlast)
        rw [if_neg (fun hin => hin.2.2 hskip), if_pos ⟨hskip.1, by omega, hskip.2⟩]
      · rw [if_pos ⟨Nat.zero_le _, hlt, hskip⟩, if_neg (fun hin => hskip ⟨hin.1, hin.2.2⟩)]
    have hnot := hbeh i hge
    have hbef : w1.content i = w.content i := by
      rw [hcont, if_neg (fun hin => absurd hin.2.1 (not_lt.mpr hge))]
    rw [hcont', hbef, hordered.byteAt_of_not_near hnot]
    by_cases hskip : w.seeker = true ∧ i + 1 < ix.size
    · rw [if_neg (fun hin => hin.2.2 hskip), if_pos ⟨hskip.1, hskip.2, hnot⟩]
    · rw [if_pos ⟨hge, hi, hskip⟩, if_neg (fun hin => hskip ⟨hin.1, hin.2.1⟩)]
  constructor
  · intro hall hseek i hskip
    have heq := hall i (by have := hskip.1; omega)
    rw [hbyte i (by have := hskip.1; omega), if_pos ⟨hseek, hskip⟩] at heq
    rw [heq]
    exact hordered.byteAt_of_not_near hskip.2
  intro hzero i hi
  rw [hbyte i hi]
  split
  next hskip =>
    rw [hzero hskip.1 i hskip.2]
    exact (hordered.byteAt_of_not_near hskip.2.2).symm
  · rfl

/-! ## Reading what was written -/

/-- Reads inside the extent do not fail. -/
def Extent.Readable (e : Extent) : Prop :=
  ∀ within n, within + n ≤ e.size → (e.read within n).2 = .ok

/-- When a read of a file succeeds. -/
lemma Source.readAt_ok_iff (f : Source) (off : Int) (n : Nat) : (f.readAt off n).2 = .ok ↔
      0 ≤ off ∧ n ≤ f.size - off.toNat ∧ ∀ i, i < n → f.bad (off.toNat + i) = false := by
  unfold Source.readAt
  split
  next hneg =>
    constructor
    · exact nofun
    · intro h
      omega
  next hoff =>
  simp only
  split
  next k hk =>
    have hbad := find?_some hk
    have hlt := mem_range.mp (mem_of_find?_eq_some hk)
    constructor
    · exact nofun
    · rintro ⟨-, -, hgood⟩
      simp only [hgood k (by omega)] at hbad
      cases hbad
  next hnone =>
    rw [find?_eq_none] at hnone
    constructor
    · intro h
      split at h
      · cases h
      next hfull =>
        refine ⟨by omega, by omega, fun i hi => ?_⟩
        simpa using hnone i (mem_range.mpr (by omega))
    · rintro ⟨-, hfull, -⟩
      rw [if_neg (by omega)]

/-- An extent that could be written can be read. -/
lemma Extent.readable_of_write (h : e.write w = .ok w') (hlack : e.lack = 0) : e.Readable := by
  intro within n hn
  unfold write at h
  unfold lack at hlack
  unfold read
  cases hcont : e.content with
  | zeros => rfl
  | bytes data => rfl
  | file f off =>
  simp only [hcont] at h hlack ⊢
  unfold writeFileRangeTo at h
  split at h
  · cases h
  next hrange =>
  simp only at h
  split at h
  next got hread =>
    have hok : (f.readAt off (min e.size (f.size - off.toNat))).2 = .ok := by rw [hread]
    obtain ⟨hoff, -, hgood⟩ := (f.readAt_ok_iff _ _).mp hok
    refine (f.readAt_ok_iff _ _).mpr ⟨by omega, by omega, fun i hi => ?_⟩
    rw [show (off + within).toNat + i = off.toNat + (within + i) by omega]
    exact hgood _ (by omega)
  · cases h

lemma writeLoop_readable (h : writeLoop es written w = .ok (written', w')) (hlack : ∀ e ∈ es, e.lack = 0) :
    ∀ e ∈ es, e.Readable := by
  induction es generalizing written w with
  | nil => exact fun e he => absurd he not_mem_nil
  | cons e es ih =>
  rw [writeLoop] at h
  split at h
  · cases h
  split at h
  · cases h
  next w2 hwrite =>
  intro e' he'
  rcases mem_cons.mp he' with rfl | he'
  · exact readable_of_write hwrite (hlack _ mem_cons_self)
  · exact ih h (fun e'' he'' => hlack e'' (mem_cons_of_mem _ he'')) e' he'

/-- An image that could be written can be read. -/
lemma readable_of_writeTo (h : ix.writeTo w = .ok (written, w'))
    (hcomp : Complete ix) : ∀ e ∈ ix.extents, e.Readable := by
  unfold writeTo at h
  split at h
  · cases h
  next hloop => exact writeLoop_readable hloop hcomp

lemma readLoop_readable {off rem turns : Nat} (hgood : ∀ e ∈ rest, e.Fits ∧ e.Readable)
    : (readLoop off rem turns rest done).2 = none := by
  induction turns generalizing rest done with
  | zero => rfl
  | succ turns ih =>
  unfold readLoop
  split
  case isFalse => rfl
  next hmore =>
  cases rest with
  | nil => exact ih hgood
  | cons e rest =>
  simp only
  split
  · exact ih hgood
  next hstart =>
  split
  case isFalse => exact ih hgood
  next hstop =>
  have hstop' : off + done.length < e.start + e.size := hstop
  obtain ⟨hfits, hreadable⟩ := hgood e mem_cons_self
  generalize hn : min (rem - done.length) (e.size - (off + done.length - e.start)) = n
  have hok := hreadable (off + done.length - e.start) n (by omega)
  have hlen := (read_spec hfits (off + done.length - e.start) n (by omega)).2.2 hok
  generalize e.read (off + done.length - e.start) n = result at hok hlen
  obtain ⟨got, ending⟩ := result
  simp only at hok hlen
  subst hok
  simp only
  split
  next hnil =>
    rw [hnil, length_nil] at hlen
    omega
  · refine ih ?_
    split
    · exact fun e' he' => hgood e' (mem_cons_of_mem _ he')
    · exact hgood

lemma Extent.read_ne_eof {e : Extent} (hlack : e.lack = 0) {within n : Nat} (h : within + n ≤ e.size) :
    (e.read within n).2 ≠ .eof := by
  unfold Extent.lack at hlack
  unfold Extent.read
  cases hcont : e.content with
  | zeros => exact nofun
  | bytes data => exact nofun
  | file f off =>
  simp only [hcont] at hlack
  unfold Source.readAt
  simp only
  split
  · exact nofun
  next hoff =>
  split
  · exact nofun
  · rw [if_neg (by omega)]
    exact nofun

/-- Without a short file the loop does not end with `io.EOF`. -/
lemma readLoop_ne_eof {off rem turns : Nat} (hcomp : ∀ e ∈ rest, e.lack = 0) :
    (readLoop off rem turns rest done).2 ≠ some .eof := by
  induction turns generalizing rest done with
  | zero => exact nofun
  | succ turns ih =>
  unfold readLoop
  split
  case isFalse => exact nofun
  next hmore =>
  cases rest with
  | nil => exact ih hcomp
  | cons e rest =>
  simp only
  split
  · exact ih hcomp
  next hstart =>
  split
  case isFalse => exact ih hcomp
  next hstop =>
  have hstop' : off + done.length < e.start + e.size := hstop
  generalize hn : min (rem - done.length) (e.size - (off + done.length - e.start)) = n
  have hwithin : off + done.length - e.start + n ≤ e.size := by omega
  have hno := Extent.read_ne_eof (hcomp e mem_cons_self) hwithin
  generalize e.read (off + done.length - e.start) n = result at hno
  obtain ⟨got, ending⟩ := result
  cases ending with
  | eof => exact absurd rfl hno
  | failed => exact nofun
  | ok =>
  simp only
  split
  · exact nofun
  · refine ih ?_
    split
    · exact fun e' he' => hcomp e' (mem_cons_of_mem _ he')
    · exact hcomp

/-- A read behind the end delivers what is left. -/
lemma Indexed.length_readAt_eof (h : Ordered ix.size 0 ix.extents) (hcomp : Complete ix) {off : Int} {len : Nat}
    (heof : (ix.readAt off len).2 = some .eof) : (ix.readAt off len).1.length = ix.size - off.toNat := by
  unfold readAt at heof ⊢
  split at heof
  · cases heof
  split at heof
  · cases heof
  next hneg hlen =>
  rw [if_neg hneg, if_neg hlen]
  split at heof
  next hend =>
    rw [if_pos hend]
    exact (Nat.sub_eq_zero_of_le hend).symm
  next hend =>
  rw [if_neg hend]
  simp only at heof ⊢
  have hno : (readLoop off.toNat (min len (ix.size - off.toNat)) (min len (ix.size - off.toNat) + 1)
      (seekExtent ix.extents off.toNat) []).2 ≠ some .eof :=
    readLoop_ne_eof fun e he => hcomp e (mem_of_mem_drop he)
  obtain ⟨-, -, hok⟩ := readLoop_spec off.toNat (min len (ix.size - off.toNat))
    (min len (ix.size - off.toNat) + 1) [] (seekExtent_from h off.toNat) rfl (Nat.zero_le _)
    (Nat.lt_succ_self _)
  generalize readLoop off.toNat (min len (ix.size - off.toNat)) (min len (ix.size - off.toNat) + 1)
    (seekExtent ix.extents off.toNat) [] = result at heof hno hok ⊢
  obtain ⟨done, ending⟩ := result
  cases ending with
  | some err => exact absurd heof hno
  | none =>
  have hall : done.length = min len (ix.size - off.toNat) := hok rfl
  simp only at heof ⊢
  split at heof
  · omega
  · cases heof

lemma Ordered.fits (h : Ordered size lo es) : ∀ e ∈ es, e.Fits := by
  induction es generalizing lo with
  | nil => exact fun e he => absurd he not_mem_nil
  | cons a es ih =>
  intro e he
  rcases mem_cons.mp he with rfl | he
  · exact h.2.2.1
  · exact ih h.2.2.2 e he

/-- A read inside an image that can be read delivers its bytes. -/
lemma Indexed.readAt_complete (hordered : Ordered ix.size 0 ix.extents)
    (hreadable : ∀ e ∈ ix.extents, e.Readable) {off len : Nat} (hin : off + len ≤ ix.size) (hlen : 0 < len) :
    ix.readAt off len = (window (byteAt ix.extents) off len, none) := by
  have hgood : ∀ e ∈ seekExtent ix.extents off, e.Fits ∧ e.Readable := by
    intro e he
    have hmem : e ∈ ix.extents := mem_of_mem_drop he
    exact ⟨hordered.fits e hmem, hreadable e hmem⟩
  have hok : (ix.readAt off len).2 = none := by
    have hnone : (readLoop off len (len + 1) (seekExtent ix.extents off) []).2 = none := readLoop_readable hgood
    unfold readAt
    rw [if_neg (by omega), if_neg (by omega), Int.toNat_natCast, if_neg (by omega), min_eq_left (by omega)]
    have hall := (readLoop_spec off len (len + 1) [] (seekExtent_from hordered off) rfl (Nat.zero_le _)
      (Nat.lt_succ_self _)).2.2 hnone
    simp only
    generalize readLoop off len (len + 1) (seekExtent ix.extents off) [] = result at hnone hall ⊢
    obtain ⟨done, ending⟩ := result
    simp only at hnone hall
    subst hnone
    simp only
    rw [if_neg (by omega)]
  obtain ⟨hbytes, -, hfull⟩ := readAt_spec hordered off len
  refine Prod.ext ?_ hok
  rw [hbytes, hfull hok, Int.toNat_natCast]

/-! ## The reported extents -/

/-- The ranges follow one another without a gap. -/
def Covers : Nat → List BlockExtent → Nat → Prop
  | pos, [], stop => pos = stop
  | pos, x :: xs, stop => x.offset = pos ∧ 0 < x.length ∧ Covers (pos + x.length) xs stop

/-- Two coverings in a row. -/
lemma covers_append {a c : Nat} {l1 l2 : List BlockExtent} :
    Covers a (l1 ++ l2) c ↔ ∃ b, Covers a l1 b ∧ Covers b l2 c := by
  induction l1 generalizing a with
  | nil => simp [Covers]
  | cons x xs ih =>
  simp only [cons_append, Covers, ih]
  constructor
  · rintro ⟨hoff, hpos, b, hfront, hback⟩
    exact ⟨b, ⟨hoff, hpos, hfront⟩, hback⟩
  · rintro ⟨b, ⟨hoff, hpos, hfront⟩, hback⟩
    exact ⟨hoff, hpos, b, hfront, hback⟩

/-- A range that is not allocated holds zeros. -/
def Sparse (byte : Nat → UInt8) (l : List BlockExtent) : Prop :=
  ∀ x ∈ l, x.allocated = false → ∀ i, x.offset ≤ i → i < x.offset + x.length → byte i = 0

/-- The ranges up to `pos` cover the window and tell the truth. -/
structure Reported (byte : Nat → UInt8) (off : Nat) (out : List BlockExtent) (pos : Nat) : Prop where
  covers : Covers off out pos
  sparse : Sparse byte out

lemma Reported.snoc (h : Reported byte off out pos) (hsize : size ≠ 0)
    (hzero : allocated = false → ∀ i, pos ≤ i → i < pos + size → byte i = 0) :
    Reported byte off (out ++ [⟨pos, size, allocated⟩]) (pos + size) := by
  refine ⟨covers_append.mpr ⟨pos, h.covers, rfl, Nat.pos_of_ne_zero hsize, rfl⟩, fun x hx hx' => ?_⟩
  rcases mem_append.mp hx with hx | hx
  · exact h.sparse x hx hx'
  · cases mem_singleton.mp hx
    exact hzero hx'

/-- A further range, which may join the one in front. -/
lemma Reported.appendExtent (h : Reported byte off out pos)
    (hzero : allocated = false → ∀ i, pos ≤ i → i < pos + size → byte i = 0) :
    Reported byte off (Filesystem.appendExtent out pos size allocated) (pos + size) := by
  unfold Filesystem.appendExtent
  split
  next hsize =>
    rw [hsize]
    exact h
  next hsize =>
  split
  next last hlast =>
    split
    next hjoin =>
      -- the last extent and the new one are of one kind
      obtain ⟨init, rfl⟩ : ∃ init, out = init ++ [last] := getLast?_eq_some_iff.mp hlast
      obtain ⟨b, hinit, rfl, hpos, hend⟩ := covers_append.mp h.covers
      rw [dropLast_concat]
      refine ⟨covers_append.mpr ⟨last.offset, hinit, rfl, ?_, ?_⟩, fun x hx hx' => ?_⟩
      · show 0 < last.length + size
        omega
      · show last.offset + (last.length + size) = pos + size
        omega
      rcases mem_append.mp hx with hx | hx
      · exact h.sparse x (mem_append_left _ hx) hx'
      cases mem_singleton.mp hx
      intro i hlo hhi
      simp only at hx' hlo hhi
      rcases lt_or_ge i pos with hbef | hfrom
      · exact h.sparse last (mem_append_right _ mem_cons_self) hx' i hlo (by omega)
      · exact hzero (hjoin.2.symm.trans hx') i hfrom (by omega)
    · exact h.snoc hsize hzero
  · exact h.snoc hsize hzero

/-- The ranges that a file reports, moved to their place. -/
lemma appendNested_reported {sourceOffset stop expected : Int} {xs : List NestedExtent}
    (hzero : ∀ x ∈ xs, x.allocated = false → ∀ k : Nat, x.offset ≤ sourceOffset + k →
      sourceOffset + k < x.offset + x.length → sourceOffset + k < stop → byte (position + k) = 0)
    (hexpected : sourceOffset ≤ expected) (hout : Reported byte off out (position + (expected - sourceOffset).toNat))
    (h : appendNested position sourceOffset stop xs expected out = .ok out') :
    Reported byte off out' (position + (stop - sourceOffset).toNat) := by
  induction xs generalizing expected out with
  | nil =>
    rw [appendNested] at h
    split at h
    · cases h
    next hstop =>
    cases h
    rw [← not_not.mp hstop]
    exact hout
  | cons x xs ih =>
  rw [appendNested] at h
  split at h
  · cases h
  next hgood =>
  obtain ⟨hlength, hoff, hins⟩ : 0 < x.length ∧ x.offset = expected ∧ x.length ≤ stop - expected := by omega
  refine ih (fun x' hx' => hzero x' (mem_cons_of_mem _ hx')) (by omega) ?_ h
  rw [show position + (expected + x.length - sourceOffset).toNat =
    position + (x.offset - sourceOffset).toNat + x.length.toNat by omega]
  rw [← hoff] at hout
  refine hout.appendExtent fun hx i hlo hhi => ?_
  have hbyte := hzero x mem_cons_self hx (i - position) (by omega) (by omega) (by omega)
  rwa [Nat.add_sub_cancel' (by omega)] at hbyte

/-- The ranges of one extent. -/
lemma Extent.report_reported (hstart : e.start ≤ position)
    (hbyte : ∀ i, position ≤ i → i < position + size → byte i = e.byte (i - e.start))
    (hout : Reported byte off out position) (h : e.report position size out = .ok out') :
    Reported byte off out' (position + size) := by
  unfold report at h
  unfold Extent.byte at hbyte
  cases hcont : e.content with
  | zeros =>
    simp only [hcont] at h hbyte
    cases h
    exact hout.appendExtent fun _ => hbyte
  | bytes data =>
    simp only [hcont] at h
    cases h
    exact hout.appendExtent nofun
  | file f foff =>
  simp only [hcont] at h hbyte
  cases hrep : f.extents with
  | none =>
    simp only [hrep] at h
    cases h
    exact hout.appendExtent nofun
  | some report =>
  simp only [hrep] at h
  split at h
  · cases h
  next l hl =>
  rw [show position + size = position + (foff + ((position - e.start : Nat) : Int) + size -
      (foff + ((position - e.start : Nat) : Int))).toNat by omega]
  refine appendNested_reported ?_ (Int.le_refl _) ?_ h
  · intro x hx hx' k hlo hhi hstop
    rw [hbyte (position + k) (by omega) (by omega)]
    split
    · rfl
    · exact f.sound report hrep _ _ l hl x hx hx' _ (by omega) (by omega)
  · rwa [Int.sub_self, Int.toNat_zero, add_zero]

/-- The loop reports up to its end, if it has a turn for each gap and each extent ahead. -/
lemma extentsLoop_reported {off stop turns : Nat} (hfrom : From size position es rest)
    (hpos : position ≤ stop) (hout : Reported (byteAt es) off out position)
    (hturns : position = stop ∨ 2 * rest.length + 1 ≤ turns ∨
      2 * rest.length ≤ turns ∧ ∃ e, rest.head? = some e ∧ e.start ≤ position)
    (h : extentsLoop stop turns rest position out = .ok out') : Reported (byteAt es) off out' stop := by
  induction turns generalizing rest position out with
  | zero =>
    rcases hturns with rfl | hturns | ⟨hturns, e, he, -⟩
    · cases h
      exact hout
    · omega
    · cases rest with
      | nil => cases he
      | cons e' rest => simp at hturns
  | succ turns ih =>
  unfold extentsLoop at h
  split at h
  case isFalse hdone =>
    cases h
    rwa [show stop = position by omega]
  next hmore =>
  -- up to the end nothing is covered
  have hlast : (∀ i, position ≤ i → i < stop → byteAt es i = 0) →
      Reported (byteAt es) off (appendExtent out position (stop - position) false) stop := by
    intro hzero
    have hall : Reported (byteAt es) off (appendExtent out position (stop - position) false)
        (position + (stop - position)) :=
      hout.appendExtent fun _ i hlo hhi => hzero i hlo (by omega)
    rwa [Nat.add_sub_cancel' hpos] at hall
  cases rest with
  | nil =>
    cases h
    exact hlast fun i hlo _ => hfrom.same i hlo
  | cons e rest =>
  obtain ⟨lo, hordered⟩ := hfrom.ordered
  have hahead := hfrom.ahead e rfl
  simp only at h
  split at h
  next hbeh =>
    cases h
    exact hlast fun i hlo hhi => by rw [hfrom.same i hlo, hordered.byteAt_gap (by omega)]
  next hbef =>
  split at h
  next hgap =>
    -- the gap before the extent
    rw [min_eq_right (by omega)] at h
    refine ih (hfrom.mono (by omega) fun e' he' => ?_) (by omega) ?_ (.inr (.inr ⟨?_, e, rfl, le_rfl⟩)) h
    · cases he'
      exact Nat.lt_add_of_pos_right hordered.2.1
    · have hall : Reported (byteAt es) off (appendExtent out position (e.start - position) false)
          (position + (e.start - position)) :=
        hout.appendExtent fun _ i hlo hhi => by rw [hfrom.same i hlo, hordered.byteAt_gap (by omega)]
      rwa [Nat.add_sub_cancel' (by omega)] at hall
    · rcases hturns with heq | hturns | ⟨-, e', he', hstart⟩
      · omega
      · omega
      · cases he'
        omega
  next hin =>
  split at h
  · cases h
  next out1 hrep =>
  have hstep : Reported (byteAt es) off out1 (min stop e.stop) := by
    have hall := report_reported (by omega) (fun i hlo hhi => ?_) hout hrep
    · rwa [Nat.add_sub_cancel' (by omega)] at hall
    · rw [hfrom.same i hlo, byteAt_inside (by omega) (by omega)]
  rw [length_cons] at hturns
  split at h
  next hfull =>
    have heq : min stop e.stop = e.stop := by omega
    rw [heq] at h hstep
    refine ih (hfrom.next (by omega) rfl) (by omega) hstep (.inr (.inl ?_)) h
    omega
  next hpart =>
  have heq : min stop e.stop = stop := by omega
  rw [heq] at h hstep
  refine ih (hfrom.mono hpos fun e' he' => ?_) le_rfl hstep (.inl rfl) h
  cases he'
  omega

/-- The ranges cover the window, and those not allocated hold zeros. -/
lemma Indexed.extentsAt_reported (hordered : Ordered ix.size 0 ix.extents) {off len : Int}
    (h : ix.extentsAt off len = .ok out) : Reported (byteAt ix.extents) off.toNat out (off.toNat + len.toNat) := by
  unfold extentsAt at h
  split at h
  · cases h
  split at h
  next hlen =>
    cases h
    rw [hlen]
    exact ⟨rfl, fun x hx => absurd hx not_mem_nil⟩
  next hlen =>
  have hnone : Reported (byteAt ix.extents) off.toNat [] off.toNat := ⟨rfl, fun x hx => absurd hx not_mem_nil⟩
  refine extentsLoop_reported (seekExtent_from hordered _) (Nat.le_add_right _ _) hnone (.inr (.inl ?_)) h
  have hle : (seekExtent ix.extents off.toNat).length ≤ ix.extents.length := by
    unfold seekExtent
    rw [length_drop]
    omega
  omega

/-! ## The three views -/

/-- What is written is what is read: as many bytes as the image has, and each of them. -/
def WrittenAsRead (ix : Indexed) (w : Output) : Prop :=
  w.position = ix.size ∧ ∀ i : Nat, i < ix.size → ix.readAt i 1 = ([w.content i], none)

/-- **The views of an image.**  Random access and the reported extents agree for every range.  What is
written agrees exactly if no file is short and the bytes that a seeking writer skips were zero. -/
theorem image_views_agree {img : Image} {ix : Indexed} (h : ensureIndexed img = .ok ix) :
    (∀ (off : Int) (len : Nat),
      (ix.readAt off len).1 = Memory.window (byteAt ix.extents) off.toNat (ix.readAt off len).1.length ∧
      (ix.readAt off len).1.length ≤ len ∧
      ((ix.readAt off len).2 = none → (ix.readAt off len).1.length = len) ∧
      (Complete ix → (ix.readAt off len).2 = some .eof → (ix.readAt off len).1.length = ix.size - off.toNat)) ∧
    (∀ (off len : Int) (out : List BlockExtent), ix.extentsAt off len = .ok out →
      Covers off.toNat out (off.toNat + len.toNat) ∧ Sparse (byteAt ix.extents) out) ∧
    ∀ (w w' : Output) (written : Nat), w.position = 0 → ix.writeTo w = .ok (written, w') →
      (WrittenAsRead ix w' ↔ Complete ix ∧ (w.seeker = true → ∀ i, Skipped ix i → w.content i = 0)) := by
  have hordered := ensureIndexed_ordered h
  refine ⟨fun off len => ?_, fun off len out hout => ?_, fun w w' written hw hwrite => ?_⟩
  · obtain ⟨hbytes, hle, hfull⟩ := Indexed.readAt_spec hordered off len
    exact ⟨hbytes, hle, hfull, fun hcomp heof => Indexed.length_readAt_eof hordered hcomp heof⟩
  · have hrep := Indexed.extentsAt_reported hordered hout
    exact ⟨hrep.covers, hrep.sparse⟩
  rw [← Indexed.writeTo_agrees_iff hordered hw hwrite]
  constructor
  · rintro ⟨hpos, hread⟩
    refine ⟨hpos, fun i hi => ?_⟩
    have hbytes := (Indexed.readAt_spec hordered i 1).1
    rw [hread i hi] at hbytes
    simpa [Memory.window] using hbytes
  · intro hagree
    have hcomp := ((Indexed.writeTo_agrees_iff hordered hw hwrite).mp hagree).1
    refine ⟨hagree.1, fun i hi => ?_⟩
    rw [Indexed.readAt_complete hordered (readable_of_writeTo hwrite hcomp) (by omega) (by omega), hagree.2 i hi]
    simp [Memory.window]

def smallImage : Image := ⟨4, [{ start := 1, size := 2, data := some [7, 9] }]⟩

def emptyOutput (seeker : Bool) : Output where
  content := fun _ => 0
  seeker := seeker

/-- A small image written to a file that can seek. -/
theorem image_views_agree_smallImage : ∃ ix written w', ensureIndexed smallImage = .ok ix ∧
    ix.writeTo (emptyOutput true) = .ok (written, w') ∧ WrittenAsRead ix w' := by
  refine ⟨⟨4, [⟨1, 2, .bytes [7, 9]⟩]⟩, _, _, rfl, rfl, ?_⟩
  have hindexed : ensureIndexed smallImage = .ok ⟨4, [⟨1, 2, .bytes [7, 9]⟩]⟩ := rfl
  have hviews := image_views_agree hindexed
  refine (hviews.2.2 (emptyOutput true) _ _ rfl rfl).mpr ⟨fun e he => ?_, fun _ _ _ => rfl⟩
  cases List.mem_singleton.mp he
  rfl

def shortFile : Source where
  size := 1
  byte := fun _ => 5

/-- An extent of two bytes over a file of one. -/
def shortImage : Image := ⟨2, [{ start := 0, size := 2, file := some shortFile }]⟩

/-- Writing reports two bytes and has written one, while reading fails. -/
theorem shortImage_written_not_read : ∃ ix w', ensureIndexed shortImage = .ok ix ∧
    ix.writeTo (emptyOutput false) = .ok (2, w') ∧ w'.position = 1 ∧
    ix.readAt 0 2 = ([5], some .eof) ∧ ¬ WrittenAsRead ix w' := by
  refine ⟨⟨2, [⟨0, 2, .file shortFile 0⟩]⟩, _, rfl, rfl, rfl, rfl, fun h => ?_⟩
  exact absurd h.1 (by decide)

end Trex.Filesystem
