import Trex.Sqlite.Open

/-!
# What a reader sees of a write-ahead log

A good frame lies inside the log, carries the salts and its stored checksum is the running one.
`parseWAL` returns the initial run of good frames up to the last commit (`parseWAL_ok_iff`).  A prefix of
a log has a shorter run, so a reader of a crash image sees the last commit in it.
-/

namespace Trex.Sqlite

open List

open Slice

/-! ## Frames and runs -/

section

variable (log : Bytes) (pageSize : Nat)

/-- Frame `i` of the log. -/
def frameAt (i : Nat) : Bytes := slice log (32 + i * (24 + pageSize)) (24 + pageSize)

def walBigEndian : Bool := getUint32 (log.take 32) 0 == 0x377f0683

/-- The running checksum in front of frame `i`. -/
def sumsAt : Nat → UInt32 × UInt32
  | 0 => walChecksum (walBigEndian log) (log.take 32) 3 0 (0, 0)
  | i + 1 =>
    let sums := walChecksum (walBigEndian log) (frameAt log pageSize i) 1 0 (sumsAt i)
    walChecksum (walBigEndian log) ((frameAt log pageSize i).drop 24) (pageSize / 8) 0 sums

/-- The frame is there with the right salts and checksum. -/
structure GoodFrame (i : Nat) : Prop where
  inside : 32 + (i + 1) * (24 + pageSize) ≤ log.length
  salt1 : getUint32 (frameAt log pageSize i) 8 = getUint32 (log.take 32) 16
  salt2 : getUint32 (frameAt log pageSize i) 12 = getUint32 (log.take 32) 20
  sum1 : (sumsAt log pageSize (i + 1)).1.toNat = getUint32 (frameAt log pageSize i) 16
  sum2 : (sumsAt log pageSize (i + 1)).2.toNat = getUint32 (frameAt log pageSize i) 20

/-- The initial run of good frames has `k` of them. -/
structure Run (k : Nat) : Prop where
  good : ∀ i, i < k → GoodFrame log pageSize i
  stop : ¬ GoodFrame log pageSize k

def frameNumber (i : Nat) : Nat := getUint32 (frameAt log pageSize i) 0

/-- The size of the database after a commit, 0 for other frames. -/
def commitSize (i : Nat) : Nat := getUint32 (frameAt log pageSize i) 4

def walFrameAt (i : Nat) : WalFrame := ⟨frameNumber log pageSize i, (frameAt log pageSize i).drop 24⟩

/-- The first `k` frames up to the last commit among them, and its page count. -/
def committedBelow : Nat → List WalFrame × Nat
  | 0 => ([], 0)
  | k + 1 =>
    if commitSize log pageSize k ≠ 0 then
      ((List.range (k + 1)).map (walFrameAt log pageSize), commitSize log pageSize k)
    else committedBelow k

/-- The header of the log is valid. -/
structure Header : Prop where
  length : 32 ≤ log.length
  magic : getUint32 (log.take 32) 0 = 0x377f0682 ∨ getUint32 (log.take 32) 0 = 0x377f0683
  version : getUint32 (log.take 32) 4 = 3007000
  size : getUint32 (log.take 32) 8 = pageSize
  sum1 : (sumsAt log pageSize 0).1.toNat = getUint32 (log.take 32) 24
  sum2 : (sumsAt log pageSize 0).2.toNat = getUint32 (log.take 32) 28

/-- The first `k` frames have valid page numbers. -/
def Numbered (k : Nat) : Prop :=
  ∀ i, i < k → frameNumber log pageSize i ≠ 0 ∧ frameNumber log pageSize i ≤ maximumPages

end

variable {log : Bytes} {pageSize : Nat}

/-- There is no good frame beyond the end of the log, so every run ends. -/
lemma exists_run (log : Bytes) (pageSize : Nat) : ∃ k, Run log pageSize k := by
  classical
  have hsome : ∃ k, ¬ GoodFrame log pageSize k := by
    refine ⟨log.length, fun hgood => ?_⟩
    have hin := hgood.inside
    have hle : log.length + 1 ≤ (log.length + 1) * (24 + pageSize) := Nat.le_mul_of_pos_right _ (by omega)
    omega
  refine ⟨Nat.find hsome, fun i hi => ?_, Nat.find_spec hsome⟩
  exact Classical.not_not.mp (Nat.find_min hsome hi)

/-! ## The loop -/

lemma frame_inside_iff (hlen : 32 ≤ log.length) (i : Nat) :
    i < (log.length - 32) / (24 + pageSize) ↔ 32 + (i + 1) * (24 + pageSize) ≤ log.length := by
  have hdiv := Nat.le_div_iff_mul_le (x := i + 1) (y := log.length - 32)
    (show 0 < 24 + pageSize by omega)
  omega

variable {i k n : Nat} {log' : Bytes} {r : List WalFrame × Nat}

lemma readFullAt_frame (hlen : 32 ≤ log.length) (hi : i < (log.length - 32) / (24 + pageSize)) :
    readFullAt log (32 + i * (24 + pageSize)) (24 + pageSize) = .ok (frameAt log pageSize i) := by
  have hin := (frame_inside_iff hlen i).mp hi
  rw [Nat.succ_mul] at hin
  unfold readFullAt
  rw [if_pos (by omega)]
  rfl

/-- The loop stops at the end of the run; it fails when a frame of the run has no valid
page number. -/
lemma walLoop_stops (hrun : Run log pageSize k) {idx : Nat} (hidx : idx ≤ k)
    (hbad : ¬ GoodFrame log pageSize idx) (r : List WalFrame × Nat) :
    (Except.ok (committedBelow log pageSize idx) : Except SqliteError _) = .ok r ↔
      (∀ i, idx ≤ i → i < k → frameNumber log pageSize i ≠ 0 ∧
        frameNumber log pageSize i ≤ maximumPages) ∧ r = committedBelow log pageSize k := by
  obtain rfl : idx = k := hidx.eq_of_not_lt fun hlt => hbad (hrun.good idx hlt)
  rw [Except.ok.injEq, eq_comm]
  exact (and_iff_right fun i h1 h2 => absurd h2 h1.not_gt).symm

/-- The loop over the frames collects those up to the last commit. -/
lemma walLoop_eq (hlen : 32 ≤ log.length) (hrun : Run log pageSize k) (left index : Nat)
    (hleft : index + left = (log.length - 32) / (24 + pageSize)) (hidx : index ≤ k) (r : List WalFrame × Nat) :
    walLoop log pageSize (walBigEndian log) (getUint32 (log.take 32) 16) (getUint32 (log.take 32) 20)
        left index (sumsAt log pageSize index)
        ((range index).map (walFrameAt log pageSize)) (committedBelow log pageSize index) = .ok r ↔
      (∀ i, index ≤ i → i < k → frameNumber log pageSize i ≠ 0 ∧
        frameNumber log pageSize i ≤ maximumPages) ∧ r = committedBelow log pageSize k := by
  induction left generalizing index with
  | zero =>
    -- no frame is left inside the log, so the run ends here
    refine walLoop_stops hrun hidx (fun hgood => ?_) r
    have hin := (frame_inside_iff hlen index).mpr hgood.inside
    omega
  | succ left ih =>
  rw [walLoop, readFullAt_frame hlen (by omega)]
  have hstop := fun hbad => walLoop_stops hrun hidx hbad r
  simp only
  split
  case isTrue hsalt => exact hstop fun hgood => hsalt.elim (fun h => h hgood.salt1) (fun h => h hgood.salt2)
  case isFalse hsalt =>
  split
  case isTrue hsum => exact hstop fun hgood => hsum.elim (fun h => h hgood.sum1) (fun h => h hgood.sum2)
  case isFalse hsum =>
  have hgood : GoodFrame log pageSize index := by
    simp only [not_or, not_not] at hsalt hsum
    exact ⟨(frame_inside_iff hlen index).mp (by omega), hsalt.1, hsalt.2, hsum.1, hsum.2⟩
  have hlt : index < k := by
    rcases Nat.lt_or_eq_of_le hidx with hlt | heq
    · exact hlt
    · exact absurd (heq ▸ hgood) hrun.stop
  split
  case isTrue hnum =>
    refine iff_of_false (by simp) fun h => ?_
    obtain ⟨hpos, hmax⟩ := h.1 index le_rfl hlt
    rcases hnum with hzero | hbig
    · exact absurd hzero hpos
    · exact absurd hmax (not_le.mpr hbig)
  case isFalse hnum =>
  have hnext := ih (index + 1) (by omega) hlt
  rw [range_succ, map_append] at hnext
  have hcommitted : committedBelow log pageSize (index + 1) =
      if getUint32 (frameAt log pageSize index) 4 ≠ 0 then
        ((range index).map (walFrameAt log pageSize) ++
          [⟨getUint32 (frameAt log pageSize index) 0, (frameAt log pageSize index).drop 24⟩],
          getUint32 (frameAt log pageSize index) 4)
      else committedBelow log pageSize index := by
    rw [committedBelow, range_succ, map_append]
    rfl
  rw [hcommitted] at hnext
  refine hnext.trans ?_
  constructor
  · rintro ⟨hval, hr⟩
    refine ⟨fun i h1 h2 => ?_, hr⟩
    rcases Nat.lt_or_eq_of_le h1 with h1 | rfl
    · exact hval i h1 h2
    · rw [not_or] at hnum
      exact ⟨hnum.1, not_lt.mp hnum.2⟩
  · rintro ⟨hval, hr⟩
    exact ⟨fun i h1 h2 => hval i (by omega) h2, hr⟩

/-- What a log is read as. -/
lemma parseWAL_ok_iff (hrun : Run log pageSize k) (r : List WalFrame × Nat) : parseWAL log pageSize = .ok r ↔
      Header log pageSize ∧ Numbered log pageSize k ∧ r = committedBelow log pageSize k := by
  unfold parseWAL
  simp only
  split
  case isTrue hshort => exact iff_of_false (by simp) fun h => absurd h.1.length (by omega)
  split
  case isTrue hmagic =>
    refine iff_of_false (by simp) fun h => ?_
    rcases h.1.magic with h' | h'
    · exact absurd h' hmagic.1
    · exact absurd h' hmagic.2
  split
  case isTrue hver => exact iff_of_false (by simp) fun h => absurd h.1.version hver
  split
  case isTrue hsize => exact iff_of_false (by simp) fun h => absurd h.1.size hsize
  split
  case isTrue hsum =>
    refine iff_of_false (by simp) fun h => ?_
    rcases hsum with h' | h'
    · exact absurd h.1.sum1 h'
    · exact absurd h.1.sum2 h'
  case isFalse hshort hmagic hver hsize hsum =>
    have hlen : 32 ≤ log.length := by omega
    have hloop := walLoop_eq hlen hrun ((log.length - 32) / (24 + pageSize)) 0 (by omega)
      (Nat.zero_le k) r
    have hheader : Header log pageSize := by
      rw [not_or, not_not, not_not] at hsum
      refine ⟨hlen, ?_, not_not.mp hver, not_not.mp hsize, hsum.1, hsum.2⟩
      by_cases hfirst : getUint32 (log.take 32) 0 = 0x377f0682
      · exact .inl hfirst
      · exact .inr (not_not.mp fun hsecond => hmagic ⟨hfirst, hsecond⟩)
    refine hloop.trans ?_
    constructor
    · rintro ⟨hnumd, hr⟩
      exact ⟨hheader, fun i hi => hnumd i (Nat.zero_le i) hi, hr⟩
    · rintro ⟨-, hnumd, hr⟩
      exact ⟨fun i _ hi => hnumd i hi, hr⟩

/-! ## Logs that share a prefix -/

/-- The logs agree in their first bytes. -/
def Agree (log log' : Bytes) (n : Nat) : Prop := log.take n = log'.take n

lemma Agree.mono {m n : Nat} (h : Agree log log' n) (hle : m ≤ n) : Agree log log' m := by
  have hcut := congrArg (take m) h
  rwa [take_take, take_take, min_eq_left hle] at hcut

section

variable (h : Agree log log' n)

include h

lemma Agree.slice (i m : Nat) (hle : i + m ≤ n) : slice log i m = slice log' i m := by
  refine slice_congr log log' i m fun j _ hj => ?_
  have hcell := congrArg (fun l => l[j]?) h
  simpa [getElem?_take, show j < n by omega] using hcell

lemma Agree.frameAt (i : Nat) (hle : 32 + (i + 1) * (24 + pageSize) ≤ n)
    : frameAt log pageSize i = frameAt log' pageSize i := by
  rw [Nat.succ_mul] at hle
  exact h.slice _ _ (by omega)

/-- The checksums depend on the bytes in front only. -/
lemma Agree.sumsAt (i : Nat) (hle : 32 + i * (24 + pageSize) ≤ n)
    : sumsAt log pageSize i = sumsAt log' pageSize i := by
  have hhead : log.take 32 = log'.take 32 := h.mono (by omega)
  have horder : walBigEndian log = walBigEndian log' := by
    unfold walBigEndian
    rw [hhead]
  induction i with
  | zero => rw [Sqlite.sumsAt, Sqlite.sumsAt, hhead, horder]
  | succ i ih =>
  have hprev : 32 + i * (24 + pageSize) ≤ n := by
    rw [Nat.succ_mul] at hle
    omega
  rw [Sqlite.sumsAt, Sqlite.sumsAt, horder, h.frameAt i hle, ih hprev]

/-- A good frame depends on the bytes up to its end. -/
lemma Agree.goodFrame (hle : 32 + (i + 1) * (24 + pageSize) ≤ n) (hlen : n ≤ log'.length)
    (hgood : GoodFrame log pageSize i) : GoodFrame log' pageSize i := by
  have hframe : Sqlite.frameAt log pageSize i = Sqlite.frameAt log' pageSize i := h.frameAt i hle
  have hsums : Sqlite.sumsAt log pageSize (i + 1) = Sqlite.sumsAt log' pageSize (i + 1) := h.sumsAt (i + 1) hle
  have hhead : log.take 32 = log'.take 32 := h.mono (by omega)
  refine ⟨by omega, ?_, ?_, ?_, ?_⟩
  · rw [← hframe, ← hhead]
    exact hgood.salt1
  · rw [← hframe, ← hhead]
    exact hgood.salt2
  · rw [← hframe, ← hsums]
    exact hgood.sum1
  · rw [← hframe, ← hsums]
    exact hgood.sum2

lemma Agree.committedBelow (k : Nat) (hle : 32 + k * (24 + pageSize) ≤ n) :
    committedBelow log pageSize k = committedBelow log' pageSize k := by
  have hframe : ∀ i, i < k → Sqlite.frameAt log pageSize i = Sqlite.frameAt log' pageSize i := by
    intro i hi
    refine h.frameAt i ?_
    have hmul : (i + 1) * (24 + pageSize) ≤ k * (24 + pageSize) := Nat.mul_le_mul_right _ hi
    omega
  clear hle
  induction k with
  | zero => rfl
  | succ k ih =>
  rw [Sqlite.committedBelow, Sqlite.committedBelow, ih fun i hi => hframe i (by omega)]
  have hcom : commitSize log pageSize k = commitSize log' pageSize k := by
    unfold commitSize
    rw [hframe k (Nat.lt_succ_self k)]
  have hframes : (range (k + 1)).map (walFrameAt log pageSize) =
      (range (k + 1)).map (walFrameAt log' pageSize) := by
    refine map_congr_left fun i hi => ?_
    unfold walFrameAt frameNumber
    rw [hframe i (mem_range.mp hi)]
  rw [hcom, hframes]

lemma Agree.header (hn : 32 ≤ n) (hlen : 32 ≤ log'.length) (hheader : Header log pageSize)
    : Header log' pageSize := by
  have hhead : log.take 32 = log'.take 32 := h.mono hn
  have hsums : Sqlite.sumsAt log pageSize 0 = Sqlite.sumsAt log' pageSize 0 := h.sumsAt 0 (by omega)
  refine ⟨hlen, ?_, ?_, ?_, ?_, ?_⟩
  · rw [← hhead]
    exact hheader.magic
  · rw [← hhead]
    exact hheader.version
  · rw [← hhead]
    exact hheader.size
  · rw [← hhead, ← hsums]
    exact hheader.sum1
  · rw [← hhead, ← hsums]
    exact hheader.sum2

end

lemma agree_take (log : Bytes) (n : Nat) : Agree log (log.take n) n := by
  unfold Agree
  rw [take_take, Nat.min_self]

/-! ## Commits -/

/-- The last commit among the first frames, or none. -/
lemma committedBelow_cases (log : Bytes) (pageSize k : Nat) : (∃ c, c < k ∧ commitSize log pageSize c ≠ 0 ∧
      (∀ i, c < i → i < k → commitSize log pageSize i = 0) ∧ committedBelow log pageSize k =
        ((range (c + 1)).map (walFrameAt log pageSize), commitSize log pageSize c)) ∨
    ((∀ i, i < k → commitSize log pageSize i = 0) ∧ committedBelow log pageSize k = ([], 0)) := by
  induction k with
  | zero => exact .inr ⟨fun i hi => absurd hi (Nat.not_lt_zero i), rfl⟩
  | succ k ih =>
  rw [committedBelow]
  split
  case isTrue hcom => exact .inl ⟨k, Nat.lt_succ_self k, hcom, fun i h1 h2 => absurd h2 (by omega), rfl⟩
  case isFalse hcom =>
  have hzero : commitSize log pageSize k = 0 := not_not.mp hcom
  rcases ih with ⟨c, hc, hne, hlast, heq⟩ | ⟨hnone, heq⟩
  · refine .inl ⟨c, by omega, hne, fun i h1 h2 => ?_, heq⟩
    rcases Nat.lt_succ_iff_lt_or_eq.mp h2 with h2 | rfl
    · exact hlast i h1 h2
    · exact hzero
  · refine .inr ⟨fun i hi => ?_, heq⟩
    rcases Nat.lt_succ_iff_lt_or_eq.mp hi with hi | rfl
    · exact hnone i hi
    · exact hzero

/-- A page of the map is that of the latest frame with its number. -/
lemma lookup_walPages (log : Bytes) (pageSize size m p : Nat) (page : Page) :
    (walPages ((range m).map (walFrameAt log pageSize)) size).lookup p = some page ↔
      p ≤ size ∧ ∃ i, i < m ∧ frameNumber log pageSize i = p ∧
        (∀ j, i < j → j < m → frameNumber log pageSize j ≠ p) ∧ page = (frameAt log pageSize i).drop 24 := by
  induction m with
  | zero => simp [walPages]
  | succ m ih =>
  have hstep : walPages ((range (m + 1)).map (walFrameAt log pageSize)) size =
      if frameNumber log pageSize m ≤ size then
        (walPages ((range m).map (walFrameAt log pageSize)) size).insert
          (frameNumber log pageSize m) ((frameAt log pageSize m).drop 24)
      else walPages ((range m).map (walFrameAt log pageSize)) size := by
    unfold walPages
    rw [range_succ, map_append, foldl_append]
    rfl
  -- a number other than that of the new frame is looked up among the earlier frames
  have hoth : frameNumber log pageSize m ≠ p → ((∃ i, i < m ∧ frameNumber log pageSize i = p ∧
        (∀ j, i < j → j < m → frameNumber log pageSize j ≠ p) ∧
        page = (frameAt log pageSize i).drop 24) ↔
      ∃ i, i < m + 1 ∧ frameNumber log pageSize i = p ∧
        (∀ j, i < j → j < m + 1 → frameNumber log pageSize j ≠ p) ∧
        page = (frameAt log pageSize i).drop 24) := by
    intro hne
    constructor
    · rintro ⟨i, hi, hnum, hlast, hpage⟩
      refine ⟨i, by omega, hnum, fun j h1 h2 => ?_, hpage⟩
      rcases Nat.lt_succ_iff_lt_or_eq.mp h2 with h2 | rfl
      · exact hlast j h1 h2
      · exact hne
    · rintro ⟨i, hi, hnum, hlast, hpage⟩
      rcases Nat.lt_succ_iff_lt_or_eq.mp hi with hi | rfl
      · exact ⟨i, hi, hnum, fun j h1 h2 => hlast j h1 (by omega), hpage⟩
      · exact absurd hnum hne
  rw [hstep]
  by_cases hp : frameNumber log pageSize m = p
  · subst hp
    split
    case isTrue hle =>
      rw [AList.lookup_insert]
      constructor
      · intro h
        refine ⟨hle, m, Nat.lt_succ_self m, rfl, fun j h1 h2 => absurd h2 (by omega), ?_⟩
        exact (Option.some.inj h).symm
      · rintro ⟨-, i, hi, hnum, hlast, hpage⟩
        rcases Nat.lt_succ_iff_lt_or_eq.mp hi with hi | rfl
        · exact absurd rfl (hlast m hi (Nat.lt_succ_self m))
        · rw [hpage]
    case isFalse hgt =>
      rw [ih]
      constructor
      · exact fun h => absurd h.1 hgt
      · exact fun h => absurd h.1 hgt
  · rw [← hoth hp]
    split
    · rw [AList.lookup_insert_ne (Ne.symm hp)]
      exact ih
    · exact ih

/-! ## Prefixes -/

/-- A frame of the initial run that ends inside the first `n` bytes. -/
structure Readable (log : Bytes) (pageSize n i : Nat) : Prop where
  run : ∀ j, j ≤ i → GoodFrame log pageSize j
  inside : 32 + (i + 1) * (24 + pageSize) ≤ n

/-- Frame `c` is the last readable frame that commits. -/
structure LastCommit (log : Bytes) (pageSize n c : Nat) : Prop where
  readable : Readable log pageSize n c
  commit : commitSize log pageSize c ≠ 0
  last : ∀ i, c < i → Readable log pageSize n i → commitSize log pageSize i = 0

lemma readable_iff (hrun : Run (log.take n) pageSize k) (i : Nat) : Readable log pageSize n i ↔ i < k := by
  constructor
  · intro hread
    refine not_le.mp fun hle => hrun.stop ?_
    have hmul : (k + 1) * (24 + pageSize) ≤ (i + 1) * (24 + pageSize) := Nat.mul_le_mul_right _ (by omega)
    have hin := (hread.run k hle).inside
    have hbound := hread.inside
    refine (agree_take log n).mono (m := 32 + (k + 1) * (24 + pageSize)) (by omega) |>.goodFrame
      le_rfl ?_ (hread.run k hle)
    rw [length_take]
    omega
  intro hi
  have hlen : (log.take n).length ≤ n := by
    rw [length_take]
    exact min_le_left _ _
  have hin := (hrun.good i hi).inside
  refine ⟨fun j hj => ?_, by omega⟩
  have hgood := hrun.good j (by omega)
  have hjn := hgood.inside
  refine Agree.goodFrame (n := 32 + (j + 1) * (24 + pageSize)) ?_ le_rfl ?_ hgood
  · exact Eq.symm ((agree_take log n).mono (by omega))
  · rw [length_take] at hjn
    omega

lemma run_inside (hlen : 32 ≤ log.length) (hrun : Run log pageSize k) : 32 + k * (24 + pageSize) ≤ log.length := by
  cases k with
  | zero => omega
  | succ k => exact (hrun.good k (Nat.lt_succ_self k)).inside

/-- A log with the same run gives the same result, whatever comes behind the run. -/
lemma parseWAL_of_run (hrun : Run log pageSize k)
    (hagree : Agree log log' (32 + k * (24 + pageSize))) (hstop : ¬ GoodFrame log' pageSize k)
    (h : parseWAL log pageSize = .ok r) : parseWAL log' pageSize = .ok r := by
  obtain ⟨hheader, hnumd, hr⟩ := (parseWAL_ok_iff hrun r).mp h
  have hin := run_inside hheader.length hrun
  have hlen' : 32 + k * (24 + pageSize) ≤ log'.length := by
    have hlength := congrArg length hagree
    rw [length_take, length_take] at hlength
    omega
  have hins : ∀ i, i < k → 32 + (i + 1) * (24 + pageSize) ≤ 32 + k * (24 + pageSize) := by
    intro i hi
    have hmul : (i + 1) * (24 + pageSize) ≤ k * (24 + pageSize) := Nat.mul_le_mul_right _ hi
    omega
  have hrun' : Run log' pageSize k := ⟨fun i hi => hagree.goodFrame (hins i hi) hlen' (hrun.good i hi), hstop⟩
  refine (parseWAL_ok_iff hrun' r).mpr ⟨hagree.header (by omega) (by omega) hheader, ?_, ?_⟩
  · intro i hi
    have hframe : frameAt log pageSize i = frameAt log' pageSize i := hagree.frameAt i (hins i hi)
    unfold frameNumber
    rw [← hframe]
    exact hnumd i hi
  · rw [hr]
    exact hagree.committedBelow k le_rfl

/-- A prefix of an accepted log is accepted and shows the frames of its own run. -/
lemma parseWAL_take (h : parseWAL log pageSize = .ok r) (hn : 32 ≤ n) (hrun : Run (log.take n) pageSize k) :
    parseWAL (log.take n) pageSize = .ok (committedBelow log pageSize k) := by
  obtain ⟨full, hfull⟩ := exists_run log pageSize
  obtain ⟨hheader, hnumd, -⟩ := (parseWAL_ok_iff hfull r).mp h
  have hlen : 32 ≤ (log.take n).length := by
    rw [length_take]
    have hlength := hheader.length
    omega
  have hin := run_inside hlen hrun
  have htake : (log.take n).length ≤ n := by
    rw [length_take]
    exact min_le_left _ _
  refine (parseWAL_ok_iff hrun _).mpr ⟨(agree_take log n).header hn hlen hheader, fun i hi => ?_, ?_⟩
  · have hread := (readable_iff hrun i).mpr hi
    have hshort : i < full := not_le.mp fun hle => hfull.stop (hread.run full hle)
    unfold frameNumber
    rw [← (agree_take log n).frameAt i hread.inside]
    exact hnumd i hshort
  · exact (agree_take log n).committedBelow k (by omega)

/-- What a reader sees of a prefix: the frames up to the last commit inside it, the latest
frame of each page, and nothing of what lies behind the run. -/
theorem parseWAL_prefix (log : Bytes) (pageSize : Nat) (r : List WalFrame × Nat)
    (h : parseWAL log pageSize = .ok r) (n : Nat) (hn : 32 ≤ n) :
    ∃ frames size, parseWAL (log.take n) pageSize = .ok (frames, size) ∧
      ((∃ c, LastCommit log pageSize n c ∧ size = commitSize log pageSize c ∧
          frames = (List.range (c + 1)).map (walFrameAt log pageSize) ∧
          ∀ p page, (walPages frames size).lookup p = some page ↔
            p ≤ commitSize log pageSize c ∧ ∃ i, i ≤ c ∧ frameNumber log pageSize i = p ∧
              (∀ j, i < j → j ≤ c → frameNumber log pageSize j ≠ p) ∧
              page = (frameAt log pageSize i).drop 24) ∨
        (∀ i, Readable log pageSize n i → commitSize log pageSize i = 0) ∧
          size = 0 ∧ frames = [] ∧ walPages frames size = ∅) ∧
      ∀ (log' : Bytes) (k : Nat), Run (log.take n) pageSize k →
        Agree (log.take n) log' (32 + k * (24 + pageSize)) → ¬ GoodFrame log' pageSize k →
        parseWAL log' pageSize = .ok (frames, size) := by
  obtain ⟨k, hrun⟩ := exists_run (log.take n) pageSize
  have hparse := parseWAL_take h hn hrun
  refine ⟨_, _, hparse, ?_, ?_⟩
  · rcases committedBelow_cases log pageSize k with ⟨c, hc, hne, hlast, heq⟩ | ⟨hnone, heq⟩
    · rw [heq]
      refine .inl ⟨c, ⟨(readable_iff hrun c).mpr hc, hne, fun i h1 h2 => ?_⟩, rfl, rfl, fun p page => ?_⟩
      · exact hlast i h1 ((readable_iff hrun i).mp h2)
      · rw [lookup_walPages]
        simp only [Nat.lt_succ_iff]
    · rw [heq]
      exact .inr ⟨fun i hi => hnone i ((readable_iff hrun i).mp hi), rfl, rfl, rfl⟩
  · intro log' k' hrun' hagree hstop
    exact parseWAL_of_run hrun' hagree hstop hparse

/-- A log that commits an empty page and was torn in the middle of its second frame. -/
def tornLog : Bytes :=
  [55, 127, 6, 130, 0, 45, 226, 24, 0, 0, 2, 0, 0, 0, 0, 0, 0, 0, 0, 1, 0, 0, 0, 2,
    213, 203, 3, 19, 143, 164, 218, 184] ++
  [0, 0, 0, 1, 0, 0, 0, 1, 0, 0, 0, 1, 0, 0, 0, 2, 121, 99, 122, 206, 243, 177, 60, 221] ++
  List.replicate 512 0 ++ [0, 0, 0, 2, 0, 0, 0, 2]

/-- A log that was cut off inside a frame. -/
theorem parseWAL_prefix_tornLog :
    ∃ frames size, parseWAL (tornLog.take 570) 512 = .ok (frames, size) ∧
      ((∃ c, LastCommit tornLog 512 570 c ∧ size = commitSize tornLog 512 c) ∨
        ∀ i, Readable tornLog 512 570 i → commitSize tornLog 512 i = 0) := by
  have hok : (parseWAL tornLog 512).isOk = true := by decide +kernel
  cases hparse : parseWAL tornLog 512 with
  | error err =>
    rw [hparse] at hok
    cases hok
  | ok r =>
  obtain ⟨frames, size, htake, hshows, -⟩ := parseWAL_prefix tornLog 512 r hparse 570 (by decide)
  refine ⟨frames, size, htake, ?_⟩
  rcases hshows with ⟨c, hcom, hsize, -⟩ | ⟨hnone, -⟩
  · exact .inl ⟨c, hcom, hsize⟩
  · exact .inr hnone

end Trex.Sqlite
