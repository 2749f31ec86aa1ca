import Trex.Sqlite.Open

/-!
# What is on a b-tree page

`PageIs` is what a page shows to a reader: its type, its cells and its last child.  It speaks of the bytes
from the page's header on, so that the database header on page 1 does not disturb it.
-/

namespace Trex.Sqlite

open List BigEndian

open Slice

def headerSize (pageType : UInt8) : Nat := if isInterior pageType then 12 else 8

/-- The page, read from `headerOffset` on, has this type, last child and cells. -/
structure PageIs (headerOffset : Nat) (pageType : UInt8) (right : Nat) (cells : List Bytes)
    (page : Page) : Prop where
  type : slice page headerOffset 1 = [pageType]
  count : getUint16 page (headerOffset + 3) = cells.length
  fits : headerOffset + headerSize pageType + cells.length * 2 ≤ page.length
  right : isInterior pageType = true → getUint32 page (headerOffset + 8) = right
  cell : ∀ (k : Nat) (cell : Bytes), cells[k]? = some cell → ∃ offset,
    getUint16 page (headerOffset + headerSize pageType + k * 2) = offset ∧
    headerOffset ≤ offset ∧ offset + cell.length ≤ page.length ∧
    slice page offset cell.length = cell

variable {headerOffset right i v num pointers total idx content content' : Nat}
  {pageType : UInt8} {cells : List Bytes} {page page' : Page}

lemma PageIs.congr (h : PageIs headerOffset pageType right cells page)
    (hlen : page'.length = page.length) (hsame : ∀ j, headerOffset ≤ j → page'[j]? = page[j]?) :
    PageIs headerOffset pageType right cells page' := by
  have hslice : ∀ i n, headerOffset ≤ i → slice page' i n = slice page i n :=
    fun i n hi => slice_congr _ _ _ _ fun j hj _ => hsame j (by omega)
  constructor
  case type => rw [hslice _ _ le_rfl, h.type]
  case count =>
    unfold getUint16
    rw [hslice _ _ (by omega)]
    exact h.count
  case fits => rw [hlen]; exact h.fits
  case right =>
    intro hint
    unfold getUint32
    rw [hslice _ _ (by omega)]
    exact h.right hint
  case cell =>
    intro k cell hcell
    obtain ⟨off, hoff, hle, hend, hbytes⟩ := h.cell k cell hcell
    refine ⟨off, ?_, hle, by rw [hlen]; exact hend, by rw [hslice _ _ hle]; exact hbytes⟩
    rw [← hoff]
    unfold getUint16
    rw [hslice _ _ (by omega)]

/-! ## Laying out the cells -/

/-- The cells are where the pointers say. -/
structure CellsAt (pointers total index content : Nat) (cells : List Bytes) (page : Page)
    (content' : Nat) (page' : Page) : Prop where
  length : page'.length = page.length
  content_le : content' ≤ content
  room : cells ≠ [] → pointers + total * 2 ≤ content'
  keep : ∀ j, j < pointers + index * 2 ∨ pointers + total * 2 ≤ j ∧ j < content' ∨ content ≤ j → page'[j]? = page[j]?
  cell : ∀ (k : Nat) (cell : Bytes), cells[k]? = some cell → ∃ offset,
    getUint16 page' (pointers + (index + k) * 2) = offset ∧ content' ≤ offset ∧
    offset + cell.length ≤ content ∧ slice page' offset cell.length = cell

lemma getUint16_of_slice (hv : v < 65536) (h : slice page i 2 = put 2 v) : getUint16 page i = v := by
  unfold getUint16
  rw [h, get_put_of_lt 2 v hv]

lemma getUint32_of_slice (hv : v < 2 ^ 32) (h : slice page i 4 = put 4 v) : getUint32 page i = v := by
  unfold getUint32
  rw [h, get_put_of_lt 4 v hv]

/-- The cells are where the pointers say. -/
lemma writeCells_at (h : writeCells num pointers total cells idx content page = .ok (page', content'))
    (htot : idx + cells.length = total) (hcont : content ≤ page.length)
    (hsize : page.length ≤ 65536) (hne : ∀ cell ∈ cells, cell ≠ []) :
    CellsAt pointers total idx content cells page content' page' := by
  induction cells generalizing idx content page with
  | nil =>
    simp only [writeCells, Except.ok.injEq, Prod.mk.injEq] at h
    obtain ⟨rfl, rfl⟩ := h
    exact ⟨rfl, le_rfl, fun hnil => absurd rfl hnil, fun _ _ => rfl, fun k cell hk => by simp at hk⟩
  | cons cell cells ih =>
  rw [length_cons] at htot
  have hpos : 0 < cell.length := length_pos_of_ne_nil (hne cell mem_cons_self)
  unfold writeCells at h
  split at h
  · simp at h
  next hroom =>
  dsimp only at h
  -- the page with this cell and its pointer
  generalize hone : overwrite (overwrite page (content - cell.length) cell)
    (pointers + idx * 2) (put 2 (content - cell.length)) = one at h
  have hlen1 : (overwrite page (content - cell.length) cell).length = page.length :=
    length_overwrite _ _ _ (by omega)
  have hlen : one.length = page.length := by rw [← hone, length_overwrite _ _ _ (by omega), hlen1]
  have hput : (put 2 (content - cell.length)).length = 2 := length_put _ _
  have hat : ∀ j, one[j]? = if pointers + idx * 2 ≤ j ∧ j < pointers + idx * 2 + 2 then
        (put 2 (content - cell.length))[j - (pointers + idx * 2)]?
      else if content - cell.length ≤ j ∧ j < content then cell[j - (content - cell.length)]?
      else page[j]? := by
    intro j
    rw [← hone, getElem?_overwrite _ _ _ (by omega), getElem?_overwrite _ _ _ (by omega), hput, hlen1]
    by_cases hpointer : pointers + idx * 2 ≤ j ∧ j < pointers + idx * 2 + 2
    · rw [if_pos hpointer, if_pos (by omega)]
    rw [if_neg hpointer, if_neg (by omega)]
    by_cases hcell : content - cell.length ≤ j ∧ j < content
    · rw [if_pos hcell, if_pos (by omega)]
    · rw [if_neg hcell, if_neg (by omega)]
  have hrest := ih h (by omega) (by omega) (by omega)
    fun c hc => hne c (mem_cons_of_mem _ hc)
  have hcont' := hrest.content_le
  have hroom' : pointers + total * 2 ≤ content' := by
    cases cells with
    | nil =>
      simp only [writeCells, Except.ok.injEq, Prod.mk.injEq] at h
      omega
    | cons c cs => exact hrest.room (by simp)
  constructor
  case length => rw [hrest.length, hlen]
  case content_le => omega
  case room => exact fun _ => hroom'
  case keep =>
    intro j hj
    rw [hrest.keep j (by omega), hat j, if_neg (by omega), if_neg (by omega)]
  case cell =>
  intro k c hk
  cases k with
  | succ k =>
    obtain ⟨off, hpointer, hlo, hhi, hbytes⟩ := hrest.cell k c (by simpa using hk)
    refine ⟨off, ?_, hlo, by omega, hbytes⟩
    rw [← hpointer]
    congr 1
    omega
  | zero =>
  simp only [getElem?_cons_zero, Option.some.injEq] at hk
  subst hk
  refine ⟨content - cell.length, ?_, by omega, by omega, ?_⟩
  · apply getUint16_of_slice (by omega)
    apply ext_getElem? fun j => ?_
    rw [getElem?_slice]
    split
    next hj =>
      rw [hrest.keep _ (by omega), hat, if_pos (by omega)]
      congr 1
      omega
    · rw [getElem?_eq_none (by omega)]
  apply ext_getElem? fun j => ?_
  rw [getElem?_slice]
  split
  next hj => rw [hrest.keep _ (by omega), hat, if_neg (by omega), if_pos (by omega), Nat.add_sub_cancel_left]
  · rw [getElem?_eq_none (by omega)]

/-! ## The whole page -/

/-- The last three writes, to the first seven bytes of the page header. -/
def stamp (page : Page) (headerOffset : Nat) (pageType : UInt8) (count contentOffset : Nat) : Page :=
  overwrite (overwrite (overwrite page headerOffset [pageType]) (headerOffset + 3)
    (BigEndian.put 2 count)) (headerOffset + 5) (BigEndian.put 2 contentOffset)

section

variable (page : Page) (headerOffset : Nat) (pageType : UInt8) (count contentOffset : Nat)

section

variable (h : headerOffset + 8 ≤ page.length)

include h

lemma stamp_lengths : (overwrite page headerOffset [pageType]).length = page.length ∧
      (overwrite (overwrite page headerOffset [pageType]) (headerOffset + 3) (put 2 count)).length = page.length := by
  have hone : (overwrite page headerOffset [pageType]).length = page.length := length_overwrite _ _ _ (by omega)
  refine ⟨hone, ?_⟩
  rw [length_overwrite _ _ _ (by omega), hone]

lemma length_stamp : (stamp page headerOffset pageType count contentOffset).length = page.length := by
  obtain ⟨-, htwo⟩ := stamp_lengths page headerOffset pageType count h
  unfold stamp
  rw [length_overwrite _ _ _ (by omega), htwo]

lemma getElem?_stamp (j : Nat) (hj : headerOffset + 7 ≤ j) :
    (stamp page headerOffset pageType count contentOffset)[j]? = page[j]? := by
  obtain ⟨hone, htwo⟩ := stamp_lengths page headerOffset pageType count h
  unfold stamp
  rw [getElem?_overwrite _ _ _ (by omega), length_put, if_neg (by omega),
    getElem?_overwrite _ _ _ (by omega), length_put, if_neg (by omega),
    getElem?_overwrite _ _ _ (by omega), length_singleton, if_neg (by omega)]

lemma stamp_type : slice (stamp page headerOffset pageType count contentOffset) headerOffset 1 = [pageType] := by
  obtain ⟨hone, htwo⟩ := stamp_lengths page headerOffset pageType count h
  unfold stamp
  rw [slice_overwrite_disjoint _ _ _ _ _ (by omega) (by omega),
    slice_overwrite_disjoint _ _ _ _ _ (by omega) (by omega)]
  exact slice_overwrite_self page headerOffset [pageType] (by simp; omega)

lemma stamp_count (hcount : count < 65536) :
    getUint16 (stamp page headerOffset pageType count contentOffset) (headerOffset + 3) = count := by
  obtain ⟨hone, htwo⟩ := stamp_lengths page headerOffset pageType count h
  apply getUint16_of_slice hcount
  unfold stamp
  rw [slice_overwrite_disjoint _ _ _ _ _ (by omega) (by omega)]
  have := slice_overwrite_self (overwrite page headerOffset [pageType]) (headerOffset + 3)
    (put 2 count) (by rw [length_put]; omega)
  rwa [length_put] at this

end

end

lemma length_writeCells (h : writeCells num pointers total cells idx content page = .ok (page', content'))
    (htot : idx + cells.length = total) (hcont : content ≤ page.length) : page'.length = page.length := by
  induction cells generalizing idx content page with
  | nil =>
    simp only [writeCells, Except.ok.injEq, Prod.mk.injEq] at h
    rw [h.1]
  | cons cell cells ih =>
  rw [length_cons] at htot
  unfold writeCells at h
  split at h
  · simp at h
  have hcell : (overwrite page (content - cell.length) cell).length = page.length :=
    length_overwrite _ _ _ (by omega)
  have hone := length_overwrite (overwrite page (content - cell.length) cell)
    (pointers + idx * 2) (put 2 (content - cell.length)) (by omega)
  rw [ih h (by omega) (by omega), hone, hcell]

section

variable (h : btreePage num headerOffset pageType right cells page = .ok page')
  (hheader : headerOffset + 12 ≤ page.length)

include h hheader

/-- The stages of a page: cleared with the last child, with cells, stamped. -/
lemma btreePage_stages : ∃ start written content contentOffset, start.length = page.length ∧
      (isInterior pageType = true → slice start (headerOffset + 8) 4 = put 4 right) ∧
      writeCells num (headerOffset + headerSize pageType) cells.length cells 0 start.length
        start = .ok (written, content) ∧ written.length = page.length ∧
      stamp written headerOffset pageType cells.length contentOffset = page' := by
  unfold btreePage at h
  dsimp only at h
  generalize hclear : page.take headerOffset ++ replicate (page.length - headerOffset) 0 = cleared at h
  have hclearLen : cleared.length = page.length := by
    rw [← hclear, length_append, length_take, length_replicate]
    omega
  generalize hstart : (if isInterior pageType = true then
    overwrite cleared (headerOffset + 8) (put 4 right) else cleared) = start at h
  have hstartLen : start.length = page.length := by
    rw [← hstart]
    split
    · rw [length_overwrite _ _ _ (by omega), hclearLen]
    · exact hclearLen
  split at h
  · simp at h
  next written content hcells =>
  simp only [Except.ok.injEq] at h
  refine ⟨start, written, content, _, hstartLen, fun hint => ?_, hcells, ?_, h⟩
  · have hput := slice_overwrite_self cleared (headerOffset + 8) (put 4 right)
      (by rw [length_put]; omega)
    rw [← hstart, if_pos hint]
    rwa [length_put] at hput
  · rw [length_writeCells hcells (by omega) le_rfl, hstartLen]

lemma length_btreePage : page'.length = page.length := by
  obtain ⟨-, written, -, -, -, -, -, hwritten, rfl⟩ := btreePage_stages h hheader
  rw [length_stamp _ _ _ _ _ (by omega), hwritten]

/-- A page that is written reads back. -/
lemma btreePage_is (hsize : page.length ≤ 65536) (hright : right < 2 ^ 32) (hne : ∀ cell ∈ cells, cell ≠ []) :
    PageIs headerOffset pageType right cells page' := by
  have hlen := length_btreePage h hheader
  obtain ⟨start, written, content, contentOffset, hstartLen, hstart, hcells, hwritten, hstamp⟩ :=
    btreePage_stages h hheader
  have hat := writeCells_at hcells (by omega) le_rfl (by omega) hne
  have hheaderSize : 8 ≤ headerSize pageType ∧ headerSize pageType ≤ 12 := by
    unfold headerSize
    split <;> omega
  have hfits : headerOffset + headerSize pageType + cells.length * 2 ≤ page.length := by
    cases cells with
    | nil => simp; omega
    | cons c cs =>
    have := hat.room (by simp)
    have := hat.content_le
    omega
  have hkeep : ∀ i n, headerOffset + 8 ≤ i → slice page' i n = slice written i n := by
    intro i n hi
    apply slice_congr
    intro j hj _
    rw [← hstamp, getElem?_stamp _ _ _ _ _ (by omega) j (by omega)]
  constructor
  case type => rw [← hstamp]; exact stamp_type _ _ _ _ _ (by omega)
  case count => rw [← hstamp]; exact stamp_count _ _ _ _ _ (by omega) (by omega)
  case fits => rw [hlen]; exact hfits
  case right =>
    intro hint
    apply getUint32_of_slice hright
    have hsize12 : headerSize pageType = 12 := by unfold headerSize; rw [if_pos hint]
    rw [hkeep _ _ (by omega)]
    have hbef : slice written (headerOffset + 8) 4 = slice start (headerOffset + 8) 4 :=
      slice_congr _ _ _ _ fun j hj hj' => hat.keep j (by omega)
    rw [hbef, hstart hint]
  case cell =>
    intro k cell hk
    obtain ⟨off, hpointer, hlo, hhi, hbytes⟩ := hat.cell k cell hk
    have hroom := hat.room (by rintro rfl; simp at hk)
    refine ⟨off, ?_, by omega, by omega, ?_⟩
    · rw [← hpointer]
      unfold getUint16
      rw [hkeep _ _ (by omega), zero_add]
    · rw [hkeep _ _ (by omega)]
      exact hbytes

end

end Trex.Sqlite
