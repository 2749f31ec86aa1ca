import Trex.Sqlite.TableProof

/-!
# Index trees are read back

`buildIndexNode` splits the rows over the children of a page, with a row between any two.  The induction
is on the height; `ChildrenOk` is what the loop over the children leaves.
-/

namespace Trex.Sqlite

open List

/-- A row that an index can hold. -/
def IndexRow (options : BuildOptions) (row : Row) : Prop := row.Readable options ∧ row.rowID = none

variable {opts : BuildOptions} {rows : List Row} {pages pages' : Pages} {cells : List Bytes}
  {node : Nat → List Row → Pages → Except SqliteError Pages} {left remaining height : Nat}

/-- The cells of a page read back. -/
lemma indexCells_ok (hopt : OptionsOk opts) (h : indexCells opts rows pages = .ok (cells, pages'))
    (hrows : ∀ row ∈ rows, IndexRow opts row) (hsized : Sized opts.pageSize pages)
    (hpages : 1 ≤ pages.length) : Grows opts.pageSize ∅ pages pages' ∧ (pages'.length < 2 ^ 32 →
      List.Forall₂ (CellOk opts pages' (Set.Ioc pages.length pages'.length) false) cells
        (rows.map Row.readBack)) := by
  induction rows generalizing pages cells with
  | nil =>
    obtain ⟨rfl, rfl⟩ := Checked.ok_pair h
    exact ⟨Grows.refl _ _ _, fun _ => .nil⟩
  | cons row rows ih =>
  unfold indexCells at h
  split at h
  · simp at h
  next cell pages1 hcell =>
  split at h
  · simp at h
  next rest pages2 hrest =>
  obtain ⟨rfl, rfl⟩ := Checked.ok_pair h
  obtain ⟨hread, hnone⟩ := hrows row mem_cons_self
  obtain ⟨hgrow1, hok1⟩ := indexCell_ok hcell hopt hread hnone hpages hsized
  have hle1 := hgrow1.le
  obtain ⟨hgrow2, hok2⟩ := ih hrest (fun r hr => hrows r (mem_cons_of_mem _ hr))
    (hgrow1.sized hsized) (by omega)
  have hle2 := hgrow2.le
  refine ⟨hgrow1.trans hgrow2 (by simp) (by simp), fun hmax => .cons ?_ ?_⟩
  · refine (hok1 (by omega)).mono ?_ ?_
    · rintro n ⟨h1, h2⟩
      exact ⟨h1, by omega⟩
    · rintro n ⟨-, h2⟩
      exact hgrow2.keep n h2 (by simp)
  · refine (hok2 hmax).imp fun cell row hok => hok.mono ?_ fun _ _ => rfl
    rintro n ⟨h1, h2⟩
    exact ⟨by omega, h2⟩

lemma cells_nonempty {shown : Set Nat} {tableLeaf : Bool}
    (h : List.Forall₂ (CellOk opts pages shown tableLeaf) cells rows) : ∀ cell ∈ cells, cell ≠ [] := by
  induction h with
  | nil => simp
  | cons hcell _ ih =>
  rintro cell (_ | ⟨_, hmem⟩)
  · exact hcell.nonempty
  · exact ih cell hmem

/-- A subtree is built and reads back. -/
structure BuiltNode (options : BuildOptions) (height number : Nat) (rows : List Row)
    (pages pages' : Pages) : Prop where
  grows : Grows options.pageSize {number} pages pages'
  reads : pages'.length < 2 ^ 32 → ∃ shown,
    Reads options pages' height ⟨number, rows.map Row.readBack, shown⟩ ∧
      ∀ n ∈ shown, n = number ∨ pages.length < n ∧ n ≤ pages'.length

/-- Every call builds what it should. -/
def NodeBuilds (options : BuildOptions) (height : Nat)
    (node : Nat → List Row → Pages → Except SqliteError Pages) : Prop :=
  ∀ number rows pages pages', node number rows pages = .ok pages' → 2 ≤ number →
    number ≤ pages.length → Sized options.pageSize pages → (∀ row ∈ rows, IndexRow options row) →
    BuiltNode options height number rows pages pages'

/-- The children of an index node and their separators. -/
structure ChildrenOk (options : BuildOptions) (height : Nat) (shown : Set Nat) (pages : Pages)
    (cells : List Bytes) (rows : List Row) (children : List Keyed) (last : Subtree) : Prop where
  count : cells.length = children.length
  cell : ∀ (k : Nat) (child : Keyed), children[k]? = some child →
    ∃ payload, cells[k]? = some (BigEndian.put 4 child.1.number ++ payload) ∧
      CellOk options pages shown false payload child.2
  reads : ∀ node ∈ children.map Prod.fst ++ [last], Reads options pages height node
  apart : Apart (children.map Prod.fst ++ [last])
  rows : keyedRows children ++ last.rows = rows
  below : ∀ n ∈ footprint (children.map Prod.fst ++ [last]), n ∈ shown

lemma indexChildren_le {result : List Bytes × Nat × Pages}
    (h : indexChildren opts node (left + 1) rows remaining pages = .ok result) : left ≤ rows.length := by
  induction left generalizing rows remaining pages result with
  | zero => exact Nat.zero_le _
  | succ left ih =>
  unfold indexChildren at h
  dsimp only at h
  generalize remaining / (left + 1 + 1) = count at h
  split at h
  · simp at h
  rw [if_neg (by omega)] at h
  split at h
  · simp at h
  next row rest hdrop =>
  split at h
  · simp at h
  split at h
  · simp at h
  next hrest =>
  have hle := ih hrest
  have hlen := congrArg length hdrop
  rw [length_drop, length_cons] at hlen
  omega

lemma builtChild (hnode : NodeBuilds opts height node)
    (h : node (allocate opts.pageSize pages).1 rows (allocate opts.pageSize pages).2 =
      .ok pages') (hsized : Sized opts.pageSize pages) (hpages : 1 ≤ pages.length)
    (hrows : ∀ row ∈ rows, IndexRow opts row) :
    Grows opts.pageSize ∅ pages pages' ∧ (pages'.length < 2 ^ 32 → ∃ shown,
      Reads opts pages' height ⟨pages.length + 1, rows.map Row.readBack, shown⟩ ∧
        ∀ n ∈ shown, n ∈ Set.Ioc pages.length pages'.length) := by
  have hnew := grows_allocate opts.pageSize ∅ pages
  have hlen := length_allocate opts.pageSize pages
  obtain ⟨hgrow, hreads⟩ := hnode (pages.length + 1) rows _ pages' h (by omega) (by omega)
    (hnew.sized hsized) hrows
  have hle := hgrow.le
  refine ⟨hgrow.fresh, fun hmax => ?_⟩
  obtain ⟨shown, hread, hshown⟩ := hreads hmax
  refine ⟨shown, hread, fun n hn => ?_⟩
  rcases hshown n hn with rfl | hin
  · exact ⟨by omega, by omega⟩
  · exact ⟨by omega, hin.2⟩

/-- The children of a node read back, each on pages of its own. -/
lemma indexChildren_ok (hopt : OptionsOk opts) (hnode : NodeBuilds opts height node) {last : Nat}
    (h : indexChildren opts node (left + 1) rows remaining pages = .ok (cells, last, pages'))
    (hcount : rows.length = remaining + left) (hrows : ∀ row ∈ rows, IndexRow opts row)
    (hsized : Sized opts.pageSize pages) (hpages : 1 ≤ pages.length) :
    Grows opts.pageSize ∅ pages pages' ∧ (pages'.length < 2 ^ 32 → ∃ kids lastNode,
      lastNode.number = last ∧ ChildrenOk opts height (Set.Ioc pages.length pages'.length) pages' cells
          (rows.map Row.readBack) kids lastNode) := by
  induction left generalizing rows remaining pages cells with
  | zero =>
    unfold indexChildren at h
    dsimp only at h
    split at h
    · simp at h
    next pages1 hbuild =>
    rw [if_pos rfl] at h
    simp only [Except.ok.injEq, Prod.mk.injEq] at h
    obtain ⟨rfl, rfl, rfl⟩ := h
    obtain ⟨hgrow, hread⟩ := builtChild hnode hbuild hsized hpages
      fun r hr => hrows r (mem_of_mem_take hr)
    refine ⟨hgrow, fun hmax => ?_⟩
    obtain ⟨shown, hreads, hshown⟩ := hread hmax
    rw [zero_add, Nat.div_one, take_of_length_le (by omega)] at hreads
    refine ⟨[], ⟨_, _, shown⟩, rfl, rfl, fun k child hk => by simp at hk, ?_, pairwise_singleton _ _, rfl, ?_⟩
    · intro other hoth
      obtain rfl := mem_singleton.mp hoth
      exact hreads
    · rintro n ⟨other, hoth, hn⟩
      obtain rfl := mem_singleton.mp hoth
      exact hshown n hn
  | succ left ih =>
  unfold indexChildren at h
  dsimp only at h
  have hcountLe : remaining / (left + 1 + 1) ≤ remaining := Nat.div_le_self _ _
  generalize remaining / (left + 1 + 1) = count at h hcountLe
  split at h
  · simp at h
  next pages1 hbuild =>
  rw [if_neg (by omega)] at h
  split at h
  · simp at h
  next row rest hdrop =>
  split at h
  · simp at h
  next pay pages2 hcell =>
  split at h
  · simp at h
  next cells' last' pages3 hrest =>
  simp only [Except.ok.injEq, Prod.mk.injEq] at h
  obtain ⟨rfl, rfl, rfl⟩ := h
  have hlen := congrArg length hdrop
  rw [length_drop, length_cons] at hlen
  obtain ⟨hgrow1, hread⟩ := builtChild hnode hbuild hsized hpages
    fun r hr => hrows r (mem_of_mem_take hr)
  have hle1 := hgrow1.le
  have hsized1 := hgrow1.sized hsized
  obtain ⟨hrowRead, hrowNone⟩ := hrows row (mem_of_mem_drop (by rw [hdrop]; simp))
  obtain ⟨hgrow2, hpay⟩ := indexCell_ok hcell hopt hrowRead hrowNone (by omega) hsized1
  have hle2 := hgrow2.le
  obtain ⟨hgrow3, hkids⟩ := ih hrest (by omega)
    (fun r hr => hrows r (mem_of_mem_drop (by rw [hdrop]; simp [hr]))) (hgrow2.sized hsized1) (by omega)
  have hle3 := hgrow3.le
  have hfirst : Grows opts.pageSize ∅ pages pages2 := hgrow1.trans hgrow2 (by simp) (by simp)
  refine ⟨hfirst.trans hgrow3 (by simp) (by simp), fun hmax => ?_⟩
  obtain ⟨shown, hkid, hshown⟩ := hread (by omega)
  obtain ⟨kids, lastNode, hlast, hok⟩ := hkids hmax
  have hlow : ∀ n ∈ shown, n ≤ pages1.length := fun n hn => (hshown n hn).2
  have hwider : ∀ n ∈ Set.Ioc pages2.length pages3.length,
      n ∈ Set.Ioc pages.length pages3.length := fun n hn => ⟨by have := hn.1; omega, hn.2⟩
  refine ⟨(⟨pages.length + 1, (rows.take count).map Row.readBack, shown⟩, row.readBack) :: kids,
    lastNode, hlast, by simp [hok.count], ?_, ?_, ?_, ?_, ?_⟩
  · rintro (_ | k) child hk
    · obtain rfl := Option.some.inj hk
      refine ⟨pay, rfl, (hpay (by omega)).mono ?_ ?_⟩
      · rintro n ⟨h1, h2⟩
        exact ⟨by omega, by omega⟩
      · rintro n ⟨-, h2⟩
        exact hgrow3.keep n h2 (by simp)
    · obtain ⟨body, hbody, hbodyOk⟩ := hok.cell k child (by simpa using hk)
      exact ⟨body, by simpa using hbody, hbodyOk.mono hwider fun _ _ => rfl⟩
  · rintro other (_ | ⟨_, hoth⟩)
    · refine hkid.mono le_rfl fun n hn => ?_
      have := hlow n hn
      rw [hgrow3.keep n (by omega) (by simp), hgrow2.keep n this (by simp)]
    · exact hok.reads other hoth
  · refine pairwise_cons.mpr ⟨fun other hoth n hn hn' => ?_, hok.apart⟩
    have := (hok.below n ⟨other, hoth, hn'⟩).1
    have := hlow n hn
    omega
  · rw [keyedRows, flatMap_cons, ← keyedRows, append_assoc, hok.rows]
    simp only [append_assoc, singleton_append]
    rw [← map_cons, ← hdrop, ← map_append, take_append_drop]
  intro n hn
  rw [map_cons, cons_append, footprint_cons] at hn
  rcases hn with hn | hn
  · have := hshown n hn
    exact ⟨this.1, by have := this.2; omega⟩
  · exact hwider n (hok.below n hn)

/-! ## The nodes -/

/-- Every node reads back; the induction is on the height. -/
lemma buildIndexNode_ok (hopt : OptionsOk opts) (capacity height : Nat)
    (root : Bool) : NodeBuilds opts height (buildIndexNode opts capacity height root) := by
  induction height generalizing root with
  | zero =>
    intro num rows pages pages' h hnum hle hsized hrows
    unfold buildIndexNode at h
    split at h
    · simp at h
    next cells pages1 hcells =>
    obtain ⟨hgrow1, hok⟩ := indexCells_ok hopt hcells hrows hsized (by omega)
    have hle1 := hgrow1.le
    replace h : writeBtreePage num (headerOffset num) 0x0a 0 cells pages1 = .ok pages' := by
      rw [headerOffset, if_neg (by omega)]
      exact h
    obtain ⟨hgrow2, hlength, hpage⟩ :=
      writeBtreePage_wrote h hopt (by omega) (headerOffset_le _) (hgrow1.sized hsized)
    refine ⟨hgrow1.trans hgrow2 (by simp) (fun n hn _ => hn), fun hmax => ?_⟩
    have hok := hok (by omega)
    obtain ⟨p, hp, hplen, his⟩ := hpage (by omega) (cells_nonempty hok)
    have hkept := hok.imp fun cell row (hrow : CellOk opts pages1 _ false cell row) =>
      hrow.mono (fun _ hn => hn) fun n hn => hgrow2.keep n hn.2 (by
        rintro rfl
        have := hn.1
        omega)
    refine ⟨_, reads_leaf false hopt (by omega) hp hplen his hkept, ?_⟩
    rintro n (rfl | hn)
    · exact .inl rfl
    · exact .inr ⟨hn.1, by have := hn.2; omega⟩
  | succ height ih =>
  intro num rows pages pages' h hnum hle hsized hrows
  unfold buildIndexNode at h
  dsimp only at h
  generalize hcount : (if root = true then _ else _) = kids at h
  obtain ⟨left, rfl⟩ : ∃ left, kids = left + 1 := by
    refine ⟨kids - 1, ?_⟩
    rw [← hcount]
    split <;> omega
  split at h
  · simp at h
  next cells child pages1 hkids =>
  have hleft := indexChildren_le hkids
  obtain ⟨hgrow1, hbuilt⟩ := indexChildren_ok hopt (ih false) hkids (by omega) hrows hsized
    (by omega)
  have hle1 := hgrow1.le
  replace h : writeBtreePage num (headerOffset num) 0x02 child cells pages1 = .ok pages' := by
    rw [headerOffset, if_neg (by omega)]
    exact h
  obtain ⟨hgrow2, hlength, hpage⟩ :=
    writeBtreePage_wrote h hopt (by omega) (headerOffset_le _) (hgrow1.sized hsized)
  refine ⟨hgrow1.trans hgrow2 (by simp) (fun n hn _ => hn), fun hmax => ?_⟩
  obtain ⟨kids, last, hlast, hok⟩ := hbuilt (by omega)
  subst hlast
  have hkeep : ∀ n ∈ Set.Ioc pages.length pages1.length, pageAt pages' n = pageAt pages1 n := by
    rintro n ⟨h1, h2⟩
    refine hgrow2.keep n h2 ?_
    rintro rfl
    omega
  obtain ⟨p, hp, hplen, his⟩ := hpage (hok.reads last (by simp)).number_lt fun cell hcell => by
    obtain ⟨k, hk, rfl⟩ := mem_iff_getElem.mp hcell
    obtain ⟨pay, hpay, -⟩ := hok.cell k _
      (getElem?_eq_getElem (by rw [← hok.count]; exact hk))
    rw [getElem?_eq_getElem hk, Option.some.injEq] at hpay
    rw [hpay]
    simp [BigEndian.put]
  have hread := reads_indexInterior hopt (by omega) hp hplen his hok.count
    (fun k child hk => by
      obtain ⟨pay, hpay, hcell⟩ := hok.cell k child hk
      exact ⟨pay, hpay, hcell.mono (fun _ hn => hn) hkeep⟩)
    (fun node hnode => (hok.reads node hnode).mono le_rfl fun n hn => hkeep n (hok.below n ⟨node, hnode, hn⟩))
    hok.apart (fun hn => by have := (hok.below num hn).1; omega)
  rw [hok.rows] at hread
  refine ⟨_, hread, ?_⟩
  have hnew : ∀ n ∈ Set.Ioc pages.length pages1.length, pages.length < n ∧ n ≤ pages'.length :=
    fun n hn => ⟨hn.1, by have := hn.2; omega⟩
  rintro n (rfl | hn | hn)
  · exact .inl rfl
  · exact .inr (hnew n hn)
  · exact .inr (hnew n (hok.below n hn))

/-! ## The whole tree -/

lemma maximumCell_rowID {idx maximum result : Nat}
    (h : maximumCell opts idx maximum rows = .ok result) : ∀ row ∈ rows, row.rowID = none := by
  induction rows generalizing idx maximum with
  | nil => simp
  | cons row rows ih =>
  unfold maximumCell at h
  split at h
  · simp at h
  next hnone =>
  split at h
  · simp at h
  rintro other (_ | ⟨_, hoth⟩)
  · exact not_not.mp hnone
  · exact ih h other hoth

/-- Every level has room for at least twice the rows of the one below. -/
lemma indexHeight_le {capacity rows : Nat} (hcap : 2 ≤ capacity)
    (hmax : rows ≤ maxInt) (turns height available k : Nat) (hrows : rows ≤ available * 2 ^ k) :
    indexHeight capacity rows turns height available ≤ height + k := by
  induction turns generalizing height available k with
  | zero => simp [indexHeight]
  | succ turns ih =>
  unfold indexHeight
  split
  next hlt =>
    obtain ⟨k, rfl⟩ : ∃ j, k = j + 1 := by
      cases k with
      | zero => omega
      | succ j => exact ⟨j, rfl⟩
    have hstep : ∀ next, rows ≤ next * 2 ^ k →
        indexHeight capacity rows turns (height + 1) next ≤ height + (k + 1) := fun next hnext => by
      have := ih (height + 1) next k hnext
      omega
    apply hstep
    split
    · exact le_trans hmax (Nat.le_mul_of_pos_right _ (Nat.two_pow_pos k))
    have hdouble : available * 2 ≤ (available + 1) * (capacity + 1) - 1 := by
      rw [Nat.succ_mul]
      have : available * 2 ≤ available * (capacity + 1) := Nat.mul_le_mul_left _ (by omega)
      omega
    rw [Nat.pow_succ, mul_comm (2 ^ k), ← mul_assoc] at hrows
    exact le_trans hrows (Nat.mul_le_mul_right _ hdouble)
  next => omega

/-- An index reads back. -/
lemma buildIndex_ok (hopt : OptionsOk opts) {root : Nat} (h : buildIndex opts root rows pages = .ok pages')
    (hrows : ∀ row ∈ rows, row.Readable opts) (hroot : 2 ≤ root) (hle : root ≤ pages.length)
    (hsized : Sized opts.pageSize pages) : BuiltTree opts root rows pages pages' := by
  unfold buildIndex at h
  split at h
  · simp at h
  next maximum hmaximum =>
  dsimp only at h
  split at h
  · simp at h
  next hcap =>
  generalize (opts.pageSize - 12) / (maximum + 6) = capacity at h hcap
  have hnone := maximumCell_rowID hmaximum
  obtain ⟨hgrow, hreads⟩ := buildIndexNode_ok hopt _ _ _ root rows pages pages' h hroot hle hsized
    fun row hrow => ⟨hrows row hrow, hnone row hrow⟩
  refine ⟨hgrow, fun hmax hsmall => ?_⟩
  obtain ⟨shown, hread, hshown⟩ := hreads hmax
  have hroom : rows.length ≤ maxInt := by
    unfold maxInt
    omega
  have hheight := indexHeight_le (not_lt.mp hcap) hroom rows.length 0 capacity 20
    (le_trans hsmall (Nat.le_mul_of_pos_left _ (by omega)))
  exact ⟨shown, hread.mono (by omega) fun _ _ => rfl, hshown⟩

end Trex.Sqlite
