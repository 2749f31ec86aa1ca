import Trex.Sqlite.PayloadProof
import Trex.Sqlite.RecordProof

/-!
# B-trees are read back

`Reads options pages shown number rows height`: in every database that shows these pages, a walk from
page `number` appends `rows`, visits only pages in `shown`, and needs at most `height` levels.
-/

namespace Trex.Sqlite

open List Database BigEndian

open Slice

/-! ## Cells -/

/-- A row as it is read back. -/
def Row.readBack (row : Row) : Row := { row with values := row.values.map Value.readBack }

/-- The rows the reader can take: valid text and records up to its size limit. -/
structure Row.Readable (options : BuildOptions) (row : Row) : Prop where
  valid : ∀ value ∈ row.values, value.ValidText
  size : ∀ payload, encodeRecord row.values options.encoding = .ok payload → payload.length ≤ 2 ^ 30

def cellRecord (d : Database) (tableLeaf : Bool) (page : Page) (number index offset : Nat) :
    Except SqliteError Row :=
  if tableLeaf then d.tableRecord page number index offset
  else d.indexRecord page number index offset

/-- Wherever the cell stands on a page, it is read as `row`. -/
structure CellOk (options : BuildOptions) (pages : Pages) (shown : Set Nat) (tableLeaf : Bool)
    (cell : Bytes) (row : Row) : Prop where
  nonempty : cell ≠ []
  reads : ∀ d : Database, Fits d options → Sees d pages shown →
    ∀ (page : Page) (number index offset : Nat), page.length = options.pageSize →
    offset + cell.length ≤ options.pageSize → slice page offset cell.length = cell →
    cellRecord d tableLeaf page number index offset = .ok row

variable {options : BuildOptions} {pages pages' : Pages} {tableLeaf : Bool} {cell : Bytes}
  {row : Row} {node : Subtree} {number right height n : Nat} {pageType : UInt8} {cells : List Bytes}
  {page p : Page} {d : Database} {rows : List Row} {shown : Set Nat} {nodes : List Subtree}

lemma CellOk.mono {shown shown' : Set Nat} (h : CellOk options pages shown tableLeaf cell row)
    (hsub : ∀ n ∈ shown, n ∈ shown') (hsame : ∀ n ∈ shown, pageAt pages' n = pageAt pages n) :
    CellOk options pages' shown' tableLeaf cell row :=
  ⟨h.nonempty, fun d hfits hsees => h.reads d hfits (hsees.mono hsub hsame)⟩

/-- The assumptions under which the builder works: a page size and an encoding that
`Build` accepts. -/
structure OptionsOk (options : BuildOptions) : Prop where
  pageSize : 512 ≤ options.pageSize ∧ options.pageSize ≤ 65536
  encoding : 1 ≤ options.encoding ∧ options.encoding ≤ 3

lemma toInt64_ofNat_toUInt64 (v : Int64) : (UInt64.ofNat v.toUInt64.toNat).toInt64 = v := by
  simp

/-- A cell of a table leaf reads back. -/
lemma tableLeafCell_ok (h : tableLeafCell options row pages = .ok (cell, pages'))
    (hopt : OptionsOk options) (hrow : row.Readable options) (hpages : 1 ≤ pages.length)
    (hsized : Sized options.pageSize pages) : Grows options.pageSize ∅ pages pages' ∧ (pages'.length < 2 ^ 32 →
        CellOk options pages' (Set.Ioc pages.length pages'.length) true cell row.readBack) := by
  unfold tableLeafCell at h
  split at h
  · simp at h
  · simp at h
  next pay rowID hpay hrowID =>
  simp only [Except.ok.injEq] at h
  have hok := cellPayload_payloadCell options
    (encodeVarint pay.length ++ encodeVarint rowID.toUInt64.toNat) pay true pages
    hopt.pageSize.1 hpages hsized
  rw [h] at hok
  refine ⟨hok.grows, fun hmax => ?_⟩
  obtain ⟨rest, hcell, hreads⟩ := hok.reads hmax
  have hsize := hrow.size pay hpay
  have hvarint := varintSize_bounds pay.length
  dsimp only at hcell hreads
  subst hcell
  refine ⟨?_, ?_⟩
  · intro hnil
    have := congrArg length hnil
    simp only [length_append, length_encodeVarint, length_nil] at this
    omega
  intro d hfits hsees page number idx off hpage hend hslice
  obtain ⟨hstart, hrest⟩ := slice_append _ _ _ _ hslice
  obtain ⟨hfirst, hsecond⟩ := slice_append _ _ _ _ hstart
  simp only [length_append, length_encodeVarint] at hend hrest hfirst hsecond
  have hrowid : rowID.toUInt64.toNat < 2 ^ 64 := UInt64.toNat_lt _
  have husb := hfits.usable
  unfold cellRecord
  rw [if_pos rfl]
  unfold tableRecord
  rw [decodeVarint_of_slice page off d.usable pay.length (by omega) hfirst (by omega)
    (by omega)]
  dsimp only
  rw [decodeVarint_of_slice page _ d.usable rowID.toUInt64.toNat hrowid hsecond (by omega)
    (by omega)]
  dsimp only
  rw [add_assoc, hreads d hfits hsees hsize page _ (by omega) hrest]
  dsimp only
  rw [hfits.encoding, decodeRecord_encodeRecord hpay hopt.encoding hrow.valid hsize]
  dsimp only
  rw [toInt64_ofNat_toUInt64, Row.readBack, hrowID]

/-- A cell of an index reads back. -/
lemma indexCell_ok (h : indexCell options row pages = .ok (cell, pages'))
    (hopt : OptionsOk options) (hrow : row.Readable options) (hnone : row.rowID = none)
    (hpages : 1 ≤ pages.length) (hsized : Sized options.pageSize pages) :
    Grows options.pageSize ∅ pages pages' ∧ (pages'.length < 2 ^ 32 →
        CellOk options pages' (Set.Ioc pages.length pages'.length) false cell row.readBack) := by
  unfold indexCell at h
  split at h
  · simp at h
  next pay hpay =>
  simp only [Except.ok.injEq] at h
  have hok := cellPayload_payloadCell options (encodeVarint pay.length) pay false pages
    hopt.pageSize.1 hpages hsized
  rw [h] at hok
  refine ⟨hok.grows, fun hmax => ?_⟩
  obtain ⟨rest, hcell, hreads⟩ := hok.reads hmax
  have hsize := hrow.size pay hpay
  have hvarint := varintSize_bounds pay.length
  dsimp only at hcell hreads
  subst hcell
  refine ⟨?_, ?_⟩
  · intro hnil
    have := congrArg length hnil
    simp only [length_append, length_encodeVarint, length_nil] at this
    omega
  intro d hfits hsees page number idx off hpage hend hslice
  obtain ⟨hfirst, hrest⟩ := slice_append _ _ _ _ hslice
  simp only [length_append, length_encodeVarint] at hend hrest hfirst
  have husb := hfits.usable
  unfold cellRecord
  rw [if_neg (by simp)]
  unfold indexRecord
  rw [decodeVarint_of_slice page off d.usable pay.length (by omega) hfirst (by omega)
    (by omega)]
  dsimp only
  rw [hreads d hfits hsees hsize page _ (by omega) hrest]
  dsimp only
  rw [hfits.encoding, decodeRecord_encodeRecord hpay hopt.encoding hrow.valid hsize]
  dsimp only
  rw [Row.readBack, hnone]

/-! ## Subtrees -/

/-- A subtree: root, rows and pages. -/
structure Subtree where
  number : Nat
  rows : List Row
  shown : Set Nat

/-- The walk of a subtree appends its rows. -/
def Appends (walk : Nat → Database.Walk → Except SqliteError Database.Walk) (maximum : Nat)
    (node : Subtree) : Prop :=
  ∀ w, w.rows.length + node.rows.length ≤ maximum → (∀ n ∈ node.shown, n ∉ w.visited) →
    ∃ visited, walk node.number w = .ok ⟨w.rows ++ node.rows, visited⟩ ∧ ∀ n ∈ visited, n ∈ w.visited ∨ n ∈ node.shown

/-- A part of a walk that appends `rows` and visits only pages in `shown`. -/
def Gathers (maximum : Nat) (rows : List Row) (shown : Set Nat)
    (f : Database.Walk → Except SqliteError Database.Walk) : Prop :=
  ∀ w, w.rows.length + rows.length ≤ maximum → (∀ n ∈ shown, n ∉ w.visited) →
    ∃ visited, f w = .ok ⟨w.rows ++ rows, visited⟩ ∧ ∀ n ∈ visited, n ∈ w.visited ∨ n ∈ shown

section

variable {maximum : Nat} {rows rows' : List Row} {shown shown' : Set Nat}
  {f g k : Database.Walk → Except SqliteError Database.Walk}

section

variable (hf : Gathers maximum rows shown f)

include hf

/-- Two walks in a row gather both. -/
lemma Gathers.bind (hg : Gathers maximum rows' shown' g) (hapt : ∀ n ∈ shown, n ∉ shown')
    (hk : ∀ w w', f w = .ok w' → k w = g w') : Gathers maximum (rows ++ rows') (shown ∪ shown') k := by
  intro w hmax hnew
  rw [length_append] at hmax
  obtain ⟨visited, hfirst, hvis⟩ := hf w (by omega) fun n hn => hnew n (.inl hn)
  obtain ⟨visited', hsecond, hvis'⟩ := hg ⟨w.rows ++ rows, visited⟩
    (by dsimp only; rw [length_append]; omega)
    (fun n hn hv => by
      rcases hvis n hv with hv | hv
      · exact hnew n (.inr hn) hv
      · exact hapt n hv hn)
  refine ⟨visited', ?_, fun n hn => ?_⟩
  · rw [hk w _ hfirst, hsecond, append_assoc]
  · rcases hvis' n hn with hn | hn
    · exact (hvis n hn).imp_right .inl
    · exact .inr (.inr hn)

lemma Gathers.push (row : Row) :
    Gathers maximum (row :: rows) shown fun w => f { w with rows := w.rows ++ [row] } := by
  intro w hmax hnew
  rw [length_cons] at hmax
  obtain ⟨visited, hok, hvis⟩ := hf { w with rows := w.rows ++ [row] }
    (by rw [length_append, length_singleton]; omega) hnew
  refine ⟨visited, ?_, hvis⟩
  dsimp only
  rw [hok, append_assoc]
  rfl

/-- With enough rows already nothing is left to append. -/
lemma Gathers.guard : Gathers maximum rows shown fun w => if w.rows.length ≥ maximum then .ok w else f w := by
  intro w hmax hnew
  by_cases hfull : w.rows.length ≥ maximum
  · have hnil : rows = [] := length_eq_zero_iff.mp (by omega)
    refine ⟨w.visited, ?_, fun n hn => .inl hn⟩
    simp only [if_pos hfull, hnil, append_nil]
  · simp only [if_neg hfull]
    exact hf w hmax hnew

end

end

/-- Every database that shows the pages reads the subtree. -/
structure Reads (options : BuildOptions) (pages : Pages) (height : Nat) (node : Subtree) : Prop where
  number_lt : node.number < 2 ^ 32
  walk : ∀ d : Database, Fits d options → Sees d pages node.shown → ∀ maximum turns,
    height < turns → Appends (d.walk maximum turns) maximum node

/-- A subtree reads back as long as its pages stay. -/
lemma Reads.mono {height height' : Nat} (h : Reads options pages height node)
    (hheight : height ≤ height') (hsame : ∀ n ∈ node.shown, pageAt pages' n = pageAt pages n) :
    Reads options pages' height' node :=
  ⟨h.number_lt, fun d hfits hsees maximum turns hturns =>
    h.walk d hfits (hsees.mono (fun _ hn => hn) hsame) maximum turns (by omega)⟩

def headerOffset (number : Nat) : Nat := if number = 1 then 100 else 0

/-- What a walk sees of a page: the same type, cells and last child. -/
lemma PageIs.seen {p q : Page} (h : PageIs (headerOffset number) pageType right cells p)
    (hlen : q.length = p.length) (hsame : ∀ j, (number = 1 → 100 ≤ j) → q[j]? = p[j]?) :
    PageIs (headerOffset number) pageType right cells q := by
  refine h.congr hlen fun j hj => hsame j fun hone => ?_
  unfold headerOffset at hj
  rw [if_pos hone] at hj
  exact hj

lemma PageIs.getD_type {headerOffset right : Nat} (h : PageIs headerOffset pageType right cells page) :
    page.getD headerOffset 0 = pageType := by
  have htype := congrArg (fun l => l[0]?) h.type
  simp only [getElem?_slice, Nat.lt_one_iff, if_true, add_zero, getElem?_cons_zero] at htype
  rw [getD_eq_getElem?_getD, htype]
  rfl

lemma PageIs.cellOffset {headerOffset right : Nat}
    (h : PageIs headerOffset pageType right cells page) (hpage : page.length = d.usable)
    (number : Nat) {idx : Nat} (hcell : cells[idx]? = some cell) (hne : cell ≠ []) :
    ∃ off, d.cellOffset page (headerOffset + headerSize pageType) idx number = .ok off ∧
      off + cell.length ≤ d.usable ∧ slice page off cell.length = cell := by
  obtain ⟨off, hoff, -, hend, hbytes⟩ := h.cell idx cell hcell
  have hpos := length_pos_of_ne_nil hne
  refine ⟨off, ?_, by omega, hbytes⟩
  unfold Database.cellOffset
  rw [hoff, if_neg (by omega)]

/-- The switch of `walkPage`, on a page whose contents are known. -/
lemma walkPage_eq (hopt : OptionsOk options) (hfits : Fits d options)
    (hpage : PageIs (headerOffset number) pageType right cells page) (hlen : page.length = d.usable)
    (maximum : Nat) (walk : Nat → Database.Walk → Except SqliteError Database.Walk) (w : Database.Walk) :
    d.walkPage maximum walk number page w = if pageType = 0x05 then
        match d.tableLoop walk page number (headerOffset number + headerSize pageType) cells.length 0 w with
        | .error err => .error err
        | .ok w => walk (getUint32 page (headerOffset number + 8)) w
      else if pageType = 0x02 then
        match d.indexLoop maximum walk page number (headerOffset number + headerSize pageType)
            cells.length 0 w with
        | .error err => .error err
        | .ok w =>
          if w.rows.length ≥ maximum then .ok w
          else walk (getUint32 page (headerOffset number + 8)) w
      else if pageType = 0x0d ∨ pageType = 0x0a then
        match d.leafLoop maximum page number (headerOffset number + headerSize pageType)
            (pageType == 0x0d) cells.length 0 w.rows with
        | .error err => .error err
        | .ok rows => .ok { w with rows := rows }
      else .error (.unsupportedPageType number pageType) := by
  have husb := hfits.usable
  have hsize := hopt.pageSize
  have hoff : headerOffset number ≤ 100 := by
    unfold headerOffset
    split <;> omega
  have hfit := hpage.fits
  have hstart : (if number = 1 then 100 else 0) = headerOffset number := rfl
  have hheader : (if isInterior pageType = true then 12 else 8) = headerSize pageType := rfl
  unfold walkPage
  simp only [hstart, hpage.getD_type, hpage.count, hheader]
  refine (if_neg (by omega)).trans ((if_neg (by omega)).trans ?_)
  rfl

/-- The common start of a walk: unless there are enough rows already, the page is new
and its type decides what happens. -/
lemma walk_page {maximum turns : Nat} {inner : Set Nat} (hfits : Fits d options)
    (hsees : Sees d pages shown) (hmem : number ∈ shown) (hp : pageAt pages number = some p)
    (hlen : p.length = options.pageSize)
    (hpage : PageIs (headerOffset number) pageType right cells p) (hinner : inner ⊆ shown) (hfresh : number ∉ inner)
    (hwalk : ∀ q, PageIs (headerOffset number) pageType right cells q → q.length = d.usable →
      Gathers maximum rows inner (d.walkPage maximum (d.walk maximum turns) number q)) :
    Appends (d.walk maximum (turns + 1)) maximum ⟨number, rows, shown⟩ := by
  refine Gathers.guard ?_
  intro w hmax hnew
  dsimp only at hmax hnew ⊢
  obtain ⟨p', q, hp', hq, hqlen, hsame⟩ := hsees number hmem
  rw [hp] at hp'
  cases hp'
  rw [if_neg (hnew _ hmem), hq]
  obtain ⟨visited, hok, hvis⟩ := hwalk q (hpage.seen hqlen hsame)
    (by rw [hqlen, hlen, hfits.usable]) { w with visited := number :: w.visited } hmax
    (fun n hn hv => by
      rcases mem_cons.mp hv with rfl | hv
      · exact hfresh hn
      · exact hnew n (hinner hn) hv)
  refine ⟨visited, hok, fun n hn => ?_⟩
  rcases hvis n hn with hn | hn
  · rcases mem_cons.mp hn with rfl | hn
    · exact .inr hmem
    · exact .inl hn
  · exact .inr (hinner hn)

/-! ## Leaf pages -/

lemma leafLoop_cells {headerOffset right : Nat} (hfits : Fits d options)
    (hsees : Sees d pages shown) (hpage : PageIs headerOffset pageType right cells page)
    (hlen : page.length = d.usable) (number maximum : Nat) {rest : List Bytes}
    (hok : List.Forall₂ (CellOk options pages shown tableLeaf) rest rows) (idx : Nat) (acc : List Row)
    (hrest : ∀ (k : Nat) (c : Bytes), rest[k]? = some c → cells[idx + k]? = some c)
    (hmax : acc.length + rows.length ≤ maximum) :
    d.leafLoop maximum page number (headerOffset + headerSize pageType) tableLeaf rest.length idx
      acc = .ok (acc ++ rows) := by
  induction hok generalizing idx acc with
  | nil => rw [append_nil]; rfl
  | @cons cell row rest rows hcell _ ih =>
  rw [length_cons] at hmax
  obtain ⟨off, hoff, hend, hbytes⟩ := hpage.cellOffset hlen number
    (hrest 0 cell rfl) hcell.nonempty
  have husb := hfits.usable
  have hrec := hcell.reads d hfits hsees page number idx off (by omega) (by omega) hbytes
  unfold cellRecord at hrec
  rw [length_cons, leafLoop, if_pos (by omega)]
  rw [add_zero] at hoff
  rw [hoff]
  dsimp only
  rw [hrec]
  dsimp only
  rw [ih (idx + 1) (acc ++ [row]) (fun k c hk => ?_)
    (by rw [length_append, length_singleton]; omega), append_assoc]
  · rfl
  · rw [← hrest (k + 1) c (by simpa using hk)]
    congr 1
    omega

/-- The walk of a leaf appends its rows. -/
lemma reads_leaf (tableLeaf : Bool) (hopt : OptionsOk options) (hnum : number < 2 ^ 32)
    (hp : pageAt pages number = some p) (hlen : p.length = options.pageSize)
    (hpage : PageIs (headerOffset number) (if tableLeaf then 0x0d else 0x0a) 0 cells p)
    (hcells : List.Forall₂ (CellOk options pages shown tableLeaf) cells rows) :
    Reads options pages height ⟨number, rows, insert number shown⟩ := by
  refine ⟨hnum, fun d hfits hsees maximum turns hturns => ?_⟩
  obtain ⟨turns, rfl⟩ : ∃ k, turns = k + 1 := ⟨turns - 1, by omega⟩
  refine walk_page hfits hsees (Set.mem_insert _ _) hp hlen hpage (Set.empty_subset _)
    (Set.notMem_empty _) ?_
  intro q hq hqlen w hmax _
  refine ⟨w.visited, ?_, fun n hn => .inl hn⟩
  have hsees' : Sees d pages shown := hsees.mono (fun n hn => Set.mem_insert_of_mem _ hn) fun _ _ => rfl
  have hloop := leafLoop_cells hfits hsees' hq hqlen number maximum hcells 0 w.rows
    (fun k c hk => by rw [zero_add]; exact hk) hmax
  rw [walkPage_eq hopt hfits hq hqlen]
  cases tableLeaf with
  | true =>
    simp only [if_true] at hloop ⊢
    rw [if_neg (by decide), if_neg (by decide), if_pos (by decide),
      show ((0x0d : UInt8) == 0x0d) = true from rfl, hloop]
  | false =>
  simp only [Bool.false_eq_true, if_false] at hloop ⊢
  rw [if_neg (by decide), if_neg (by decide), if_pos (by decide),
    show ((0x0a : UInt8) == 0x0d) = false from rfl, hloop]

/-! ## Interior pages -/

/-- The pages of subtrees. -/
def footprint (nodes : List Subtree) : Set Nat := {n | ∃ node ∈ nodes, n ∈ node.shown}

/-- The subtrees share no page. -/
def Apart (nodes : List Subtree) : Prop :=
  nodes.Pairwise fun a b => ∀ n ∈ a.shown, n ∉ b.shown

lemma footprint_cons (node : Subtree) (nodes : List Subtree) :
    footprint (node :: nodes) = node.shown ∪ footprint nodes := by
  ext n
  simp [footprint]

lemma Apart.notMem_footprint (h : Apart (node :: nodes)) (hn : n ∈ node.shown) : n ∉ footprint nodes := by
  rintro ⟨other, hmem, hoth⟩
  exact (pairwise_cons.mp h).1 other hmem n hn hoth

/-- A cell of an interior page starts with the number of its child. -/
lemma PageIs.child {headerOffset right : Nat}
    (h : PageIs headerOffset pageType right cells page) (hlen : page.length = d.usable)
    (number : Nat) {idx child : Nat} {key : Bytes}
    (hcell : cells[idx]? = some (put 4 child ++ key)) (hkid : child < 2 ^ 32) :
    ∃ off, d.cellOffset page (headerOffset + headerSize pageType) idx number = .ok off ∧
      getUint32 page off = child ∧ off + 4 + key.length ≤ d.usable ∧
      slice page (off + 4) key.length = key := by
  have hne : put 4 child ++ key ≠ [] := by
    intro hnil
    have := congrArg length hnil
    simp at this
  obtain ⟨off, hoff, hend, hbytes⟩ := h.cellOffset hlen number hcell hne
  obtain ⟨hpointer, hkey⟩ := slice_append _ _ _ _ hbytes
  rw [length_put] at hpointer hkey
  rw [length_append, length_put] at hend
  exact ⟨off, hoff, getUint32_of_slice hkid hpointer, by omega, hkey⟩

/-- The children left of the cells of an interior table page, in order. -/
lemma tableLoop_nodes {headerOffset right : Nat}
    (hpage : PageIs headerOffset pageType right cells page) (hlen : page.length = d.usable)
    (number maximum : Nat) (walk : Nat → Database.Walk → Except SqliteError Database.Walk)
    (nodes : List Subtree) (idx : Nat) (hcells : ∀ (k : Nat) (node : Subtree), nodes[k]? = some node →
      ∃ key, cells[idx + k]? = some (put 4 node.number ++ key)) (hnum : ∀ node ∈ nodes, node.number < 2 ^ 32)
    (hwalk : ∀ node ∈ nodes, Appends walk maximum node) (hapt : Apart nodes) :
    Gathers maximum (nodes.flatMap Subtree.rows) (footprint nodes)
      (d.tableLoop walk page number (headerOffset + headerSize pageType) nodes.length idx) := by
  induction nodes generalizing idx with
  | nil => exact fun w _ _ => ⟨w.visited, by simp [tableLoop], fun n hn => .inl hn⟩
  | cons node nodes ih =>
  obtain ⟨key, hcell⟩ := hcells 0 node rfl
  obtain ⟨off, hoff, hkid, hend, -⟩ := hpage.child hlen number hcell
    (hnum node mem_cons_self)
  have hrest := ih (idx + 1)
    (fun k other hk => by
      obtain ⟨key, hkey⟩ := hcells (k + 1) other (by simpa using hk)
      exact ⟨key, by rw [← hkey]; congr 1; omega⟩)
    (fun other hoth => hnum other (mem_cons_of_mem _ hoth))
    (fun other hoth => hwalk other (mem_cons_of_mem _ hoth))
    (pairwise_cons.mp hapt).2
  rw [footprint_cons, flatMap_cons]
  have hfirst : Gathers maximum node.rows node.shown (walk node.number) := hwalk node mem_cons_self
  refine hfirst.bind hrest (fun n hn => hapt.notMem_footprint hn) fun w w' hw => ?_
  rw [length_cons, tableLoop]
  rw [add_zero] at hoff
  rw [hoff]
  dsimp only
  rw [if_neg (by omega), hkid, hw]

lemma footprint_append (nodes : List Subtree) (last : Subtree) :
    footprint (nodes ++ [last]) = footprint nodes ∪ last.shown := by
  ext n
  simp [footprint, or_and_right, exists_or]

lemma Apart.last {last : Subtree} (h : Apart (nodes ++ [last])) (hn : n ∈ footprint nodes) : n ∉ last.shown := by
  obtain ⟨node, hnode, hshown⟩ := hn
  exact (pairwise_append.mp h).2.2 node hnode last (mem_singleton.mpr rfl) n hshown

/-- The walk of an interior page walks its children. -/
lemma reads_tableInterior {last : Subtree} (hopt : OptionsOk options) (hnum : number < 2 ^ 32)
    (hp : pageAt pages number = some p) (hlen : p.length = options.pageSize)
    (hpage : PageIs (headerOffset number) 0x05 last.number cells p) (hcount : cells.length = nodes.length)
    (hcells : ∀ (k : Nat) (node : Subtree), nodes[k]? = some node → ∃ key, cells[k]? = some (put 4 node.number ++ key))
    (hreads : ∀ node ∈ nodes ++ [last], Reads options pages height node)
    (hapt : Apart (nodes ++ [last])) (hfresh : number ∉ footprint (nodes ++ [last])) :
    Reads options pages (height + 1) ⟨number, (nodes ++ [last]).flatMap Subtree.rows,
        insert number (footprint (nodes ++ [last]))⟩ := by
  refine ⟨hnum, fun d hfits hsees maximum turns hturns => ?_⟩
  obtain ⟨turns, rfl⟩ : ∃ k, turns = k + 1 := ⟨turns - 1, by omega⟩
  refine walk_page hfits hsees (Set.mem_insert _ _) hp hlen hpage (Set.subset_insert _ _) hfresh ?_
  intro q hq hqlen
  have hkid : ∀ node ∈ nodes ++ [last], Appends (d.walk maximum turns) maximum node := by
    intro node hnode
    refine (hreads node hnode).walk d hfits ?_ maximum turns (by omega)
    exact hsees.mono (fun n hn => Set.mem_insert_of_mem _ ⟨node, hnode, hn⟩) fun _ _ => rfl
  have hloop := tableLoop_nodes hq hqlen number maximum (d.walk maximum turns) nodes 0
    (fun k node hk => by rw [zero_add]; exact hcells k node hk)
    (fun node hnode => (hreads node (mem_append_left _ hnode)).number_lt)
    (fun node hnode => hkid node (mem_append_left _ hnode))
    (pairwise_append.mp hapt).1
  have hlast : Gathers maximum last.rows last.shown (d.walk maximum turns last.number) :=
    hkid last (mem_append_right _ (mem_singleton.mpr rfl))
  rw [footprint_append, flatMap_append, flatMap_singleton]
  refine hloop.bind hlast (fun n hn => hapt.last hn) fun w w' hw => ?_
  rw [walkPage_eq hopt hfits hq hqlen, if_pos rfl, hcount, hw]
  rw [hq.right (by decide)]

/-- A child and the row that separates it from the next. -/
abbrev Keyed := Subtree × Row

def keyedRows (children : List Keyed) : List Row :=
  children.flatMap fun child => child.1.rows ++ [child.2]

lemma indexLoop_nodes {headerOffset right : Nat} (hfits : Fits d options)
    (hsees : Sees d pages shown) (hpage : PageIs headerOffset pageType right cells page)
    (hlen : page.length = d.usable) (number maximum : Nat)
    (walk : Nat → Database.Walk → Except SqliteError Database.Walk) (children : List Keyed) (idx : Nat)
    (hcells : ∀ (k : Nat) (child : Keyed), children[k]? = some child →
      ∃ pay, cells[idx + k]? = some (put 4 child.1.number ++ pay) ∧
        CellOk options pages shown false pay child.2) (hnum : ∀ child ∈ children, child.1.number < 2 ^ 32)
    (hwalk : ∀ child ∈ children, Appends walk maximum child.1) (hapt : Apart (children.map Prod.fst)) :
    Gathers maximum (keyedRows children) (footprint (children.map Prod.fst))
      (d.indexLoop maximum walk page number (headerOffset + headerSize pageType) children.length idx) := by
  induction children generalizing idx with
  | nil => exact fun w _ _ => ⟨w.visited, by simp [indexLoop, keyedRows], fun n hn => .inl hn⟩
  | cons child children ih =>
  obtain ⟨pay, hcell, hpay⟩ := hcells 0 child rfl
  obtain ⟨off, hoff, hkid, hend, hrec⟩ := hpage.child hlen number hcell
    (hnum child mem_cons_self)
  have husb := hfits.usable
  have hrow := hpay.reads d hfits hsees page number idx (off + 4) (by omega) (by omega)
    hrec
  unfold cellRecord at hrow
  rw [if_neg (by simp)] at hrow
  rw [map_cons] at hapt ⊢
  have hrest := ih (idx + 1)
    (fun k other hk => by
      obtain ⟨pay, hcell, hok⟩ := hcells (k + 1) other (by simpa using hk)
      exact ⟨pay, by rw [← hcell]; congr 1; omega, hok⟩)
    (fun other hoth => hnum other (mem_cons_of_mem _ hoth))
    (fun other hoth => hwalk other (mem_cons_of_mem _ hoth))
    (pairwise_cons.mp hapt).2
  have hkeyed : keyedRows (child :: children) = child.1.rows ++ child.2 :: keyedRows children := by simp [keyedRows]
  rw [footprint_cons, hkeyed]
  have hfirst : Gathers maximum child.1.rows child.1.shown (walk child.1.number) := hwalk child mem_cons_self
  refine hfirst.bind (hrest.push child.2).guard (fun n hn => hapt.notMem_footprint hn)
    fun w w' hw => ?_
  rw [length_cons, indexLoop]
  rw [add_zero] at hoff
  rw [hoff]
  dsimp only
  rw [if_neg (by omega), hkid, hw]
  rw [hrow]

/-- The walk of an index page takes the separators between the children. -/
lemma reads_indexInterior {kids : List Keyed} {last : Subtree} (hopt : OptionsOk options)
    (hnum : number < 2 ^ 32) (hp : pageAt pages number = some p) (hlen : p.length = options.pageSize)
    (hpage : PageIs (headerOffset number) 0x02 last.number cells p) (hcount : cells.length = kids.length)
    (hcells : ∀ (k : Nat) (child : Keyed), kids[k]? = some child →
      ∃ pay, cells[k]? = some (put 4 child.1.number ++ pay) ∧ CellOk options pages shown false pay child.2)
    (hreads : ∀ node ∈ kids.map Prod.fst ++ [last], Reads options pages height node)
    (hapt : Apart (kids.map Prod.fst ++ [last]))
    (hfresh : number ∉ footprint (kids.map Prod.fst ++ [last])) : Reads options pages (height + 1)
      ⟨number, keyedRows kids ++ last.rows,
        insert number (shown ∪ footprint (kids.map Prod.fst ++ [last]))⟩ := by
  refine ⟨hnum, fun d hfits hsees maximum turns hturns => ?_⟩
  obtain ⟨turns, rfl⟩ : ∃ k, turns = k + 1 := ⟨turns - 1, by omega⟩
  refine walk_page hfits hsees (Set.mem_insert _ _) hp hlen hpage
    (fun n hn => Set.mem_insert_of_mem _ (.inr hn)) hfresh ?_
  intro q hq hqlen
  have hkid : ∀ node ∈ kids.map Prod.fst ++ [last], Appends (d.walk maximum turns) maximum node := by
    intro node hnode
    refine (hreads node hnode).walk d hfits ?_ maximum turns (by omega)
    exact hsees.mono (fun n hn => Set.mem_insert_of_mem _ (.inr ⟨node, hnode, hn⟩)) fun _ _ => rfl
  have hsees' : Sees d pages shown := hsees.mono (fun n hn => Set.mem_insert_of_mem _ (.inl hn)) fun _ _ => rfl
  have hfirst : ∀ child ∈ kids, child.1 ∈ kids.map Prod.fst ++ [last] := fun child hkid =>
    mem_append_left _ (mem_map_of_mem hkid)
  have hloop := indexLoop_nodes hfits hsees' hq hqlen number maximum (d.walk maximum turns)
    kids 0 (fun k child hk => by rw [zero_add]; exact hcells k child hk)
    (fun child hmem => (hreads child.1 (hfirst child hmem)).number_lt)
    (fun child hmem => hkid child.1 (hfirst child hmem)) (pairwise_append.mp hapt).1
  have hlast : Gathers maximum last.rows last.shown (d.walk maximum turns last.number) :=
    hkid last (mem_append_right _ (mem_singleton.mpr rfl))
  rw [footprint_append]
  refine hloop.bind hlast.guard (fun n hn => hapt.last hn) fun w w' hw => ?_
  rw [walkPage_eq hopt hfits hq hqlen, if_neg (by decide), if_pos rfl, hcount, hw]
  rw [hq.right (by decide)]

end Trex.Sqlite
