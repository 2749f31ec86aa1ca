import Trex.Sqlite.TreeProof

/-!
# Table trees are read back

`buildTable` writes leaves, then level after level of interior pages.  `LevelOk`: the pages of a level are
roots of subtrees that are read back, share no page, and hold the rows in order.
-/

namespace Trex.Sqlite

open List

open Slice

/-! ## Writing one page -/

variable {opts : BuildOptions} {pages pages' : Pages} {height num height' turns : Nat}
  {level : List BuildPage} {nodes : List Subtree} {rows : List Row}

/-- A page that is written reads back and leaves the others. -/
lemma writeBtreePage_wrote {num headerOffset right : Nat} {pageType : UInt8} {cells : List Bytes}
    (h : writeBtreePage num headerOffset pageType right cells pages = .ok pages')
    (hopt : OptionsOk opts) (hnum : 1 ≤ num) (hheader : headerOffset ≤ 100)
    (hsized : Sized opts.pageSize pages) :
    Grows opts.pageSize {num} pages pages' ∧ pages'.length = pages.length ∧
      (right < 2 ^ 32 → (∀ cell ∈ cells, cell ≠ []) → ∃ p, pageAt pages' num = some p ∧
        p.length = opts.pageSize ∧ PageIs headerOffset pageType right cells p) := by
  unfold writeBtreePage at h
  split at h
  · simp at h
  next page hpage =>
  split at h
  · simp at h
  next page' hpage' =>
  simp only [Except.ok.injEq] at h
  have hlen : page.length = opts.pageSize := hsized page (mem_of_getElem? hpage)
  have hsize := hopt.pageSize
  have hlen' := length_btreePage hpage' (by omega)
  have hlt := (List.getElem?_eq_some_iff.mp hpage).1
  have hset : ∀ n, pageAt pages' n = if n = num then some page' else pageAt pages n := by
    intro n
    rw [← h]
    unfold pageAt
    by_cases hn : n = 0
    · rw [if_pos hn, if_pos hn, if_neg (by omega)]
    · rw [if_neg hn, if_neg hn, getElem?_set]
      by_cases hnn : n = num
      · rw [if_pos hnn, if_pos (by omega), if_pos hlt]
      · rw [if_neg hnn, if_neg (by omega)]
  have hlength : pages'.length = pages.length := by rw [← h, length_set]
  refine ⟨⟨by omega, ?_, ?_⟩, hlength, fun hright hne => ⟨page', ?_, by rw [hlen', hlen],
    btreePage_is hpage' (by omega) (by omega) hright hne⟩⟩
  · intro n _ hout
    rw [hset, if_neg fun heq => hout (Set.mem_singleton_iff.mpr heq)]
  · intro hsized p hp
    rw [← h] at hp
    rcases mem_or_eq_of_mem_set hp with hp | rfl
    · exact hsized p hp
    · rw [hlen', hlen]
  · rw [hset, if_pos rfl]

lemma length_allocate (pageSize : Nat) (pages : Pages) : (allocate pageSize pages).2.length = pages.length + 1 := by
  simp [allocate]

lemma headerOffset_le (num : Nat) : headerOffset num ≤ 100 := by
  unfold headerOffset
  split <;> omega

/-! ## Levels -/

/-- The pages of a level and the subtrees below them. -/
structure LevelOk (options : BuildOptions) (pages : Pages) (height : Nat) (level : List BuildPage)
    (nodes : List Subtree) (rows : List Row) : Prop where
  numbers : level.map BuildPage.number = nodes.map Subtree.number
  reads : ∀ node ∈ nodes, Reads options pages height node
  apart : Apart nodes
  rows : nodes.flatMap Subtree.rows = rows

lemma LevelOk.cons {node : Subtree} (h : LevelOk opts pages height level nodes rows)
    (page : BuildPage) (hnum : page.number = node.number)
    (hread : Reads opts pages height node) (hapt : ∀ n ∈ node.shown, n ∉ footprint nodes) :
    LevelOk opts pages height (page :: level) (node :: nodes) (node.rows ++ rows) where
  numbers := by rw [map_cons, map_cons, hnum, h.numbers]
  reads := by
    rintro other (_ | ⟨_, hoth⟩)
    · exact hread
    · exact h.reads other hoth
  apart := pairwise_cons.mpr
    ⟨fun other hoth n hn hn' => hapt n hn ⟨other, hoth, hn'⟩, h.apart⟩
  rows := by rw [flatMap_cons, h.rows]

lemma notMem_footprint_nil (n : Nat) : n ∉ footprint [] := by
  rintro ⟨node, hnode, -⟩
  simp at hnode

/-- A leaf with one row reads back. -/
lemma tableLeaf_reads (hopt : OptionsOk opts) {row : Row} {pages pages1 pages' : Pages}
    {cell : Bytes} (hcell : tableLeafCell opts row pages = .ok (cell, pages1))
    (hwrite : writeBtreePage num (headerOffset num) 0x0d 0 [cell] pages1 = .ok pages')
    (hrow : row.Readable opts) (hnum : 1 ≤ num) (hle : num ≤ pages.length)
    (hsized : Sized opts.pageSize pages) :
    Grows opts.pageSize {num} pages pages' ∧ (pages'.length < 2 ^ 32 → ∀ height, Reads opts pages' height
        ⟨num, [row.readBack], insert num (Set.Ioc pages.length pages'.length)⟩) := by
  obtain ⟨hgrow, hok⟩ := tableLeafCell_ok hcell hopt hrow (by omega) hsized
  have hlen := hgrow.le
  obtain ⟨hkeep, hlength, hpage⟩ := writeBtreePage_wrote hwrite hopt hnum (headerOffset_le num)
    (hgrow.sized hsized)
  refine ⟨hgrow.trans hkeep (by simp) (fun n hn _ => hn), fun hmax height => ?_⟩
  have hok := hok (by omega)
  obtain ⟨p, hp, hplen, his⟩ := hpage (by omega) (by simpa using hok.nonempty)
  refine reads_leaf true hopt (by omega) hp hplen his (.cons (hok.mono ?_ ?_) .nil)
  · rintro n ⟨h1, h2⟩
    exact ⟨h1, by omega⟩
  · rintro n ⟨h1, h2⟩
    refine hkeep.keep n (by omega) ?_
    rintro rfl
    omega

/-- The leaves read back. -/
lemma buildLeaves_ok (hopt : OptionsOk opts) (h : buildLeaves opts rows pages = .ok (level, pages'))
    (hrows : ∀ row ∈ rows, row.Readable opts) (hsized : Sized opts.pageSize pages)
    (hpages : 1 ≤ pages.length) : Grows opts.pageSize ∅ pages pages' ∧ level.length = rows.length ∧
      (pages'.length < 2 ^ 32 → ∀ height, ∃ nodes, LevelOk opts pages' height level nodes (rows.map Row.readBack) ∧
          ∀ n ∈ footprint nodes, pages.length < n ∧ n ≤ pages'.length) := by
  induction rows generalizing pages level with
  | nil =>
    obtain ⟨rfl, rfl⟩ := Checked.ok_pair h
    exact ⟨Grows.refl _ _ _, rfl, fun _ height => ⟨[], ⟨rfl, by simp, List.Pairwise.nil, rfl⟩,
      fun n hn => absurd hn (notMem_footprint_nil n)⟩⟩
  | cons row rows ih =>
  unfold buildLeaves at h
  dsimp only at h
  split at h
  · simp at h
  next cell pages1 hcell =>
  split at h
  · simp at h
  next pages2 hwrite =>
  split at h
  · simp at h
  next rest pages3 hrest =>
  obtain ⟨rfl, rfl⟩ := Checked.ok_pair h
  have hnew := grows_allocate opts.pageSize ∅ pages
  have hlen := length_allocate opts.pageSize pages
  have hheader : headerOffset (pages.length + 1) = 0 := if_neg (by omega)
  obtain ⟨hleaf, hreads⟩ := tableLeaf_reads hopt hcell
    (show writeBtreePage (pages.length + 1) _ _ _ _ _ = _ by rw [hheader]; exact hwrite)
    (hrows row mem_cons_self) (by omega) (by omega) (hnew.sized hsized)
  have hleafLe := hleaf.le
  obtain ⟨hgrow, hcount, hnodes⟩ := ih hrest (fun r hr => hrows r (mem_cons_of_mem _ hr))
    (hleaf.sized (hnew.sized hsized)) (by omega)
  have hrestLe := hgrow.le
  refine ⟨hleaf.fresh.trans hgrow (by simp) (by simp), by simp [hcount], fun hmax height => ?_⟩
  obtain ⟨nodes, hok, hfresh⟩ := hnodes hmax height
  have hfirst := hreads (by omega) height
  generalize hnode : (⟨pages.length + 1, [row.readBack], _⟩ : Subtree) = node at hfirst
  have hshown : ∀ n ∈ node.shown, pages.length < n ∧ n ≤ pages2.length := by
    rw [← hnode]
    rintro n (rfl | ⟨h1, h2⟩)
    · exact ⟨by omega, by omega⟩
    · exact ⟨by omega, by omega⟩
  have hkept := hfirst.mono le_rfl fun n hn => hgrow.keep n (hshown n hn).2 (by simp)
  refine ⟨node :: nodes, ?_, ?_⟩
  · have hcons := hok.cons ⟨pages.length + 1, row.rowID.getD 0⟩ (by rw [← hnode]) hkept
      fun n hn hn' => by
        have := (hfresh n hn').1
        have := (hshown n hn).2
        omega
    rw [← hnode] at hcons ⊢
    exact hcons
  intro n hn
  rw [footprint_cons] at hn
  rcases hn with hn | hn
  · have := hshown n hn
    omega
  · have := hfresh n hn
    omega

/-! ## Interior pages -/

/-- An interior page reads back over its children. -/
lemma writeTableInterior_ok (hopt : OptionsOk opts)
    (h : writeTableInterior num (headerOffset num) level pages = .ok pages')
    (hnum : 1 ≤ num) (hsized : Sized opts.pageSize pages) :
    Grows opts.pageSize {num} pages pages' ∧ pages'.length = pages.length ∧ 2 ≤ level.length ∧
      (pages.length < 2 ^ 32 → ∀ height nodes rows, LevelOk opts pages height level nodes rows →
        num ∉ footprint nodes → (∀ n ∈ footprint nodes, n ≤ pages.length) →
        Reads opts pages' (height + 1) ⟨num, rows, insert num (footprint nodes)⟩) := by
  unfold writeTableInterior at h
  split at h
  · simp at h
  next last hlast =>
  split at h
  · simp at h
  next htwo =>
  obtain ⟨hgrow, hlength, hpage⟩ := writeBtreePage_wrote h hopt hnum (headerOffset_le num) hsized
  refine ⟨hgrow, hlength, by omega, fun hmax height nodes rows hok hfresh hold => ?_⟩
  obtain ⟨before, rfl⟩ := getLast?_eq_some_iff.mp hlast
  have hnums := hok.numbers
  have hne : nodes ≠ [] := by
    rintro rfl
    simp at hnums
  obtain ⟨front, lastNode, rfl⟩ : ∃ front lastNode, nodes = front ++ [lastNode] :=
    ⟨_, _, (dropLast_append_getLast hne).symm⟩
  simp only [map_append, map_cons, map_nil] at hnums
  obtain ⟨hfront, hlastNum⟩ := append_inj' hnums rfl
  simp only [cons.injEq, and_true] at hlastNum
  have hlt := (hok.reads lastNode (by simp)).number_lt
  rw [dropLast_concat, hlastNum] at hpage
  obtain ⟨p, hp, hplen, his⟩ := hpage hlt (by
    intro cell hcell
    obtain ⟨child, -, rfl⟩ := mem_map.mp hcell
    simp [BigEndian.put])
  have hle := pageAt_le hp
  rw [← hok.rows]
  refine reads_tableInterior hopt (by omega) hp hplen his ?_ ?_ ?_ hok.apart hfresh
  · rw [length_map]
    simpa using congrArg length hfront
  · intro k node hk
    have hat := congrArg (fun l => l[k]?) hfront
    simp only [getElem?_map, hk, Option.map_some, Option.map_eq_some_iff] at hat
    obtain ⟨child, hkid, hsame⟩ := hat
    refine ⟨encodeVarint child.last.toUInt64.toNat, ?_⟩
    rw [getElem?_map, hkid, Option.map_some, hsame]
  · intro node hnode
    refine (hok.reads node hnode).mono le_rfl fun n hn => ?_
    refine hgrow.keep n (hold n ⟨node, hnode, hn⟩) ?_
    rintro rfl
    exact hfresh ⟨node, hnode, hn⟩

lemma LevelOk.nil (h : LevelOk opts pages height [] nodes rows) : LevelOk opts pages' height' [] [] rows := by
  obtain rfl : nodes = [] := by simpa using h.numbers.symm
  exact ⟨rfl, by simp, List.Pairwise.nil, h.rows⟩

section

variable (h : LevelOk opts pages height level nodes rows)

include h

lemma LevelOk.keep (hkeep : ∀ n ∈ footprint nodes, pageAt pages' n = pageAt pages n) :
    LevelOk opts pages' height level nodes rows :=
  ⟨h.numbers, fun node hnode => (h.reads node hnode).mono le_rfl fun n hn =>
    hkeep n ⟨node, hnode, hn⟩, h.apart, h.rows⟩

lemma LevelOk.higher (hle : height ≤ height') : LevelOk opts pages height' level nodes rows :=
  ⟨h.numbers, fun node hnode => (h.reads node hnode).mono hle fun _ _ => rfl, h.apart, h.rows⟩

lemma LevelOk.take (k : Nat) : LevelOk opts pages height (level.take k) (nodes.take k)
      ((nodes.take k).flatMap Subtree.rows) where
  numbers := by rw [map_take, map_take, h.numbers]
  reads node hnode := h.reads node (mem_of_mem_take hnode)
  apart := h.apart.sublist (take_sublist _ _)
  rows := rfl

lemma LevelOk.drop (k : Nat) : LevelOk opts pages height (level.drop k) (nodes.drop k)
      ((nodes.drop k).flatMap Subtree.rows) where
  numbers := by rw [map_drop, map_drop, h.numbers]
  reads node hnode := h.reads node (mem_of_mem_drop hnode)
  apart := h.apart.sublist (drop_sublist _ _)
  rows := rfl

end

lemma groupCount_pos {remaining : Nat} (h : 0 < remaining) : 0 < groupCount remaining := by
  unfold groupCount
  split
  · omega
  · split <;> omega

lemma mem_footprint_of_subset {nodes nodes' : List Subtree} (h : nodes ⊆ nodes') :
    ∀ n ∈ footprint nodes, n ∈ footprint nodes' := by
  rintro n ⟨node, hnode, hshown⟩
  exact ⟨node, h hnode, hshown⟩

/-- A pass over a level: every page of the next one is above two or more. -/
lemma buildLevel_ok (hopt : OptionsOk opts) {level next : List BuildPage}
    (h : buildLevel opts turns level pages = .ok (next, pages')) (hturns : level.length ≤ turns)
    (hsized : Sized opts.pageSize pages) (hpages : 1 ≤ pages.length) :
    Grows opts.pageSize ∅ pages pages' ∧ 2 * next.length ≤ level.length ∧
      (pages'.length < 2 ^ 32 → ∀ height nodes rows, LevelOk opts pages height level nodes rows →
        (∀ n ∈ footprint nodes, n ≤ pages.length) → ∃ nodes', LevelOk opts pages' (height + 1) next nodes' rows ∧
          ∀ n ∈ footprint nodes', n ∈ footprint nodes ∨ pages.length < n ∧ n ≤ pages'.length) := by
  induction turns generalizing level next pages with
  | zero =>
    obtain rfl : level = [] := length_eq_zero_iff.mp (by omega)
    obtain ⟨rfl, rfl⟩ := Checked.ok_pair h
    exact ⟨Grows.refl _ _ _, le_rfl, fun _ height nodes rows hok _ =>
      ⟨[], hok.nil, fun n hn => absurd hn (notMem_footprint_nil n)⟩⟩
  | succ turns ih =>
  unfold buildLevel at h
  split at h
  next hnil =>
    subst hnil
    obtain ⟨rfl, rfl⟩ := Checked.ok_pair h
    exact ⟨Grows.refl _ _ _, le_rfl, fun _ height nodes rows hok _ =>
      ⟨[], hok.nil, fun n hn => absurd hn (notMem_footprint_nil n)⟩⟩
  next hnil =>
  dsimp only at h
  split at h
  · simp at h
  next pages1 hwrite =>
  split at h
  · simp at h
  next rest pages2 hrest =>
  obtain ⟨rfl, rfl⟩ := Checked.ok_pair h
  have hpos := groupCount_pos (length_pos_of_ne_nil hnil)
  generalize groupCount level.length = count at *
  have hnew := grows_allocate opts.pageSize ∅ pages
  have hlen := length_allocate opts.pageSize pages
  have hheader : headerOffset (pages.length + 1) = 0 := if_neg (by omega)
  obtain ⟨hinterior, hlength, htwo, hreads⟩ := writeTableInterior_ok hopt
    (show writeTableInterior (pages.length + 1) _ _ _ = _ by rw [hheader]; exact hwrite)
    (by omega) (hnew.sized hsized)
  have hfirst := hinterior.fresh
  obtain ⟨hgrow, hcount, hnodes⟩ := ih hrest (by rw [length_drop]; omega)
    (hfirst.sized hsized) (by omega)
  have hrestLe := hgrow.le
  rw [length_take] at htwo
  rw [length_drop] at hcount
  refine ⟨hfirst.trans hgrow (by simp) (by simp), by rw [length_cons]; omega, ?_⟩
  intro hmax height nodes rows hok hold
  have hgroup := mem_footprint_of_subset (take_subset count nodes)
  have hoths := mem_footprint_of_subset (drop_subset count nodes)
  obtain ⟨nodes', hok', hfresh⟩ := hnodes hmax height _ _
    ((hok.drop count).keep fun n hn => hfirst.keep n (hold n (hoths n hn)) (by simp))
    fun n hn => by have := hold n (hoths n hn); omega
  have hread := hreads (by omega) height (nodes.take count) _
    ((hok.take count).keep fun n hn => hnew.keep n (hold n (hgroup n hn)) (by simp))
    (fun hn => by have := hold _ (hgroup _ hn); omega)
    fun n hn => by have := hold n (hgroup n hn); omega
  -- the new page and the pages below it
  have hshown : ∀ n ∈ insert (pages.length + 1) (footprint (nodes.take count)),
      n = pages.length + 1 ∨ n ∈ footprint (nodes.take count) ∧ n ≤ pages.length := by
    rintro n (rfl | hn)
    · exact .inl rfl
    · exact .inr ⟨hn, hold n (hgroup n hn)⟩
  have hapt : ∀ n ∈ footprint (nodes.take count), n ∉ footprint (nodes.drop count) := by
    rintro n ⟨a, ha, hna⟩ ⟨b, hb, hnb⟩
    have hboth := hok.apart
    rw [← take_append_drop count nodes] at hboth
    exact (pairwise_append.mp hboth).2.2 a ha b hb n hna hnb
  have hkept := hread.mono le_rfl fun n hn => hgrow.keep n
    (by rcases hshown n hn with rfl | ⟨-, hle⟩ <;> omega) (by simp)
  have hcons := hok'.cons
    ⟨pages.length + 1, ((level.take count).getLast?.map BuildPage.last).getD 0⟩ rfl hkept fun n hn hn' => by
    rcases hfresh n hn' with hin | hin
    · rcases hshown n hn with rfl | ⟨hgroup', -⟩
      · have := hold _ (hoths _ hin)
        omega
      · exact hapt n hgroup' hin
    · rcases hshown n hn with rfl | ⟨-, hle⟩
      · omega
      · omega
  rw [← flatMap_append, take_append_drop, hok.rows] at hcons
  refine ⟨_, hcons, ?_⟩
  intro n hn
  rw [footprint_cons] at hn
  rcases hn with hn | hn
  · rcases hshown n hn with rfl | ⟨hin, -⟩
    · exact .inr ⟨by omega, by omega⟩
    · exact .inl (hgroup n hin)
  · rcases hfresh n hn with hin | hin
    · exact .inl (hoths n hin)
    · exact .inr ⟨by omega, hin.2⟩

/-- The passes: with at most `2 ^ k` pages below, `k` levels are enough. -/
lemma buildLevels_ok (hopt : OptionsOk opts) {level top : List BuildPage}
    (h : buildLevels opts turns level pages = .ok (top, pages'))
    (hsized : Sized opts.pageSize pages) (hpages : 1 ≤ pages.length) : Grows opts.pageSize ∅ pages pages' ∧
      (pages'.length < 2 ^ 32 → ∀ k height nodes rows, level.length ≤ 2 ^ k →
        LevelOk opts pages height level nodes rows → (∀ n ∈ footprint nodes, n ≤ pages.length) →
        ∃ nodes', LevelOk opts pages' (height + k) top nodes' rows ∧
          ∀ n ∈ footprint nodes', n ∈ footprint nodes ∨ pages.length < n ∧ n ≤ pages'.length) := by
  induction turns generalizing level pages with
  | zero =>
    obtain ⟨rfl, rfl⟩ := Checked.ok_pair h
    exact ⟨Grows.refl _ _ _, fun _ k height nodes rows _ hok _ => ⟨nodes, hok.higher (by omega), fun n hn => .inl hn⟩⟩
  | succ turns ih =>
  unfold buildLevels at h
  split at h
  next hmany =>
    split at h
    · simp at h
    next next pages1 hlevel =>
    obtain ⟨hfirst, hhalf, hnext⟩ := buildLevel_ok hopt hlevel le_rfl hsized hpages
    have hfirstLe := hfirst.le
    obtain ⟨hgrow, hrest⟩ := ih h (hfirst.sized hsized) (by omega)
    have hrestLe := hgrow.le
    refine ⟨hfirst.trans hgrow (by simp) (by simp), ?_⟩
    intro hmax k height nodes rows hk hok hold
    obtain ⟨k, rfl⟩ : ∃ j, k = j + 1 := by
      cases k with
      | zero => omega
      | succ j => exact ⟨j, rfl⟩
    obtain ⟨nodes1, hok1, hfresh1⟩ := hnext (by omega) height nodes rows hok hold
    obtain ⟨nodes', hok', hfresh'⟩ := hrest hmax k (height + 1) nodes1 rows
      (by rw [Nat.pow_succ] at hk; omega) hok1 fun n hn => by
        rcases hfresh1 n hn with hin | hin
        · have := hold n hin
          omega
        · omega
    refine ⟨nodes', hok'.higher (by omega), fun n hn => ?_⟩
    rcases hfresh' n hn with hin | hin
    · rcases hfresh1 n hin with hin | hin
      · exact .inl hin
      · exact .inr ⟨hin.1, by omega⟩
    · exact .inr ⟨by omega, hin.2⟩
  next =>
  obtain ⟨rfl, rfl⟩ := Checked.ok_pair h
  exact ⟨Grows.refl _ _ _, fun _ k height nodes rows _ hok _ => ⟨nodes, hok.higher (by omega), fun n hn => .inl hn⟩⟩

/-! ## The whole tree -/

/-- What building a tree promises: it touches its root page and new pages, and is
read back from them. -/
structure BuiltTree (options : BuildOptions) (root : Nat) (rows : List Row)
    (pages pages' : Pages) : Prop where
  grows : Grows options.pageSize {root} pages pages'
  reads : pages'.length < 2 ^ 32 → rows.length ≤ 2 ^ 20 → ∃ shown,
    Reads options pages' 100 ⟨root, rows.map Row.readBack, shown⟩ ∧
      ∀ n ∈ shown, n = root ∨ pages.length < n ∧ n ≤ pages'.length

/-- A table reads back. -/
lemma buildTable_ok (hopt : OptionsOk opts) {root : Nat} {schema : Bool}
    (h : buildTable opts root rows schema pages = .ok pages')
    (hschema : schema = true ↔ root = 1) (hrows : ∀ row ∈ rows, row.Readable opts)
    (hroot : 1 ≤ root) (hle : root ≤ pages.length) (hsized : Sized opts.pageSize pages) :
    BuiltTree opts root rows pages pages' := by
  have hheader : (if schema then 100 else 0) = headerOffset root := by
    unfold headerOffset
    by_cases hs : schema = true
    · rw [if_pos hs, if_pos (hschema.mp hs)]
    · rw [if_neg hs, if_neg fun hr => hs (hschema.mpr hr)]
  unfold buildTable at h
  split at h
  · simp at h
  rw [hheader] at h
  split at h
  · obtain ⟨hgrow, hlength, hpage⟩ := writeBtreePage_wrote h hopt hroot (headerOffset_le root) hsized
    refine ⟨hgrow, fun hmax _ => ⟨insert root ∅, ?_, ?_⟩⟩
    · obtain ⟨p, hp, hplen, his⟩ := hpage (by omega) (by simp)
      exact reads_leaf true hopt (by omega) hp hplen his .nil
    · rintro n (rfl | hn)
      · exact .inl rfl
      · exact absurd hn (Set.notMem_empty n)
  next row _ =>
    split at h
    · simp at h
    next cell pages1 hcell =>
    obtain ⟨hgrow, hreads⟩ := tableLeaf_reads hopt hcell h (hrows row (by simp)) hroot hle hsized
    refine ⟨hgrow, fun hmax _ => ⟨_, hreads hmax 100, ?_⟩⟩
    rintro n (rfl | hn)
    · exact .inl rfl
    · exact .inr hn
  next rows _ _ =>
  split at h
  · simp at h
  next level pages1 hleaves =>
  split at h
  · simp at h
  next top pages2 hlevels =>
  obtain ⟨hgrow1, hcount, hok1⟩ := buildLeaves_ok hopt hleaves hrows hsized (by omega)
  have hle1 := hgrow1.le
  have hsized1 := hgrow1.sized hsized
  obtain ⟨hgrow2, hok2⟩ := buildLevels_ok hopt hlevels hsized1 (by omega)
  have hle2 := hgrow2.le
  obtain ⟨hgrow3, hlength, -, hreads⟩ := writeTableInterior_ok hopt h hroot (hgrow2.sized hsized1)
  have hgrow : Grows opts.pageSize {root} pages pages2 := hgrow1.trans hgrow2 (by simp) (by simp)
  refine ⟨hgrow.trans hgrow3 (fun n hn _ => hn) (fun n hn _ => hn), fun hmax hsmall => ?_⟩
  obtain ⟨leaves, hleavesOk, hfrs1⟩ := hok1 (by omega) 0
  obtain ⟨nodes, htop, hfrs2⟩ := hok2 (by omega) 20 0 leaves _ (by omega) hleavesOk
    fun n hn => (hfrs1 n hn).2
  have hnew : ∀ n ∈ footprint nodes, pages.length < n ∧ n ≤ pages2.length := by
    intro n hn
    rcases hfrs2 n hn with hin | hin
    · have := hfrs1 n hin
      omega
    · omega
  have hread := hreads (by omega) _ nodes _ htop
    (fun hn => by have := hnew root hn; omega) fun n hn => (hnew n hn).2
  refine ⟨_, hread.mono (by omega) fun _ _ => rfl, ?_⟩
  rintro n (rfl | hn)
  · exact .inl rfl
  · have := hnew n hn
    exact .inr ⟨this.1, by omega⟩

end Trex.Sqlite
