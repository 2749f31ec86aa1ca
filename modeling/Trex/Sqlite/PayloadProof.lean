import Trex.Sqlite.PageProof

/-!
# Payloads and their overflow chains

The pages of the builder grow (`Grows`).  A payload that does not fit in its cell goes to a chain of new
pages (`Chain`), and a reader gets it back (`cellPayload_payloadCell`).
-/

namespace Trex.Sqlite

open List BigEndian

open Slice

/-! ## Growing the database -/

/-- The page with a number. -/
def pageAt (pages : Pages) (n : Nat) : Option Page := if n = 0 then none else pages[n - 1]?

/-- All pages have the size of a page. -/
def Sized (pageSize : Nat) (pages : Pages) : Prop := ∀ p ∈ pages, p.length = pageSize

variable {pageSize n usable lo hi next : Nat} {pages pages' : Pages} {p : Page} {data : Bytes}
  {d : Database} {shown : Set Nat}

lemma Sized.pageAt (h : Sized pageSize pages) (hp : pageAt pages n = some p) : p.length = pageSize := by
  unfold Sqlite.pageAt at hp
  split at hp
  · simp at hp
  · exact h p (mem_of_getElem? hp)

lemma pageAt_eq_some_of_le (pages : Pages) (h1 : 1 ≤ n) (h2 : n ≤ pages.length) : ∃ p, pageAt pages n = some p := by
  unfold pageAt
  rw [if_neg (by omega)]
  exact ⟨_, getElem?_eq_getElem (by omega)⟩

lemma pageAt_le (h : pageAt pages n = some p) : 1 ≤ n ∧ n ≤ pages.length := by
  unfold pageAt at h
  split at h
  · simp at h
  · have := (List.getElem?_eq_some_iff.mp h).1
    omega

/-- From `pages` to `pages'` only new pages and those in `touched` change. -/
structure Grows (pageSize : Nat) (touched : Set Nat) (pages pages' : Pages) : Prop where
  le : pages.length ≤ pages'.length
  keep : ∀ n, n ≤ pages.length → n ∉ touched → pageAt pages' n = pageAt pages n
  sized : Sized pageSize pages → Sized pageSize pages'

lemma Grows.refl (pageSize : Nat) (touched : Set Nat) (pages : Pages) : Grows pageSize touched pages pages :=
  ⟨le_rfl, fun _ _ _ => rfl, id⟩

/-- What the second operation touches beyond `touched` is new since the first. -/
lemma Grows.trans {touched first second : Set Nat} {pages pages' pages'' : Pages}
    (h : Grows pageSize first pages pages') (h' : Grows pageSize second pages' pages'')
    (hfirst : ∀ n ∈ first, n ≤ pages.length → n ∈ touched)
    (hsecond : ∀ n ∈ second, n ≤ pages.length → n ∈ touched) : Grows pageSize touched pages pages'' where
  le := le_trans h.le h'.le
  keep n hn hout := by
    have hle := h.le
    rw [h'.keep n (by omega) fun hin => hout (hsecond n hin hn), h.keep n hn fun hin => hout (hfirst n hin hn)]
  sized hsized := h'.sized (h.sized hsized)

lemma Grows.mono {touched touched' : Set Nat} (h : Grows pageSize touched pages pages')
    (hsub : ∀ n ∈ touched, n ≤ pages.length → n ∈ touched') : Grows pageSize touched' pages pages' :=
  ⟨h.le, fun n hn hout => h.keep n hn fun hin => hout (hsub n hin hn), h.sized⟩

lemma pageAt_append (pages : Pages) (p : Page) (n : Nat) :
    pageAt (pages ++ [p]) n = if n = pages.length + 1 then some p else pageAt pages n := by
  unfold pageAt
  split
  · rw [if_neg (by omega)]
  rw [getElem?_append]
  by_cases hn : n = pages.length + 1
  · rw [if_pos hn, if_neg (by omega), hn]
    simp
  · rw [if_neg hn]
    split
    · rfl
    · rw [getElem?_eq_none (by simp; omega), getElem?_eq_none (by omega)]

lemma pageAt_modifyPage (pages : Pages) (m : Nat) (hm : 1 ≤ m) (f : Page → Page) (n : Nat) :
    pageAt (modifyPage m f pages) n = if n = m then (pageAt pages n).map f else pageAt pages n := by
  unfold pageAt modifyPage
  by_cases hn : n = 0
  · rw [if_pos hn, if_neg (by omega)]
    simp [hn]
  · rw [if_neg hn, if_neg hn, getElem?_modify]
    by_cases hnm : n = m
    · simp [hnm]
    · simp [hnm, show ¬ m - 1 = n - 1 by omega]

lemma length_modifyPage (m : Nat) (f : Page → Page) (pages : Pages) :
    (modifyPage m f pages).length = pages.length := by
  simp [modifyPage]

lemma sized_modifyPage (m : Nat) (f : Page → Page)
    (hf : ∀ p : Page, p.length = pageSize → (f p).length = pageSize) (h : Sized pageSize pages) :
    Sized pageSize (modifyPage m f pages) := by
  intro p hp
  obtain ⟨i, hi⟩ := mem_iff_getElem?.mp hp
  rw [modifyPage, getElem?_modify] at hi
  obtain ⟨q, hq, hpq⟩ := Option.map_eq_some_iff.mp hi
  have hlen := h q (mem_of_getElem? hq)
  subst hpq
  split
  · exact hf q hlen
  · exact hlen

lemma grows_allocate (pageSize : Nat) (touched : Set Nat) (pages : Pages) :
    Grows pageSize touched pages (allocate pageSize pages).2 where
  le := by simp [allocate]
  keep n hn _ := by
    unfold allocate
    rw [pageAt_append, if_neg (by omega)]
  sized h p hp := by
    rcases mem_append.mp hp with hp | hp
    · exact h p hp
    · rw [mem_singleton.mp hp, length_replicate]

/-- What is written to a new page changes none of the old ones. -/
lemma Grows.fresh {pageSize : Nat} {pages pages' : Pages}
    (h : Grows pageSize {pages.length + 1} (allocate pageSize pages).2 pages') : Grows pageSize ∅ pages pages' := by
  refine (grows_allocate pageSize ∅ pages).trans h (by simp) ?_
  rintro n rfl hn
  omega

/-! ## Overflow chains -/

/-- The pages from `next` on spell `data`; their numbers grow and lie in `(lo, hi]`. -/
inductive Chain (pages : Pages) (usable lo hi : Nat) : Nat → Bytes → Prop where
  | nil (next : Nat) : Chain pages usable lo hi next []
  | cons {next : Nat} {page : Page} {data : Bytes} :
      data ≠ [] → lo < next → next ≤ hi → pageAt pages next = some page →
      slice page 4 (data.take (usable - 4)).length = data.take (usable - 4) →
      (data.drop (usable - 4) ≠ [] → next < getUint32 page 0) →
      Chain pages usable lo hi (getUint32 page 0) (data.drop (usable - 4)) →
      Chain pages usable lo hi next data

lemma Chain.bounds (h : Chain pages usable lo hi next data) (hne : data ≠ []) : lo < next ∧ next ≤ hi := by
  induction h with
  | nil => exact absurd rfl hne
  | cons _ hlow hhigh => exact ⟨hlow, hhigh⟩

/-- A chain stays as long as its pages do. -/
lemma Chain.mono {usable lo hi lo' hi' next : Nat} (h : Chain pages usable lo hi next data)
    (hlo : lo' ≤ lo) (hhi : hi ≤ hi') (hsame : ∀ n, lo < n → n ≤ hi → pageAt pages' n = pageAt pages n) :
    Chain pages' usable lo' hi' next data := by
  induction h with
  | nil next => exact .nil next
  | cons hne hlow hhigh hpage hchunk hgrow _ ih =>
    exact .cons hne (by omega) (by omega) (by rw [hsame _ hlow hhigh]; exact hpage) hchunk hgrow ih

def linked (remaining : Bytes) (number : Nat) (page : Page) : Page :=
  if remaining = [] then page else overwrite page 0 (BigEndian.put 4 number)

lemma linked_nil (num : Nat) (page : Page) : linked [] num page = page := rfl

lemma slice_linked (rem : Bytes) (num : Nat) (page : Page) (n : Nat) :
    slice (linked rem num page) 4 n = slice page 4 n := by
  unfold linked
  split
  · rfl
  · exact slice_overwrite_disjoint _ _ _ _ _ (Nat.zero_le _) (by simp)

lemma getUint32_linked (rem : Bytes) (number : Nat) (page : Page) (h : rem ≠ [])
    (hnum : number < 2 ^ 32) (hpage : 4 ≤ page.length) : getUint32 (linked rem number page) 0 = number := by
  apply getUint32_of_slice hnum
  unfold linked
  rw [if_neg h]
  have := slice_overwrite_self page 0 (put 4 number) (by simp; omega)
  rwa [length_put] at this

def chunkAdded (usable previous : Nat) (remaining : Bytes) (pages : Pages) : Pages :=
  modifyPage (pages.length + 1) (fun page => overwrite page 4 (remaining.take (usable - 4)))
    (if previous ≠ 0 then
      modifyPage previous (fun page => overwrite page 0 (BigEndian.put 4 (pages.length + 1)))
        (allocate usable pages).2
    else (allocate usable pages).2)

section

variable {usable prev : Nat} {rem : Bytes} {pages : Pages}

lemma length_chunkAdded (usable prev : Nat) (rem : Bytes) (pages : Pages) :
    (chunkAdded usable prev rem pages).length = pages.length + 1 := by
  unfold chunkAdded
  rw [length_modifyPage]
  split
  · rw [length_modifyPage]
    simp [allocate]
  · simp [allocate]

lemma pageAt_chunkAdded_new (hprev : prev ≤ pages.length) :
    pageAt (chunkAdded usable prev rem pages) (pages.length + 1) =
      some (overwrite (replicate usable 0) 4 (rem.take (usable - 4))) := by
  unfold chunkAdded
  rw [pageAt_modifyPage _ _ (by omega), if_pos rfl]
  have hnew : pageAt (allocate usable pages).2 (pages.length + 1) = some (replicate usable 0) := by
    rw [allocate, pageAt_append, if_pos rfl]
  split
  · rw [pageAt_modifyPage _ _ (by omega), if_neg (by omega), hnew]
    rfl
  · rw [hnew]
    rfl

lemma pageAt_chunkAdded_old {n : Nat} (hn : n ≤ pages.length) :
    pageAt (chunkAdded usable prev rem pages) n = if n = prev then
        (pageAt pages n).map fun page => overwrite page 0 (put 4 (pages.length + 1)) else pageAt pages n := by
  unfold chunkAdded
  have hold : pageAt (allocate usable pages).2 n = pageAt pages n :=
    (grows_allocate usable ∅ pages).keep n hn (by simp)
  rw [pageAt_modifyPage _ _ (by omega), if_neg (by omega)]
  split
  · rw [pageAt_modifyPage _ _ (by omega), hold]
  next hzero =>
    rw [hold]
    split
    next heq =>
      have hnone : pageAt pages n = none := by
        unfold pageAt
        rw [if_pos (by omega)]
      rw [hnone]
      rfl
    · rfl

lemma sized_chunkAdded (husb : 4 < usable) (h : Sized usable pages) :
    Sized usable (chunkAdded usable prev rem pages) := by
  have hnew := (grows_allocate usable ∅ pages).sized h
  unfold chunkAdded
  apply sized_modifyPage
  · intro p hp
    rw [length_overwrite _ _ _ (by omega), hp]
  · split
    · apply sized_modifyPage _ _ _ hnew
      intro p hp
      rw [length_overwrite _ _ _ (by omega), hp]
    · exact hnew

end

lemma overflowLoop_succ (usable turns first prev : Nat) (rem : Bytes) (pages : Pages)
    (h : rem ≠ []) : overflowLoop usable (turns + 1) first prev rem pages =
      overflowLoop usable turns (if first = 0 then pages.length + 1 else first) (pages.length + 1)
        (rem.drop (usable - 4)) (chunkAdded usable prev rem pages) := by
  rw [overflowLoop, if_neg h]
  rfl

/-- The chain of overflow pages is there. -/
structure Overflowed (usable first previous : Nat) (remaining : Bytes) (pages : Pages)
    (result : Nat × Pages) : Prop where
  grows : Grows usable {previous} pages result.2
  link : pageAt result.2 previous = (pageAt pages previous).map (linked remaining (pages.length + 1))
  chain : remaining ≠ [] → result.2.length < 2 ^ 32 →
    Chain result.2 usable pages.length result.2.length (pages.length + 1) remaining
  first : result.1 = if first = 0 ∧ remaining ≠ [] then pages.length + 1 else first

/-- The overflow pages are a chain with the rest of the payload. -/
lemma overflowLoop_chain (usable : Nat) (husb : 4 < usable) (turns first prev : Nat)
    (rem : Bytes) (pages : Pages) (hturns : rem.length ≤ turns)
    (hsized : Sized usable pages) (hprev : prev ≤ pages.length) : Overflowed usable first prev rem pages
      (overflowLoop usable turns first prev rem pages) := by
  induction turns generalizing first prev rem pages with
  | zero =>
    obtain rfl : rem = [] := length_eq_zero_iff.mp (by omega)
    refine ⟨Grows.refl _ _ _, ?_, fun h => absurd rfl h, by simp [overflowLoop]⟩
    simp [overflowLoop, funext (linked_nil _)]
  | succ turns ih =>
  by_cases hnil : rem = []
  · subst hnil
    refine ⟨by simp [overflowLoop]; exact Grows.refl _ _ _, ?_, fun h => absurd rfl h, by simp [overflowLoop]⟩
    simp [overflowLoop, funext (linked_nil _)]
  rw [overflowLoop_succ _ _ _ _ _ _ hnil]
  have hlen := length_chunkAdded usable prev rem pages
  have hrest := ih (if first = 0 then pages.length + 1 else first) (pages.length + 1)
    (rem.drop (usable - 4)) (chunkAdded usable prev rem pages)
    (by rw [length_drop]; omega) (sized_chunkAdded husb hsized) (by omega)
  generalize overflowLoop usable turns _ _ _ _ = result at hrest ⊢
  have hgrow : Grows usable {prev} pages (chunkAdded usable prev rem pages) := by
    refine ⟨by omega, fun n hn hout => ?_, sized_chunkAdded husb⟩
    rw [pageAt_chunkAdded_old hn, if_neg fun h => hout (Set.mem_singleton_iff.mpr h)]
  have hle := hrest.grows.le
  constructor
  case grows =>
    refine hgrow.trans hrest.grows (fun n hn _ => hn) fun n hn hle => ?_
    rw [Set.mem_singleton_iff.mp hn] at hle
    omega
  case link =>
    rw [hrest.grows.keep prev (by omega) (by simp; omega), pageAt_chunkAdded_old hprev, if_pos rfl]
    congr 1
    funext page
    unfold linked
    rw [if_neg hnil]
  case chain =>
    intro _ hmax
    have hpage := hrest.link
    rw [pageAt_chunkAdded_new hprev, Option.map_some, hlen] at hpage
    generalize hchunk : overwrite (replicate usable 0) 4 (rem.take (usable - 4)) = chunk at hpage
    have hchunkLen : chunk.length = usable := by
      rw [← hchunk, length_overwrite _ _ _ (by rw [length_replicate]; omega), length_replicate]
    -- where the pointer of the new page leads, if anywhere
    have hnext : rem.drop (usable - 4) ≠ [] →
        getUint32 (linked (rem.drop (usable - 4)) (pages.length + 1 + 1) chunk) 0 = pages.length + 1 + 1 := by
      intro hmore
      have hbound := (hrest.chain hmore hmax).bounds hmore
      exact getUint32_linked _ _ _ hmore (by omega) (by omega)
    refine .cons hnil (by omega) (by omega) hpage ?_ (fun hmore => by rw [hnext hmore]; omega) ?_
    · rw [slice_linked, ← hchunk]
      apply slice_overwrite_self
      rw [length_replicate, length_take]
      omega
    by_cases hmore : rem.drop (usable - 4) = []
    · rw [hmore]
      exact .nil _
    · rw [hnext hmore]
      have hchain := hrest.chain hmore hmax
      rw [hlen] at hchain
      exact hchain.mono (by omega) le_rfl fun _ _ _ => rfl
  case first =>
    rw [hrest.first]
    by_cases hfirst : first = 0
    · simp [hfirst, hnil]
    · simp [hfirst]

/-! ## Reading a payload -/

/-- The database shows the pages in `shown` as they are, page 1 from its b-tree
header on. -/
def Sees (d : Database) (pages : Pages) (shown : Set Nat) : Prop :=
  ∀ n ∈ shown, ∃ p q, pageAt pages n = some p ∧ d.page n = .ok q ∧ q.length = p.length ∧
    ∀ j, (n = 1 → 100 ≤ j) → q[j]? = p[j]?

lemma Sees.mono {shown shown' : Set Nat} (h : Sees d pages' shown') (hsub : ∀ n ∈ shown, n ∈ shown')
    (hsame : ∀ n ∈ shown, pageAt pages' n = pageAt pages n) : Sees d pages shown := by
  intro n hn
  rw [← hsame n hn]
  exact h n (hsub n hn)

lemma Sees.page (h : Sees d pages shown) (hn : n ∈ shown) (hne : n ≠ 1)
    (hp : pageAt pages n = some p) : d.page n = .ok p := by
  obtain ⟨p', q, hp', hq, -, hsame⟩ := h n hn
  rw [hp] at hp'
  cases hp'
  rw [hq, ext_getElem? fun j => hsame j fun h1 => absurd h1 hne]

/-- The database has the options of the build. -/
structure Fits (d : Database) (options : BuildOptions) : Prop where
  usable : d.usable = options.pageSize
  encoding : d.info.encoding = options.encoding

/-- The reader follows the chain. -/
lemma overflowPayload_chain {usable lo hi next size : Nat}
    (h : Chain pages usable lo hi next data) (husb : d.usable = usable) (hfour : 4 < usable)
    (hlo : 1 ≤ lo) (hsees : Sees d pages (Set.Ioc lo hi)) (turns : Nat) (seen : List Nat)
    (out : Bytes) (hturns : data.length ≤ turns) (hsize : out.length + data.length = size)
    (hseen : data ≠ [] → ∀ m ∈ seen, m < next) :
    d.overflowPayload size turns next seen out = .ok (out ++ data) := by
  induction h generalizing turns seen out with
  | nil next =>
    rw [length_nil] at hsize
    rw [append_nil]
    cases turns with
    | zero => rfl
    | succ turns =>
      unfold Database.overflowPayload
      rw [if_neg (by omega)]
  | @cons next page data hne hlow hhigh hpage hchunk hgrow _ ih =>
  have hpos := length_pos_of_ne_nil hne
  obtain ⟨turns, rfl⟩ : ∃ k, turns = k + 1 := ⟨turns - 1, by omega⟩
  have hunseen : ¬ (next = 0 ∨ next ∈ seen) := by
    rintro (rfl | hmem)
    · omega
    · have := hseen hne next hmem
      omega
  have hcount : min (size - out.length) (d.usable - 4) = (data.take (usable - 4)).length := by
    rw [length_take, husb]
    omega
  have hshown : d.page next = .ok page := hsees.page (Set.mem_Ioc.mpr ⟨hlow, hhigh⟩) (by omega) hpage
  have htake : (data.take (usable - 4)).length + (data.drop (usable - 4)).length = data.length := by
    rw [← length_append, take_append_drop]
  have htakePos : 0 < (data.take (usable - 4)).length := by
    rw [length_take]
    omega
  unfold Database.overflowPayload
  rw [if_pos (by omega), if_neg hunseen, hshown]
  dsimp only
  rw [hcount, hchunk, ih turns (next :: seen) (out ++ data.take (usable - 4)) (by omega)
    (by rw [length_append]; omega), append_assoc, take_append_drop]
  intro hmore m hm
  have hnext := hgrow hmore
  rcases mem_cons.mp hm with rfl | hm
  · exact hnext
  · have := hseen hne m hm
    omega

lemma payloadLocal_le (usable size : Nat) (tableLeaf : Bool) (h : 512 ≤ usable) :
    payloadLocal usable size tableLeaf ≤ size := by
  unfold payloadLocal
  have hmod := Nat.mod_le (size - ((usable - 12) * 32 / 255 - 23)) (usable - 4)
  cases tableLeaf
  all_goals
    simp only [Bool.false_eq_true, if_false, if_true]
    split
    · split <;> omega
    · exact le_rfl

lemma cellLocal_eq (d : Database) (size : Nat) (tableLeaf : Bool) :
    d.cellLocal size tableLeaf = payloadLocal d.usable size tableLeaf := rfl

/-- A cell as `payloadCell` makes it: `start`, then what a reader of the new pages
turns back into the payload. -/
structure PayloadOk (options : BuildOptions) (start payload : Bytes) (tableLeaf : Bool)
    (pages : Pages) (result : Bytes × Pages) : Prop where
  grows : Grows options.pageSize ∅ pages result.2
  reads : result.2.length < 2 ^ 32 → ∃ rest, result.1 = start ++ rest ∧
    ∀ (d : Database), Fits d options → Sees d result.2 (Set.Ioc pages.length result.2.length) →
      payload.length ≤ 2 ^ 30 → ∀ (page : Page) (position : Nat),
      position + rest.length ≤ options.pageSize → slice page position rest.length = rest →
      d.cellPayload page position payload.length tableLeaf = .ok payload

/-- A payload reads back, with its overflow pages. -/
lemma cellPayload_payloadCell (opts : BuildOptions) (start pay : Bytes) (tableLeaf : Bool)
    (pages : Pages) (hsize : 512 ≤ opts.pageSize) (hpages : 1 ≤ pages.length)
    (hsized : Sized opts.pageSize pages) : PayloadOk opts start pay tableLeaf pages
      (payloadCell opts.pageSize start pay tableLeaf pages) := by
  have hle := payloadLocal_le opts.pageSize pay.length tableLeaf hsize
  unfold payloadCell
  dsimp only
  generalize hloc : payloadLocal opts.pageSize pay.length tableLeaf = size at hle ⊢
  by_cases hall : size = pay.length
  · rw [if_pos hall]
    refine ⟨Grows.refl _ _ _, fun _ => ⟨pay.take size, rfl, ?_⟩⟩
    intro d hfits _ hlim page pos hend hslice
    rw [hall, take_length] at hend hslice
    unfold Database.cellPayload
    rw [if_neg (by omega)]
    rw [cellLocal_eq, hfits.usable, hloc, hall, if_neg (by omega), if_pos rfl, hslice]
  rw [if_neg hall]
  have hne : pay.drop size ≠ [] := by
    intro hnil
    have := drop_eq_nil_iff.mp hnil
    omega
  have hover := overflowLoop_chain opts.pageSize (by omega) (pay.drop size).length 0 0
    (pay.drop size) pages le_rfl hsized (by omega)
  generalize overflowLoop opts.pageSize _ 0 0 _ pages = chain at hover ⊢
  have hfirst : chain.1 = pages.length + 1 := by rw [hover.first, if_pos ⟨rfl, hne⟩]
  refine ⟨?_, fun hmax => ⟨pay.take size ++ put 4 chain.1, by simp, ?_⟩⟩
  · -- page 0 does not exist
    refine ⟨hover.grows.le, fun n hn _ => ?_, hover.grows.sized⟩
    by_cases hzero : n = 0
    · rw [hzero]
      rfl
    · exact hover.grows.keep n hn hzero
  intro d hfits hsees hlim page pos hend hslice
  replace hmax : chain.2.length < 2 ^ 32 := hmax
  have hchain := hover.chain hne hmax
  have hbounds := hchain.bounds hne
  have htake : (pay.take size).length = size := length_take_of_le hle
  rw [length_append, length_put, htake] at hend
  obtain ⟨hbody, hpointer⟩ := slice_append _ _ _ _ hslice
  rw [htake] at hbody hpointer
  rw [length_put] at hpointer
  have hnext : getUint32 page (pos + size) = pages.length + 1 := by
    rw [← hfirst]
    exact getUint32_of_slice (by omega) hpointer
  unfold Database.cellPayload
  rw [if_neg (by omega)]
  dsimp only
  rw [cellLocal_eq, hfits.usable, hloc, if_neg (by omega), if_neg hall, if_neg (by omega), hnext, hbody]
  rw [overflowPayload_chain hchain hfits.usable (by omega) hpages hsees _ _ _
    (by rw [length_drop]; omega) (by rw [htake, length_drop]; omega)
    (fun _ m hm => by simp at hm), take_append_drop]

end Trex.Sqlite
