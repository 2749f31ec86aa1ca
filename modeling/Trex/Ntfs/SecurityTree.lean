import Trex.Ntfs.Index

/-!
# The trees of `$Secure`

The leaves take as many records as fit, and the record behind a full leaf separates it from
the next one.  When the records end there, the separator has no leaf behind it: the root then
has a child too few, or the level above loses the record.
-/

namespace Trex.Ntfs

open List

/-! ## Search trees -/

mutual

/-- The keys in order. -/
def IndexTree.inorder {α : Type} : IndexTree α → List α
  | .mk keys [] => keys
  | .mk keys (child :: children) => child.inorder ++ behind keys children

def behind {α : Type} : List α → List (IndexTree α) → List α
  | key :: keys, child :: children => key :: (child.inorder ++ behind keys children)
  | _, _ => []

end

/-- Every block fits, the root into `limit` bytes, and a node has a child more than keys. -/
inductive Valid (hashIndex : Bool) : Nat → IndexTree NtfsSecurityRecord → Prop
  | leaf {limit keys} : ntfsSecurityEntriesSize keys hashIndex false ≤ limit → Valid hashIndex limit (.mk keys [])
  | node {limit keys children} : ntfsSecurityEntriesSize keys hashIndex true ≤ limit →
    children.length = keys.length + 1 → (∀ child ∈ children, Valid hashIndex blockCapacity child) →
    Valid hashIndex limit (.mk keys children)

variable {hashIndex : Bool} {used : Nat} {child : IndexTree NtfsSecurityRecord}
  {keys seps all tail : List NtfsSecurityRecord}
  {children kids level : List (IndexTree NtfsSecurityRecord)}

/-- The blocks of a level with the keys between them. -/
structure Level (hashIndex : Bool) (level : List (IndexTree NtfsSecurityRecord))
    (keys all : List NtfsSecurityRecord) : Prop where
  length : level.length = keys.length + 1
  valid : ∀ child ∈ level, Valid hashIndex blockCapacity child
  inorder : (IndexTree.mk keys level).inorder = all

lemma level_singleton (h : Valid hashIndex blockCapacity child) : Level hashIndex [child] [] child.inorder :=
  ⟨rfl, by simpa using h, append_nil _⟩

lemma Level.cons (hkid : Valid hashIndex blockCapacity child) (key : NtfsSecurityRecord)
    (h : Level hashIndex level keys all) :
    Level hashIndex (child :: level) (key :: keys) (child.inorder ++ key :: all) := by
  obtain ⟨hlength, hval, rfl⟩ := h
  refine ⟨congrArg (· + 1) hlength, forall_mem_cons.mpr ⟨hkid, hval⟩, ?_⟩
  cases level with
  | nil => cases hlength
  | cons => rfl

lemma behind_concat (h : children.length = keys.length) (key : NtfsSecurityRecord) :
    behind (keys ++ [key]) (children ++ [child]) = behind keys children ++ key :: child.inorder := by
  induction keys generalizing children with
  | nil => simp [length_eq_zero_iff.mp h, behind]
  | cons _ keys ih =>
  cases children with
  | nil => cases h
  | cons => simp [behind, ih (Nat.succ.inj h)]

/-- A separator and a child at the end of a level. -/
lemma Level.concat (h : Level hashIndex level keys all) (key : NtfsSecurityRecord)
    (hkid : Valid hashIndex blockCapacity child) :
    Level hashIndex (level ++ [child]) (keys ++ [key]) (all ++ key :: child.inorder) := by
  obtain ⟨hlength, hval, rfl⟩ := h
  refine ⟨by simp [hlength], by simpa [or_imp, forall_and] using ⟨hval, hkid⟩, ?_⟩
  cases level with
  | nil => cases hlength
  | cons first => simp [IndexTree.inorder, behind_concat (Nat.succ.inj hlength)]

/-! ## The passes -/

lemma entriesSize_nil (hashIndex : Bool) :
    16 = ntfsSecurityEntriesSize [] hashIndex false ∧ 24 = ntfsSecurityEntriesSize [] hashIndex true := by
  cases hashIndex <;> decide

/-- A pass over a level: the next one shows the same, without the separators behind the last
block. -/
lemma level_parentLoop (tail : List NtfsSecurityRecord) (hlevel : Level hashIndex kids keys all)
    (hused : used = ntfsSecurityEntriesSize keys hashIndex true) (hfit : used ≤ blockCapacity)
    (hlength : children.length = seps.length) (hval : ∀ child ∈ children, Valid hashIndex blockCapacity child) :
    let next := parentLoop (fun _ => ntfsSecurityEntrySize hashIndex true) (seps ++ tail)
      children keys kids used
    Level hashIndex next.1 next.2 (all ++ behind seps children) ∧
      next.2.length ≤ seps.length -
        if used + ntfsSecurityEntrySize hashIndex true ≤ blockCapacity then 1 else 0 := by
  induction seps generalizing children keys kids used all with
  | nil =>
    obtain rfl := length_eq_zero_iff.mp hlength
    have hnode := Valid.node (hused ▸ hfit) hlevel.length hlevel.valid
    cases tail <;> simpa [parentLoop, behind, hlevel.inorder] using level_singleton hnode
  | cons separator seps ih =>
  cases children with
  | nil => cases hlength
  | cons child children =>
  obtain ⟨hkid, hval⟩ := forall_mem_cons.mp hval
  rw [cons_append, parentLoop, behind]
  split
  next hroom =>
    have hkeys : used + ntfsSecurityEntrySize hashIndex true =
        ntfsSecurityEntriesSize (keys ++ [separator]) hashIndex true := by
      simp [hused, ntfsSecurityEntriesSize, Nat.succ_mul, add_assoc]
    have hnext := ih (hlevel.concat separator hkid) hkeys hroom (Nat.succ.inj hlength) hval
    rw [append_assoc, cons_append] at hnext
    exact ⟨hnext.1, hnext.2.trans (Nat.sub_le _ _)⟩
  · have hnext := ih (level_singleton hkid) (entriesSize_nil hashIndex).2 (by decide)
      (Nat.succ.inj hlength) hval
    have hnode := hnext.1.cons (.node (hused ▸ hfit) hlevel.length hlevel.valid) separator
    rw [hlevel.inorder] at hnode
    exact ⟨hnode, Nat.succ_le_succ (hnext.2.trans (Nat.sub_le _ _))⟩

/-- The passes end with separators that fit into the root; the first of them drops `tail`. -/
lemma level_securityRootLoop {turns : Nat} (h : Level hashIndex level seps all)
    (htail : tail.length ≤ 1) (hturns : (seps ++ tail).length < turns) :
    let last := securityRootLoop hashIndex turns level (seps ++ tail)
    ∃ between, Level hashIndex last.1 between all ∧
      ntfsSecurityEntriesSize last.2 hashIndex true ≤ securityRootEntryLimit ∧
      (last.2 = between ∨ last.2 = between ++ tail) := by
  induction turns generalizing level seps tail with
  | zero => omega
  | succ turns ih =>
  rw [securityRootLoop]
  split
  next hlarge =>
    have hmany : 0 < seps.length := by
      simp only [ntfsSecurityEntriesSize, ntfsSecurityEntrySize, securityRootEntryLimit, if_true,
        length_append] at hlarge
      split at hlarge <;> omega
    cases level with
    | nil => cases h.length
    | cons child children =>
    obtain ⟨hkid, hval⟩ := forall_mem_cons.mp h.valid
    obtain ⟨hnext, hless⟩ := level_parentLoop tail (level_singleton hkid)
      (entriesSize_nil hashIndex).2 (by decide) (Nat.succ.inj h.length) hval
    rw [show child.inorder ++ behind seps children = all from h.inorder] at hnext
    rw [if_pos (by cases hashIndex <;> decide)] at hless
    rw [ntfsSecurityParentLevel]
    generalize parentLoop _ _ _ _ _ _ = next at hnext hless ⊢
    obtain ⟨level, promoted⟩ := next
    have hnone : ([] : List NtfsSecurityRecord).length ≤ 1 := Nat.zero_le _
    obtain ⟨between, hlast, hroot, hsame⟩ := ih hnext hnone (by
      simp only [length_append, length_nil] at hturns hless ⊢
      omega)
    rw [append_nil] at hlast hroot hsame
    exact ⟨between, hlast, hroot, .inl (by rwa [append_nil, or_self_iff] at hsame)⟩
  next hsmall => exact ⟨seps, h, not_lt.mp hsmall, .inr rfl⟩

/-! ## The leaves -/

def leafPeriod (hashIndex : Bool) : Nat := if hashIndex then 84 else 100

/-- A leaf fits as long as it has fewer records than a period. -/
lemma entriesSize_le_iff (keys : List NtfsSecurityRecord) :
    ntfsSecurityEntriesSize keys hashIndex false ≤ blockCapacity ↔ keys.length < leafPeriod hashIndex := by
  unfold ntfsSecurityEntriesSize ntfsSecurityEntrySize leafPeriod blockCapacity ntfsIndexSize
  cases hashIndex <;> simp only [Bool.false_eq_true, if_false, if_true] <;> omega

/-- The leaves show the records, but for the last one when their number is a multiple of the
period. -/
lemma level_securityLeafLevel (recs : List NtfsSecurityRecord)
    (hused : used = ntfsSecurityEntriesSize keys hashIndex false) (hfit : used ≤ blockCapacity) :
    let leaves := ntfsSecurityLeafLevel hashIndex recs keys used
    ∃ seps tail all, leaves.2 = seps ++ tail ∧
      Level hashIndex leaves.1 seps all ∧ all ++ tail = keys ++ recs ∧
      (tail.length = if 0 < recs.length ∧ leafPeriod hashIndex ∣ keys.length + recs.length
        then 1 else 0) ∧ leaves.2.length ≤ recs.length := by
  induction recs generalizing keys used with
  | nil => exact ⟨[], [], keys, rfl, level_singleton (.leaf (hused ▸ hfit)), rfl, rfl, le_rfl⟩
  | cons record rest ih =>
  have hkeys := (entriesSize_le_iff keys).mp (hused ▸ hfit)
  have hgrown : used + ntfsSecurityEntrySize hashIndex false =
      ntfsSecurityEntriesSize (keys ++ [record]) hashIndex false := by
    simp [hused, ntfsSecurityEntriesSize, Nat.succ_mul, add_assoc]
  have hroom := @entriesSize_le_iff hashIndex (keys ++ [record])
  rw [← hgrown, length_append, length_singleton] at hroom
  rw [ntfsSecurityLeafLevel]
  split
  next hfits =>
    obtain ⟨seps, tail, all, hseps, hlevel, hall, htail, hfew⟩ := ih hgrown hfits
    refine ⟨seps, tail, all, hseps, hlevel, by simpa using hall, ?_, Nat.le_succ_of_le hfew⟩
    have hlt := Nat.not_dvd_of_pos_of_lt (Nat.succ_pos _) (hroom.mp hfits)
    rw [htail]
    cases rest <;> simp [hlt, add_assoc, add_comm 1]
  next hfull =>
  have hperiod : leafPeriod hashIndex = keys.length + 1 := by omega
  have hleaf : Valid hashIndex blockCapacity (.mk keys []) := .leaf (hused ▸ hfit)
  split
  next hlast =>
    obtain rfl := isEmpty_iff.mp hlast
    exact ⟨[], [record], keys, rfl, level_singleton hleaf, rfl, by simp [hperiod], le_rfl⟩
  next hne =>
  obtain ⟨seps, tail, all, hseps, hlevel, hall, htail, hfew⟩ :=
    ih (entriesSize_nil hashIndex).1 (by decide)
  refine ⟨record :: seps, tail, _, congrArg (record :: ·) hseps,
    hlevel.cons hleaf record, by simp [hall, IndexTree.inorder], ?_, Nat.succ_le_succ hfew⟩
  rw [htail, hperiod, length_cons, ← add_assoc, Nat.add_right_comm, length_nil, zero_add]
  simp [length_pos_iff, List.isEmpty_iff.not.mp hne]

/-! ## The tree -/

/-- The tree of the sorted records. -/
def securityTree (hashIndex : Bool) (records : List NtfsSecurityRecord) :
    IndexTree NtfsSecurityRecord :=
  if ntfsSecurityEntriesSize records hashIndex false ≤ securityRootEntryLimit then .mk records []
  else
    let leaves := ntfsSecurityLeafLevel hashIndex records [] 16
    let last := securityRootLoop hashIndex (records.length + 1) leaves.1 leaves.2
    .mk last.2 last.1

/-- The bytes of a tree. -/
def securityIndex (hashIndex : Bool) : IndexTree NtfsSecurityRecord → NtfsIndex
  | .mk keys level =>
    let collation := if hashIndex then 0x12 else 0x10
    let entry := ntfsSecurityEntry hashIndex
    if level.isEmpty then
      { rootValue := indexRootValue 0 collation
          (keys.map (fun key => entry key false 0) ++ [ntfsIndexEndEntry false 0]) false }
    else
      let (children, count) := assignAll level 0
      { rootValue := indexRootValue 0 collation
          (ntfsTreeEntries entry ntfsIndexEndEntry keys children) true
        blocks := blocksOfAll entry ntfsIndexEndEntry children
        bitmap := blockBitmap count }

/-- With a separator too many the tree is not valid, or a record is missing. -/
lemma valid_securityTree (hashIndex : Bool) (recs : List NtfsSecurityRecord) :
    let extra := 0 < recs.length ∧ leafPeriod hashIndex ∣ recs.length
    let root := securityTree hashIndex recs
    (root.children = [] → ntfsSecurityEntriesSize recs hashIndex false ≤ securityRootEntryLimit) ∧
      (extra → Valid hashIndex securityRootEntryLimit root → root.inorder.length ≠ recs.length) ∧
      (¬ extra → Valid hashIndex securityRootEntryLimit root ∧ root.inorder = recs) := by
  by_cases hfits : ntfsSecurityEntriesSize recs hashIndex false ≤ securityRootEntryLimit
  · have hless := (entriesSize_le_iff recs).mp (hfits.trans (by decide))
    rw [securityTree, if_pos hfits]
    exact ⟨fun _ => hfits, fun h => absurd h.2 (Nat.not_dvd_of_pos_of_lt h.1 hless), fun _ => ⟨.leaf hfits, rfl⟩⟩
  rw [securityTree, if_neg hfits]
  obtain ⟨seps, tail, all, hseps, hlevel, hall, htail, hfew⟩ :=
    level_securityLeafLevel recs (entriesSize_nil hashIndex).1 (by decide)
  have hcount := congrArg List.length hall
  simp only [length_append, nil_append, length_nil, zero_add] at hcount htail
  obtain ⟨between, hlast, hroot, hsame⟩ :=
    level_securityRootLoop hlevel (by split at htail <;> omega) (Nat.lt_succ_of_le (hseps ▸ hfew))
  simp only [hseps]
  generalize securityRootLoop hashIndex (recs.length + 1) _ (seps ++ tail) = last at *
  obtain ⟨level, keys⟩ := last
  refine ⟨?_, fun hextra hval => ?_, fun hfine => ?_⟩
  · rintro rfl
    cases hlast.length
  · rw [if_pos hextra] at htail
    rcases hsame with rfl | rfl
    · rw [hlast.inorder]
      omega
    have hmore := hlast.length
    cases hval with
    | leaf => simp at hmore
    | node _ hlength =>
      rw [length_append] at hlength
      omega
  rw [if_neg hfine, length_eq_zero_iff] at htail
  subst htail
  rw [append_nil, or_self_iff] at hsame
  subst hsame
  rw [append_nil, nil_append] at hall
  exact ⟨.node hroot hlast.length hlast.valid, hlast.inorder.trans hall⟩

/-- The key by which records are sorted. -/
def securityKey (hashIndex : Bool) (record : NtfsSecurityRecord) : List Nat :=
  if hashIndex then [record.hash, record.id] else [record.id]

/-- The records in order. -/
def securityRecords (hashIndex : Bool) (input : List NtfsSecurityRecord) : List NtfsSecurityRecord :=
  sortBy ntfsCompareNameSortKeys (securityKey hashIndex) input

/-- The order of the index. -/
def Ascending (hashIndex : Bool) (a b : NtfsSecurityRecord) : Prop :=
  if hashIndex then a.hash < b.hash ∨ a.hash = b.hash ∧ a.id ≤ b.id else a.id ≤ b.id

/-- The comparison of the keys is the order of the index. -/
lemma compare_ne_lt_iff (a b : NtfsSecurityRecord) :
    ntfsCompareNameSortKeys (securityKey hashIndex b) (securityKey hashIndex a) ≠ .lt ↔ Ascending hashIndex a b := by
  cases hashIndex <;> grind [ntfsCompareNameSortKeys, securityKey, Ascending]

/-- The records are sorted. -/
lemma ascending_securityRecords (hashIndex : Bool) (input : List NtfsSecurityRecord) :
    (securityRecords hashIndex input).Pairwise (Ascending hashIndex) := by
  have htot : Std.Total fun a b =>
      ntfsCompareNameSortKeys (securityKey hashIndex b) (securityKey hashIndex a) ≠ .lt :=
    ⟨fun a b => by simp only [compare_ne_lt_iff, Ascending]; split <;> omega⟩
  have htrans : IsTrans _ fun a b =>
      ntfsCompareNameSortKeys (securityKey hashIndex b) (securityKey hashIndex a) ≠ .lt :=
    ⟨fun a b c => by simp only [compare_ne_lt_iff, Ascending]; split <;> omega⟩
  exact (pairwise_insertionSort _ input).imp (compare_ne_lt_iff _ _).mp

/-- **Security indexes.**  The index is written for a tree, and this is a search tree over the
records exactly if their number is no multiple of the period. -/
theorem buildNTFSSecurityIndex_valid_iff (input : List NtfsSecurityRecord) (hashIndex : Bool) :
    let root := securityTree hashIndex (securityRecords hashIndex input)
    buildNTFSSecurityIndex input hashIndex = securityIndex hashIndex root ∧
      (Valid hashIndex securityRootEntryLimit root ∧ root.inorder.Perm input ∧
          root.inorder.Pairwise (Ascending hashIndex) ↔
        ¬ (0 < input.length ∧ leafPeriod hashIndex ∣ input.length)) := by
  have hperm : (securityRecords hashIndex input).Perm input := perm_insertionSort _ _
  obtain ⟨hkids, hextra, hfine⟩ := valid_securityTree hashIndex (securityRecords hashIndex input)
  rw [hperm.length_eq] at hextra hfine
  refine ⟨?_, fun ⟨hval, hall, _⟩ h => hextra h hval hall.length_eq, fun h => ?_⟩
  · by_cases hfits :
      ntfsSecurityEntriesSize (securityRecords hashIndex input) hashIndex false ≤ securityRootEntryLimit
    · rw [securityTree, if_pos hfits]
      exact if_pos hfits
    · rw [securityTree, if_neg hfits] at hkids ⊢
      rw [securityIndex, if_neg]
      · exact if_neg hfits
      · exact fun hnone => hfits (hkids (List.isEmpty_iff.mp hnone))
  · obtain ⟨hval, hall⟩ := hfine h
    rw [hall]
    exact ⟨hval, hperm, ascending_securityRecords _ _⟩

set_option maxRecDepth 4000 in
/-- With a hundred records the root of `$SII` has one key and one child. -/
theorem buildNTFSSecurityIndex_hundred :
    let record (id : Nat) : NtfsSecurityRecord := ⟨[], 0, id, 0⟩
    let root := securityTree false (securityRecords false ((List.range 100).map record))
    root = .mk [record 99] [.mk ((List.range 99).map record) []] ∧ ¬ Valid false securityRootEntryLimit root := by
  refine ⟨rfl, fun h => ?_⟩
  cases h with
  | node _ hlength => cases hlength

end Trex.Ntfs
