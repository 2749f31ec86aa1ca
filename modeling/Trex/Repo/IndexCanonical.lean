import Mathlib.Data.List.Perm.Basic
import Mathlib.Data.List.Sort
import Trex.Repo.Tree

/-!
# The directory index is canonical

`Shape` is a page with what lies below it, without pointers, and `canon` the shape that `partition` gives
to sorted entries.  `setIndex` leads from a page that denotes `entries` to one that denotes
`put entries name value`.
-/

namespace Trex.Repo

open List Option

open Assoc (Sorted put find find_filter find_put)

/-- An index without its place in memory. -/
inductive Shape where
  | nil
  | leaf (entries : List NamedNode) (size weight : Nat)
  | branch (slots : List Shape) (size weight : Nat)

/-- The shape of a page; `turns` bounds the levels. -/
def shape (h : Heap) : Nat → Option IndexPtr → Shape
  | 0, _ => .nil
  | _ + 1, none => .nil
  | turns + 1, some p =>
      match (h.index p).slots with
      | none => .leaf (h.index p).entries (h.index p).size (h.index p).weight
      | some slots => .branch (slots.map (shape h turns)) (h.index p).size (h.index p).weight

/-- A leaf, or nothing for no entries. -/
def leafShape (entries : List NamedNode) : Shape :=
  if entries = [] then .nil else .leaf entries entries.length (entriesWeight entries)

section

variable (env : Env)

/-- The entries of a slot. -/
def bucket (depth i : Nat) (entries : List NamedNode) : List NamedNode :=
  entries.filter fun e => hashSlot (env.sha256 e.1) depth = i

/-- The shape of `partition` at depth `64 - left`. -/
def canon : Nat → List NamedNode → Shape
  | 0, entries => leafShape entries
  | left + 1, entries =>
      if entries = [] || fitsLeaf entries.length (entriesWeight entries) then leafShape entries
      else .branch ((List.range 16).map fun i => canon left (bucket env (64 - (left + 1)) i entries))
        entries.length (entriesWeight entries)

/-- The page has the canonical shape of the entries and keeps it when the heap grows. -/
def Denotes (h : Heap) (left : Nat) (p : Option IndexPtr) (entries : List NamedNode) : Prop :=
  ∀ h' : Heap, h.indexes <+: h'.indexes → shape h' (left + 1) p = canon env left entries

/-- What a function that builds a page promises. -/
structure Made (h : Heap) (left : Nat) (entries : List NamedNode) (r : Option IndexPtr × Heap) :
    Prop where
  grows : h.indexes <+: r.2.indexes
  fresh : ∀ q, r.1 = some q → h.indexes.length ≤ q
  denotes : Denotes env r.2 left r.1 entries

end

variable {env : Env} {h h' : Heap} {left n : Nat} {p : Option IndexPtr} {entries : List NamedNode}

/-! ## Growing heaps -/

lemma index_of_grows (hgrows : h.indexes <+: h'.indexes) (hn : n < h.indexes.length) : h'.index n = h.index n := by
  obtain ⟨more, hmore⟩ := hgrows
  unfold Heap.index
  rw [← hmore, getD_eq_getElem?_getD, getD_eq_getElem?_getD, getElem?_append_left hn]

lemma index_newIndex {ix : Index} {id : ID} (hgrows : (h.newIndex ix id).2.indexes <+: h'.indexes) :
    h'.index h.indexes.length = ix := by
  have hlen : h.indexes.length < (h.newIndex ix id).2.indexes.length := by
    show _ < (h.indexes ++ [ix]).length
    simp
  rw [index_of_grows hgrows hlen]
  show (h.indexes ++ [ix]).getD h.indexes.length _ = ix
  simp

/-- New pages do not change what an index denotes. -/
lemma Denotes.mono (hd : Denotes env h left p entries) (hgrows : h.indexes <+: h'.indexes) :
    Denotes env h' left p entries := fun h'' hmore => hd h'' (hgrows.trans hmore)

/-! ## Building -/

lemma leaf_made (hfit : canon env left entries = leafShape entries) : Made env h left entries (leaf h entries) := by
  unfold leaf
  split
  next hnil =>
    refine ⟨prefix_rfl, fun q hq => (nomatch hq), fun h' _ => ?_⟩
    rw [hfit, leafShape, if_pos hnil, shape]
  next hne =>
  refine ⟨prefix_append _ _, fun q hq => (some.inj hq).le, fun h' hgrows => ?_⟩
  have hcell := index_newIndex hgrows
  rw [hfit, leafShape, if_neg hne]
  show shape h' (left + 1) (some h.indexes.length) = _
  rw [shape, hcell]
  rfl

/-- A branch over canonical slots is canonical. -/
lemma branch_made {slots : List (Option IndexPtr)}
    (hwide : (entries = [] || fitsLeaf entries.length (entriesWeight entries)) = false)
    (hslots : ∀ h' : Heap, h.indexes <+: h'.indexes → slots.map (shape h' (left + 1)) =
      (range 16).map fun i => canon env left (bucket env (64 - (left + 1)) i entries)) :
    Made env h (left + 1) entries (match h.newIndex ⟨[], some slots, entries.length, entriesWeight entries⟩ [] with
        | (p, h') => (some p, h')) := by
  refine ⟨prefix_append _ _, fun q hq => (some.inj hq).le, fun h' hgrows => ?_⟩
  have hcell := index_newIndex hgrows
  show shape h' (left + 1 + 1) (some h.indexes.length) = _
  rw [shape, hcell, canon, hwide]
  simp only [Bool.false_eq_true, if_false]
  rw [hslots h' ((prefix_append _ _).trans hgrows)]

/-- The slots are made one after the other. -/
lemma mapAlloc_made {f : Heap → Nat → Option IndexPtr × Heap} {part : Nat → List NamedNode}
    (hf : ∀ h i, Made env h left (part i) (f h i)) (h : Heap) (is : List Nat) :
    h.indexes <+: (h.mapAlloc f is).2.indexes ∧ ∀ h' : Heap, (h.mapAlloc f is).2.indexes <+: h'.indexes →
        (h.mapAlloc f is).1.map (shape h' (left + 1)) = is.map fun i => canon env left (part i) := by
  induction is generalizing h with
  | nil => exact ⟨prefix_rfl, fun _ _ => rfl⟩
  | cons i is ih =>
  obtain ⟨hrest, hshapes⟩ := ih (f h i).2
  have hmade := hf h i
  refine ⟨hmade.grows.trans hrest, fun h' hgrows => ?_⟩
  show shape h' (left + 1) (f h i).1 :: ((f h i).2.mapAlloc f is).1.map _ = _
  rw [hshapes h' hgrows, hmade.denotes h' (hrest.trans hgrows)]
  rfl

/-- `partition` makes the canonical index. -/
lemma partition_made (env : Env) (left : Nat) (h : Heap) (entries : List NamedNode) :
    Made env h left entries (partition env left h entries) := by
  induction left generalizing h entries with
  | zero => exact leaf_made rfl
  | succ left ih =>
  unfold partition
  split
  next hfits => exact leaf_made (by rw [canon, if_pos hfits])
  next hwide =>
  obtain ⟨hgrows, hslots⟩ := mapAlloc_made
    (fun h i => ih h (bucket env (64 - (left + 1)) i entries)) h (range 16)
  have hmade := branch_made (by simpa using hwide) hslots
  exact ⟨hgrows.trans hmade.grows, fun q hq => hgrows.length_le.trans (hmade.fresh q hq), hmade.denotes⟩

/-! ## What a page that denotes entries is -/

lemma canon_eq_nil_iff (env : Env) (left : Nat) : canon env left entries = .nil ↔ entries = [] := by
  have hleaf : leafShape entries = .nil ↔ entries = [] := by
    unfold leafShape
    split <;> simp_all
  cases left with
  | zero => exact hleaf
  | succ left =>
  unfold canon
  split
  · exact hleaf
  · simp_all

lemma Denotes.eq_none_iff (hd : Denotes env h left p entries) : p = none ↔ entries = [] := by
  rw [← canon_eq_nil_iff env left, ← hd h prefix_rfl]
  cases p with
  | none => simp [shape]
  | some n =>
    unfold shape
    split <;> simp

lemma leaf_eq_canon {es : List NamedNode} {size weight : Nat} (h : .leaf es size weight = canon env left entries) :
    es = entries ∧ size = entries.length ∧ weight = entriesWeight entries := by
  have hleaf : .leaf es size weight = leafShape entries := by
    cases left with
    | zero => exact h
    | succ left =>
    unfold canon at h
    split at h
    · exact h
    · cases h
  unfold leafShape at hleaf
  split at hleaf
  · cases hleaf
  · exact Shape.leaf.inj hleaf

/-- What the page of an index records: its size, its weight, entries or slots. -/
lemma Denotes.cell (hd : Denotes env h left (some n) entries) :
    n < h.indexes.length ∧ (h.index n).size = entries.length ∧ (h.index n).weight = entriesWeight entries ∧
      ((h.index n).slots = none ∧ (h.index n).entries = entries ∨
        ∃ k slots, left = k + 1 ∧ (h.index n).slots = some slots ∧
          (entries = [] || fitsLeaf entries.length (entriesWeight entries)) = false ∧ slots.length = 16 ∧
          ∀ i < 16, Denotes env h k (slots.getD i none) (bucket env (64 - left) i entries)) := by
  have hne : entries ≠ [] := fun hnil => nomatch hd.eq_none_iff.mpr hnil
  have hlt : n < h.indexes.length := by
    by_contra hge
    have hdefault : h.index n = ⟨[], none, 0, 0⟩ := by
      unfold Heap.index
      rw [getD_eq_getElem?_getD, getElem?_eq_none (by omega), getD_none]
    have hshape := hd h prefix_rfl
    rw [shape, hdefault] at hshape
    exact hne (leaf_eq_canon hshape).1.symm
  have hshape : ∀ h' : Heap, h.indexes <+: h'.indexes → (match (h.index n).slots with
        | none => Shape.leaf (h.index n).entries (h.index n).size (h.index n).weight
        | some slots => .branch (slots.map (shape h' left)) (h.index n).size (h.index n).weight) =
      canon env left entries := by
    intro h' hgrows
    rw [← hd h' hgrows, shape, index_of_grows hgrows hlt]
  refine ⟨hlt, ?_⟩
  cases hslots : (h.index n).slots with
  | none =>
    have hleaf := hshape h prefix_rfl
    rw [hslots] at hleaf
    obtain ⟨he, hs, hw⟩ := leaf_eq_canon hleaf
    exact ⟨hs, hw, .inl ⟨rfl, he⟩⟩
  | some slots =>
  have hborn := hshape h prefix_rfl
  rw [hslots] at hshape hborn
  cases left with
  | zero => simp [canon, leafShape, if_neg hne] at hborn
  | succ k =>
  cases hfit : (entries = [] || fitsLeaf entries.length (entriesWeight entries)) with
  | true => simp [canon, hfit, leafShape, if_neg hne] at hborn
  | false =>
  simp only [canon, hfit, Bool.false_eq_true, if_false] at hshape hborn
  obtain ⟨hmap, hs, hw⟩ := Shape.branch.inj hborn
  have hlen : slots.length = 16 := by simpa using congrArg length hmap
  refine ⟨hs, hw, .inr ⟨k, slots, rfl, rfl, rfl, hlen, fun i hi h' hgrows => ?_⟩⟩
  have hat := congrArg (fun l => l[i]?) (Shape.branch.inj (hshape h' hgrows)).1
  simp only [getElem?_map, getElem?_range hi, map_some] at hat
  rw [getElem?_eq_getElem (by omega), map_some] at hat
  rw [getD_eq_getElem?_getD, getElem?_eq_getElem (by omega), getD_some]
  exact some.inj hat

/-- Induction over the pages below a page. -/
lemma Denotes.induction {motive : Nat → Option IndexPtr → List NamedNode → Prop} (nil : ∀ left, motive left none [])
    (leaf : ∀ left n entries, Denotes env h left (some n) entries → (h.index n).slots = none →
      (h.index n).entries = entries → motive left (some n) entries)
    (branch : ∀ left n slots entries, Denotes env h (left + 1) (some n) entries →
      (h.index n).slots = some slots → slots.length = 16 →
      (∀ i < 16, motive left (slots.getD i none) (bucket env (64 - (left + 1)) i entries)) →
      motive (left + 1) (some n) entries) (hd : Denotes env h left p entries) : motive left p entries := by
  induction left using Nat.strongRecOn generalizing p entries with
  | ind left ih =>
  cases p with
  | none =>
    rw [hd.eq_none_iff.mp rfl]
    exact nil left
  | some n =>
  obtain ⟨-, -, -, ⟨hslots, hleaf⟩ | ⟨k, slots, rfl, hslots, -, hlen, hbelow⟩⟩ := hd.cell
  · exact leaf left n entries hd hslots hleaf
  · refine branch k n slots entries hd hslots hlen fun i hi => ?_
    exact ih k (Nat.lt_succ_self k) (hbelow i hi)

lemma Denotes.count (hd : Denotes env h left p entries) :
    h.count p = entries.length ∧ h.weight p = entriesWeight entries := by
  cases p with
  | none =>
    rw [hd.eq_none_iff.mp rfl]
    exact ⟨rfl, rfl⟩
  | some n => exact ⟨hd.cell.2.1, hd.cell.2.2.1⟩

/-! ## Buckets -/

lemma hashSlot_lt (hash : Bytes) (depth : Nat) : hashSlot hash depth < 16 := by
  unfold hashSlot
  have hbyte := (hash.getD (depth / 2) 0).toNat_lt
  dsimp only
  split <;> omega

lemma find_bucket (depth i : Nat) (entries : List NamedNode) (name : Name) : find (bucket env depth i entries) name =
      if hashSlot (env.sha256 name) depth = i then find entries name else none := by
  unfold bucket
  rw [find_filter fun name => decide (hashSlot (env.sha256 name) depth = i)]
  simp

lemma sorted_bucket (hs : Sorted entries) (depth i : Nat) : Sorted (bucket env depth i entries) :=
  hs.filter _

/-- A name changes the bucket of its hash and no other. -/
lemma bucket_put (hs : Sorted entries) (depth i : Nat) (name : Name) (val : Option NodePtr) :
    bucket env depth i (put entries name val) =
      if hashSlot (env.sha256 name) depth = i then put (bucket env depth i entries) name val
      else bucket env depth i entries := by
  have hput := Assoc.sorted_put hs name val
  split
  next hslot =>
    refine (sorted_bucket hput _ _).ext (Assoc.sorted_put (sorted_bucket hs _ _) _ _) fun k => ?_
    rw [find_bucket, find_put, find_put, find_bucket]
    by_cases hk : k = name
    · rw [if_pos hk, if_pos hk, hk, if_pos hslot]
    · rw [if_neg hk, if_neg hk]
  next hslot =>
  refine (sorted_bucket hput _ _).ext (sorted_bucket hs _ _) fun k => ?_
  rw [find_bucket, find_put, find_bucket]
  by_cases hk : k = name
  · rw [hk, if_neg hslot, if_neg hslot]
  · rw [if_neg hk]

/-- The slots share the entries out. -/
lemma buckets_perm (env : Env) (depth : Nat) (entries : List NamedNode) :
    ((range 16).flatMap fun i => bucket env depth i entries).Perm entries := by
  have hall : ∀ m, ((range m).flatMap fun i => bucket env depth i entries).Perm
      (entries.filter fun e => hashSlot (env.sha256 e.1) depth < m) := by
    intro m
    induction m with
    | zero => simp
    | succ m ih =>
    have hsplit := filter_append_perm (fun e => hashSlot (env.sha256 e.1) depth < m)
      (entries.filter fun e => hashSlot (env.sha256 e.1) depth < m + 1)
    rw [List.filter_filter, List.filter_filter] at hsplit
    rw [range_succ, flatMap_append, flatMap_singleton]
    refine (ih.append_right _).trans (List.Perm.trans (List.Perm.of_eq ?_) hsplit)
    congr 1
    · apply filter_congr
      intro e _
      rw [← Bool.decide_and]
      exact decide_eq_decide.mpr (by omega)
    · apply filter_congr
      intro e _
      rw [← decide_not, ← Bool.decide_and]
      exact decide_eq_decide.mpr (by omega)
  have hsixteen := hall 16
  rwa [filter_eq_self.mpr fun e _ => decide_eq_true (hashSlot_lt _ _)] at hsixteen

lemma entriesWeight_perm {l l' : List NamedNode} (hperm : l.Perm l') :
    entriesWeight l = entriesWeight l' := (hperm.map _).sum_nat

/-- What one bucket gains the whole gains. -/
lemma measure_put (env : Env) (hs : Sorted entries) (depth : Nat) (name : Name) (val : Option NodePtr) :
    let i := hashSlot (env.sha256 name) depth
    entries.length - (bucket env depth i entries).length +
        (bucket env depth i (put entries name val)).length = (put entries name val).length ∧
      entriesWeight entries - entriesWeight (bucket env depth i entries) +
        entriesWeight (bucket env depth i (put entries name val)) = entriesWeight (put entries name val) := by
  intro i
  have hsplit : ∀ l : List NamedNode, (bucket env depth i l ++
      l.filter fun e => !decide (hashSlot (env.sha256 e.1) depth = i)).Perm l :=
    fun l => filter_append_perm _ l
  have hrest : (put entries name val).filter
        (fun e => !decide (hashSlot (env.sha256 e.1) depth = i)) =
      entries.filter fun e => !decide (hashSlot (env.sha256 e.1) depth = i) := by
    refine ((Assoc.sorted_put hs name val).filter _).ext (hs.filter _) fun k => ?_
    rw [find_filter fun k => !decide (hashSlot (env.sha256 k) depth = i),
      find_filter fun k => !decide (hashSlot (env.sha256 k) depth = i), find_put]
    by_cases hk : k = name
    · simp [hk, i]
    · rw [if_neg hk]
  have hbef := hsplit entries
  have haft := hsplit (put entries name val)
  rw [hrest] at haft
  have hweight : ∀ l l' : List NamedNode, entriesWeight (l ++ l') = entriesWeight l + entriesWeight l' := by
    intro l l'
    rw [entriesWeight, map_append, sum_append]
    rfl
  have hlen := hbef.length_eq
  have hlen' := haft.length_eq
  have hw := entriesWeight_perm hbef
  have hw' := entriesWeight_perm haft
  rw [length_append] at hlen hlen'
  rw [hweight] at hw hw'
  omega

/-! ## The entries below a page -/

lemma getD_range {slots : List (Option IndexPtr)} (hlen : slots.length = 16) :
    slots = (range 16).map fun i => slots.getD i none := by
  apply ext_getElem (by simp [hlen])
  intro i hi hi'
  simp [getD_eq_getElem?_getD, getElem?_eq_getElem hi]

/-- What the slots have together. -/
lemma slots_perm {slots : List (Option IndexPtr)} (hlen : slots.length = 16) (depth : Nat)
    {f : Option IndexPtr → List NamedNode} (hf : ∀ i < 16, (f (slots.getD i none)).Perm (bucket env depth i entries)) :
    (slots.flatMap f).Perm entries := by
  rw [getD_range hlen, flatMap_map]
  refine List.Perm.trans ?_ (buckets_perm env depth entries)
  exact List.Perm.flatMap_left _ fun i hi => hf i (mem_range.mp hi)

/-- Collecting an index gives its entries in some order. -/
lemma Denotes.collect (hd : Denotes env h left p entries) :
    ∀ turns, left < turns → (collectEntries h turns p).Perm entries := by
  refine hd.induction (motive := fun left p entries => ∀ turns, left < turns →
    (collectEntries h turns p).Perm entries) ?nil ?leaf ?branch
  case nil =>
    intro left turns _
    cases turns <;> simp [collectEntries]
  case leaf =>
    rintro left n entries - hslots hleaf (_ | turns) hturns
    · omega
    · rw [collectEntries, hslots, hleaf]
  case branch =>
    rintro left n slots entries - hslots hlen ih (_ | turns) hturns
    · omega
    · rw [collectEntries, hslots]
      exact slots_perm hlen (64 - (left + 1)) fun i hi => ih i hi turns (by omega)

/-- Sorting gives them in their order. -/
lemma sortEntries_eq {l : List NamedNode} (hperm : l.Perm entries) (hs : Sorted entries) :
    sortEntries l = entries := by
  have hsorted : (sortEntries l).Pairwise fun a b => a.1 ≤ b.1 := by
    have := @List.pairwise_mergeSort NamedNode (fun a b => decide (a.1 ≤ b.1))
      (fun a b c hab hbc => by simp only [decide_eq_true_eq] at *; exact le_trans hab hbc)
      (fun a b => by simpa using le_total a.1 b.1) l
    exact this.imp fun hab => of_decide_eq_true hab
  refine List.Perm.eq_of_pairwise (fun a b ha hb hab hba => ?_) hsorted (hs.imp le_of_lt)
    ((mergeSort_perm _ _).trans hperm)
  have hmem := ((mergeSort_perm _ _).trans hperm).mem_iff.mp ha
  have hkey : a.1 = b.1 := le_antisymm hab hba
  have hfind := hs.find_of_mem hmem
  rw [hkey, hs.find_of_mem hb] at hfind
  exact Prod.ext hkey (some.inj hfind).symm

/-! ## Setting a name -/

/-- What setting a name promises: the same page is given back only when nothing changes. -/
structure Updated (env : Env) (h : Heap) (left : Nat) (p : Option IndexPtr)
    (entries next : List NamedNode) (r : Option IndexPtr × Heap) : Prop where
  grows : h.indexes <+: r.2.indexes
  denotes : Denotes env r.2 left r.1 next
  same : r.1 = p → next = entries

lemma Made.updated {r : Option IndexPtr × Heap} {next : List NamedNode}
    (hmade : Made env h' left next r) (hgrows : h.indexes <+: h'.indexes)
    (hn : n < h.indexes.length) : Updated env h left (some n) entries next r := by
  refine ⟨hgrows.trans hmade.grows, hmade.denotes, fun hsame => ?_⟩
  have hle := hmade.fresh n hsame
  have := hgrows.length_le
  omega

/-- Setting a name to what it has changes nothing. -/
lemma put_find (hs : Sorted entries) (name : Name) : put entries name (find entries name) = entries := by
  refine (Assoc.sorted_put hs _ _).ext hs fun k => ?_
  rw [find_put]
  split
  next hk => rw [hk]
  · rfl

lemma canon_single (env : Env) (left : Nat) (name : Name) (v : NodePtr) :
    canon env left [(name, v)] = leafShape [(name, v)] := by
  cases left with
  | zero => rfl
  | succ left => simp [canon, fitsLeaf, indexLeafEntries]

/-- The binary search finds the entry of a name. -/
lemma entryAt_search (hs : Sorted entries) (name : Name) :
    entryAt entries (searchName entries name) name = find entries name := by
  unfold searchName entryAt
  rw [hs.search, ← hs.getElem?_place name]
  cases entries[Assoc.place entries name]? with
  | none => rfl
  | some e => by_cases hkey : e.1 = name <;> simp [hkey]

/-- Changing a leaf gives the canonical index of the new entries. -/
lemma setLeaf_updated (hd : Denotes env h left (some n) entries) (hs : Sorted entries)
    (hleaf : (h.index n).entries = entries) (name : Name) (val : Option NodePtr) :
    Updated env h left (some n) entries (put entries name val) (setLeaf env left h n name val) := by
  unfold setLeaf
  dsimp only
  rw [hleaf, entryAt_search hs, searchName, hs.search]
  split
  next hsame =>
    subst hsame
    rw [put_find hs]
    exact ⟨prefix_rfl, hd, fun _ => rfl⟩
  next =>
  rw [(hs.take_place name).1, hs.drop_after]
  have hmade := partition_made env left h (put entries name val)
  cases val <;> exact hmade.updated prefix_rfl hd.cell.1

lemma setIndex_none_updated (hd : Denotes env h left none entries) (name : Name) (val : Option NodePtr) :
    Updated env h left none entries (put entries name val) (setIndex env left h none name val) := by
  obtain rfl := hd.eq_none_iff.mp rfl
  unfold setIndex
  cases val with
  | none => exact ⟨prefix_rfl, hd, fun _ => rfl⟩
  | some v =>
  have hmade := leaf_made (h := h) (canon_single env left name v)
  exact ⟨hmade.grows, hmade.denotes, fun hsame => absurd (hmade.denotes.eq_none_iff.mp hsame) (cons_ne_nil _ _)⟩

/-- The buckets after a name is set are denoted by the slots with one of them replaced. -/
lemma slots_denote {slots : List (Option IndexPtr)} {next : Option IndexPtr} {slot : Nat}
    {name : Name} {val : Option NodePtr} (hs : Sorted entries) (hlen : slots.length = 16)
    (hslot : hashSlot (env.sha256 name) (64 - (left + 1)) = slot) (hlt : slot < 16)
    (hbelow : ∀ i < 16, Denotes env h left (slots.getD i none) (bucket env (64 - (left + 1)) i entries))
    (hnext : Denotes env h left next (put (bucket env (64 - (left + 1)) slot entries) name val)) :
    ∀ i < 16, Denotes env h left ((slots.set slot next).getD i none)
      (bucket env (64 - (left + 1)) i (put entries name val)) := by
  intro i hi
  rw [bucket_put hs, hslot, getD_eq_getElem?_getD, getElem?_set]
  by_cases hsame : slot = i
  · subst hsame
    rw [if_pos rfl, if_pos rfl, if_pos (by omega), getD_some]
    exact hnext
  · rw [if_neg hsame, if_neg hsame, ← getD_eq_getElem?_getD]
    exact hbelow i hi

/-- Changing an index gives the canonical index of the new entries; the induction is on the levels. -/
lemma setIndex_updated (hd : Denotes env h left p entries) (hs : Sorted entries)
    (hleft : left ≤ 64) (name : Name) (value : Option NodePtr) :
    Updated env h left p entries (put entries name value) (setIndex env left h p name value) := by
  induction left using Nat.strongRecOn generalizing h p entries with
  | ind left ih =>
  cases p with
  | none => exact setIndex_none_updated hd name value
  | some n =>
  obtain ⟨hn, hsize, hweight, ⟨hslots, hleaf⟩ | ⟨left, slots, rfl, hslots, hwide, hlen, hbelow⟩⟩ := hd.cell
  · have hset : setIndex env left h (some n) name value = setLeaf env left h n name value := by
      cases left <;> simp [setIndex, hslots]
    rw [hset]
    exact setLeaf_updated hd hs hleaf name value
  have hmeas := measure_put env hs (64 - (left + 1)) name value
  have hlt := hashSlot_lt (env.sha256 name) (64 - (left + 1))
  unfold setIndex
  rw [hslots]
  dsimp only at hmeas ⊢
  rw [bucket_put hs, if_pos rfl] at hmeas
  generalize hslot : hashSlot (env.sha256 name) (64 - (left + 1)) = slot at hmeas hlt ⊢
  obtain ⟨hgrows, hnext, hsame⟩ := ih left (Nat.lt_succ_self _) (hbelow slot hlt)
    (sorted_bucket hs _ _) (by omega)
  generalize setIndex env left h (slots.getD slot none) name value = r at hgrows hnext hsame ⊢
  obtain ⟨next, h'⟩ := r
  dsimp only at hgrows hnext hsame ⊢
  split
  next heq =>
    -- the bucket did not change, so neither did the entries
    have hput : put entries name value = entries := by
      have hfind := congrArg (fun l => find l name) (hsame heq)
      simp only [find_put, find_bucket, hslot, if_true] at hfind
      rw [hfind, put_find hs]
    rw [hput]
    exact ⟨hgrows, hd.mono hgrows, fun _ => rfl⟩
  next =>
  have hslots' := slots_denote hs hlen hslot hlt
    (fun i hi => (hbelow i hi).mono hgrows) hnext
  have hold := ((hbelow slot hlt).mono hgrows).count
  have hnew := hnext.count
  have hsize' : (h'.index n).size - h'.count (slots.getD slot none) + h'.count next =
      (put entries name value).length := by
    rw [index_of_grows hgrows hn, hsize, hold.1, hnew.1]
    exact hmeas.1
  have hweight' : (h'.index n).weight - h'.weight (slots.getD slot none) + h'.weight next =
      entriesWeight (put entries name value) := by
    rw [index_of_grows hgrows hn, hweight, hold.2, hnew.2]
    exact hmeas.2
  have hlen' : (slots.set slot next).length = 16 := by rw [length_set, hlen]
  rw [hsize', hweight']
  split
  next hfits =>
    have hents : slotEntries h' (slots.set slot next) = put entries name value := by
      refine sortEntries_eq ?_ (Assoc.sorted_put hs name value)
      exact slots_perm hlen' (64 - (left + 1)) fun i hi => (hslots' i hi).collect _ (by omega)
    rw [hents]
    exact (leaf_made (by rw [canon, hfits, Bool.or_true, if_pos rfl])).updated hgrows hn
  next hnofit =>
  refine Made.updated (branch_made ?_ fun h'' hmore => ?_) hgrows hn
  · rw [Bool.not_eq_true] at hnofit
    rw [hnofit, Bool.or_false, decide_eq_false_iff_not]
    intro hnil
    rw [hnil] at hnofit
    cases hnofit
  · rw [getD_range hlen', List.map_map]
    exact map_congr_left fun i hi => hslots' i (mem_range.mp hi) h'' hmore

/-! ## Reading -/

/-- The lookup goes down the slots to the entry. -/
lemma Denotes.lookup (hd : Denotes env h left p entries) (name : Name) : Sorted entries → left ≤ 64 →
      lookupLoop h name (env.sha256 name) (left + 1) (64 - left) p = find entries name := by
  refine hd.induction (motive := fun left p entries => Sorted entries → left ≤ 64 →
    lookupLoop h name (env.sha256 name) (left + 1) (64 - left) p = find entries name)
    (fun _ _ _ => rfl) ?leaf ?branch
  case leaf =>
    intro left n entries _ hslots hleaf hs _
    rw [lookupLoop, hslots, hleaf]
    exact entryAt_search hs name
  case branch =>
    intro left n slots entries _ hslots _ ih hs hleft
    have hdepth : 64 - (left + 1) + 1 = 64 - left := by omega
    rw [lookupLoop, hslots]
    dsimp only
    rw [hdepth, ih _ (hashSlot_lt _ _) (sorted_bucket hs _ _) (by omega), find_bucket, if_pos rfl]

/-- The children are the entries in order. -/
lemma Denotes.eachChild (hd : Denotes env h 64 p entries) (hs : Sorted entries) : eachChild h p = entries := by
  cases p with
  | none => rw [hd.eq_none_iff.mp rfl, Repo.eachChild]
  | some n =>
  have hall : sortedEntries h (some n) = entries := sortEntries_eq (hd.collect 65 (by omega)) hs
  obtain ⟨-, -, -, ⟨hslots, hleaf⟩ | ⟨k, slots, -, hslots, -⟩⟩ := hd.cell
  · rw [Repo.eachChild, hslots, hleaf]
  · rw [Repo.eachChild, hslots]
    exact hall

/-- The pages of an index, at most `turns` levels deep. -/
def pagesBelow (h : Heap) : Nat → Option IndexPtr → List IndexPtr
  | 0, _ => []
  | _ + 1, none => []
  | turns + 1, some p => p :: ((h.index p).slots.getD []).flatMap (pagesBelow h turns)

/-- The recorded sizes are right. -/
def TrueSizes (h : Heap) (q : IndexPtr) : Prop :=
  (h.index q).size = (collectEntries h 65 (some q)).length ∧
    (h.index q).weight = entriesWeight (collectEntries h 65 (some q))

lemma Denotes.trueSizes_self (hd : Denotes env h left (some n) entries) (hleft : left ≤ 64) : TrueSizes h n := by
  have hperm := hd.collect 65 (by omega)
  obtain ⟨-, hsize, hweight, -⟩ := hd.cell
  exact ⟨by rw [hsize, hperm.length_eq], by rw [hweight, entriesWeight_perm hperm]⟩

/-- Every page records the right size and weight. -/
lemma Denotes.trueSizes (hd : Denotes env h left p entries) :
    left ≤ 64 → ∀ q ∈ pagesBelow h (left + 1) p, TrueSizes h q := by
  refine hd.induction (motive := fun left p _ => left ≤ 64 →
    ∀ q ∈ pagesBelow h (left + 1) p, TrueSizes h q) (fun left _ q hq => (nomatch hq)) ?leaf ?branch
  case leaf =>
    intro left n entries hd hslots _ hleft q hq
    rw [pagesBelow, hslots] at hq
    obtain rfl := mem_singleton.mp hq
    exact hd.trueSizes_self hleft
  case branch =>
    intro left n slots entries hd hslots hlen ih hleft q hq
    rw [pagesBelow, hslots, getD_some, mem_cons] at hq
    rcases hq with rfl | hq
    · exact hd.trueSizes_self hleft
    · rw [getD_range hlen, flatMap_map] at hq
      obtain ⟨i, hi, hq⟩ := mem_flatMap.mp hq
      exact ih i (mem_range.mp hi) (by omega) q hq

/-! ## Sequences of calls -/

/-- The names after a sequence of changes. -/
def namesAfter (calls : List (Name × Option NodePtr)) : Name → Option NodePtr :=
  calls.foldl (fun names call => Function.update names call.1 call.2) fun _ => none

/-- A sequence of changes, from the empty index on. -/
def setChildren (env : Env) (h : Heap) (calls : List (Name × Option NodePtr)) :
    Option IndexPtr × Heap :=
  calls.foldl (fun r call => setChild env r.2 r.1 call.1 call.2) (none, h)

/-- After any changes the index denotes the names that they leave. -/
lemma setChildren_denotes (env : Env) (h : Heap) (calls : List (Name × Option NodePtr)) :
    ∃ entries, Sorted entries ∧ (∀ name, find entries name = namesAfter calls name) ∧
      Denotes env (setChildren env h calls).2 64 (setChildren env h calls).1 entries := by
  induction calls using reverseRecOn with
  | nil => exact ⟨[], List.Pairwise.nil, fun _ => rfl, fun _ _ => rfl⟩
  | append_singleton calls call ih =>
  obtain ⟨entries, hs, hfind, hd⟩ := ih
  have hset := setIndex_updated hd hs (Nat.le_refl _) call.1 call.2
  refine ⟨put entries call.1 call.2, Assoc.sorted_put hs _ _, fun name => ?_, ?_⟩
  · have haft : namesAfter (calls ++ [call]) = Function.update (namesAfter calls) call.1 call.2 := foldl_append
    rw [find_put, hfind, haft]
    by_cases hname : name = call.1
    · rw [if_pos hname, hname, Function.update_self]
    · rw [if_neg hname, Function.update_of_ne hname]
  · rw [setChildren, foldl_append]
    exact hset.denotes

/-- After any calls from an empty directory the index is the one that `partition` makes of the sorted
entries, and the queries read the map. -/
theorem setChild_canonical (env : Env) (h : Heap) (calls : List (Name × Option NodePtr)) :
    let r := setChildren env h calls
    ∃ entries, Sorted entries ∧ (∀ name, find entries name = namesAfter calls name) ∧
      shape r.2 65 r.1 = shape (partition env 64 r.2 entries).2 65 (partition env 64 r.2 entries).1 ∧
      (∀ name, lookup env r.2 r.1 name = namesAfter calls name) ∧ eachChild r.2 r.1 = entries ∧
      (∀ q ∈ pagesBelow r.2 65 r.1, TrueSizes r.2 q) ∧
      (r.1 = none ↔ ∀ name, namesAfter calls name = none) := by
  intro r
  obtain ⟨entries, hs, hfind, hd⟩ := setChildren_denotes env h calls
  have hmade := partition_made env 64 r.2 entries
  refine ⟨entries, hs, hfind, ?_, fun name => ?_, hd.eachChild hs, hd.trueSizes (Nat.le_refl _), ?_⟩
  · exact (hd _ List.prefix_rfl).trans (hmade.denotes _ List.prefix_rfl).symm
  · rw [← hfind]
    exact hd.lookup name hs (Nat.le_refl _)
  rw [hd.eq_none_iff]
  constructor
  · rintro rfl name
    exact (hfind name).symm
  · intro hnone
    refine hs.ext List.Pairwise.nil fun name => ?_
    rw [hfind, hnone, Assoc.find_nil]

end Trex.Repo
