import Trex.Fat.Import

/-!
# The import and the order of the maps

The files are sorted before they are imported; the attribute records are not.  Two records
may name one node, since paths are compared without case: then the last one wins.
-/

namespace Trex.Fat

open List Option

open Bytes (ascii)

open Trex.Filesystem (Path Unicode Attributes FileRecord assignNames)

/-- The same maps, taken in another order. -/
structure SameMaps (s s' : Snapshot) : Prop where
  directories : s'.directories.Perm s.directories
  files : s'.files.Perm s.files
  attributes : s'.attributes.Perm s.attributes

/-! ## The files are sorted -/

variable {files : List (Path × FileRecord)} {p : Path} {t : Tree} {u : Unicode} {parent r : Ref}
  {f : Node → Node} {α : Type}

lemma lookup_eq_some (h : (files.map Prod.fst).Nodup)
    {vf : FileRecord} : files.lookup p = some vf ↔ (p, vf) ∈ files := by
  induction files with
  | nil => simp
  | cons e files ih =>
  obtain ⟨hnot, hrest⟩ := nodup_cons.mp h
  obtain ⟨q, vf'⟩ := e
  rw [lookup_cons, mem_cons]
  by_cases hq : p = q
  · subst hq
    simp only [BEq.rfl, some.injEq, Prod.mk.injEq, true_and]
    constructor
    · exact fun heq => .inl heq.symm
    · rintro (heq | hmem)
      · exact heq.symm
      · exact absurd (mem_map_of_mem hmem) hnot
  · simp only [beq_eq_false_iff_ne.mpr hq, Prod.mk.injEq, hq, false_and, false_or]
    exact ih hrest

lemma lookup_perm {files files' : List (Path × FileRecord)} (hperm : files'.Perm files)
    (h : (files.map Prod.fst).Nodup) (p : Path) : files'.lookup p = files.lookup p := by
  have h' : (files'.map Prod.fst).Nodup := (hperm.map Prod.fst).nodup_iff.mpr h
  refine ext fun vf => ?_
  rw [lookup_eq_some h', lookup_eq_some h]
  exact hperm.mem_iff

lemma insertionSort_perm {ps ps' : List Path} (hperm : ps'.Perm ps) :
    ps'.insertionSort (· ≤ ·) = ps.insertionSort (· ≤ ·) := by
  have hboth : (ps'.insertionSort (· ≤ ·)).Perm (ps.insertionSort (· ≤ ·)) :=
    (perm_insertionSort _ _).trans (hperm.trans (perm_insertionSort _ _).symm)
  exact hboth.eq_of_pairwise' (pairwise_insertionSort _ _) (pairwise_insertionSort _ _)

/-- The tree does not depend on the order of directories and files. -/
lemma importTree_sameMaps (u : Unicode) {s s' : Snapshot} (h : SameMaps s s') :
    importTree u s'.directories s'.files = importTree u s.directories s.files := by
  unfold importTree
  rw [insertionSort_perm h.directories, insertionSort_perm (h.files.map Prod.fst)]
  simp only [lookup_perm h.files s.filesDistinct]

/-! ## Attributes -/

/-- Sets the attributes of a node. -/
def setAttr (t : Tree) (r : Ref) (attr : UInt8) : Tree := t.update r fun n => { n with attr := attr }

lemma getElem?_setAttr (t : Tree) (r : Ref) (attr : UInt8) (i : Nat) : (setAttr t r attr).nodes[i]? =
      if r = i then t.nodes[i]?.map fun n => { n with attr := attr } else t.nodes[i]? := by
  unfold setAttr Tree.update
  simp only [getElem?_modify]
  split
  · rfl
  · simp

/-- Two records commute unless they give one node different attributes. -/
lemma setAttr_comm (t : Tree) {r r' : Ref} {attr attr' : UInt8} (h : r = r' → attr = attr') :
    setAttr (setAttr t r attr) r' attr' = setAttr (setAttr t r' attr') r attr := by
  have hnodes : (setAttr (setAttr t r attr) r' attr').nodes = (setAttr (setAttr t r' attr') r attr).nodes := by
    refine ext_getElem? fun i => ?_
    rw [getElem?_setAttr, getElem?_setAttr, getElem?_setAttr, getElem?_setAttr]
    by_cases hr : r = i
    · by_cases hr' : r' = i
      · rw [h (hr.trans hr'.symm)]
        simp [hr, hr']
      · simp [hr, hr']
    · simp [hr]
  show (⟨_, _⟩ : Tree) = ⟨_, _⟩
  rw [Tree.mk.injEq]
  exact ⟨hnodes, rfl⟩

/-- What a record looks at does not depend on the attributes. -/
lemma resolve_setAttr (u : Unicode) (t : Tree) (r : Ref) (attr : UInt8) (p : Path) :
    resolve u (setAttr t r attr) p = resolve u t p := by
  have hnode : ∀ i, ((setAttr t r attr).node i).children = (t.node i).children ∧
      ((setAttr t r attr).node i).name = (t.node i).name := by
    intro i
    unfold Tree.node
    rw [getD_eq_getElem?_getD, getD_eq_getElem?_getD, getElem?_setAttr]
    split
    · cases t.nodes[i]? <;> exact ⟨rfl, rfl⟩
    · exact ⟨rfl, rfl⟩
  have hbyPath : (setAttr t r attr).byPath = t.byPath := rfl
  unfold resolve childByName
  simp only [hbyPath, (hnode _).1, (hnode _).2]

/-- `applyAttributes` with the resolution of paths as a parameter. -/
def applyAt (target : Path → Option Ref) (t : Tree) (record : Path × Attributes) : Tree :=
  match target record.1 with
  | some r => setAttr t r (fat32Attributes record.2)
  | none => t

/-- All records see the tree as it was before them. -/
lemma foldl_applyAttributes (u : Unicode) (t0 : Tree) (recs : List (Path × Attributes)) (t : Tree)
    (ht : ∀ p, resolve u t p = resolve u t0 p) :
    recs.foldl (applyAttributes u) t = recs.foldl (applyAt (resolve u t0)) t := by
  induction recs generalizing t with
  | nil => rfl
  | cons record recs ih =>
  have hstep : applyAttributes u t record = applyAt (resolve u t0) t record := by
    unfold applyAttributes applyAt
    rw [ht]
    rfl
  rw [foldl_cons, foldl_cons, hstep]
  refine ih _ fun p => ?_
  unfold applyAt
  split
  · rw [resolve_setAttr, ht]
  · exact ht p

/-- Records of one node that set it to the same byte. -/
def Agree (target : Path → Option Ref) (records : List (Path × Attributes)) : Prop :=
  ∀ a ∈ records, ∀ b ∈ records, ∀ r, target a.1 = some r → target b.1 = some r →
    fat32Attributes a.2 = fat32Attributes b.2

/-- Records that agree can be applied in any order. -/
lemma foldl_perm_of_agree {target : Path → Option Ref} {recs recs' : List (Path × Attributes)}
    (hperm : recs'.Perm recs) (h : Agree target recs) (t : Tree) :
    recs'.foldl (applyAt target) t = recs.foldl (applyAt target) t := by
  refine hperm.foldl_eq' (fun a ha b hb t => ?_) t
  have ha' := hperm.mem_iff.mp ha
  have hb' := hperm.mem_iff.mp hb
  unfold applyAt
  cases hta : target a.1 with
  | none => rfl
  | some r =>
  cases htb : target b.1 with
  | none => rfl
  | some r' =>
  refine setAttr_comm t fun hr => ?_
  subst hr
  exact h a ha' b hb' r hta htb

/-! ## References stay inside the list of nodes -/

/-- The numbers of nodes in a tree are numbers of its nodes. -/
structure Inside (t : Tree) : Prop where
  nonempty : 0 < t.nodes.length
  byPath : ∀ key r, t.byPath.find key = some r → r < t.nodes.length
  children : ∀ n ∈ t.nodes, ∀ c ∈ n.children, c < t.nodes.length

lemma Inside.child (h : Inside t) {parent c : Ref} (hc : c ∈ (t.node parent).children) : c < t.nodes.length := by
  unfold Tree.node at hc
  rw [getD_eq_getElem?_getD] at hc
  cases hnode : t.nodes[parent]? with
  | none =>
    rw [hnode] at hc
    simp at hc
  | some n =>
    rw [hnode] at hc
    exact h.children n (mem_of_getElem? hnode) c hc

/-- A child that is found is a node of the tree. -/
lemma Inside.childByName (h : Inside t) {name : Bytes}
    (hr : childByName u t parent name = some r) : r < t.nodes.length :=
  h.child (mem_of_find?_eq_some hr)

lemma length_update (t : Tree) (r : Ref) (f : Node → Node) :
    (t.update r f).nodes.length = t.nodes.length := length_modify ..

lemma mem_update {n : Node} (hn : n ∈ (t.update r f).nodes) : n ∈ t.nodes ∨ ∃ m ∈ t.nodes, n = f m := by
  obtain ⟨i, hi⟩ := mem_iff_getElem?.mp hn
  unfold Tree.update at hi
  rw [getElem?_modify] at hi
  cases hm : t.nodes[i]? with
  | none =>
    rw [hm] at hi
    cases hi
  | some m =>
  rw [hm] at hi
  have hmem := mem_of_getElem? hm
  split at hi
  · exact .inr ⟨m, hmem, (some.inj hi).symm⟩
  · exact .inl (by rw [← some.inj hi]; exact hmem)

lemma inside_update (h : Inside t) (r : Ref) (hf : ∀ n, (f n).children = n.children) : Inside (t.update r f) := by
  refine ⟨?_, ?_, ?_⟩
  · rw [length_update]
    exact h.nonempty
  · rw [length_update]
    exact h.byPath
  intro n hn c hc
  rw [length_update]
  rcases mem_update hn with hn | ⟨m, hm, rfl⟩
  · exact h.children n hn c hc
  · rw [hf] at hc
    exact h.children m hm c hc

lemma inside_addChild (h : Inside t) (parent : Ref) {node : Node} (hnode : node.children = []) :
    Inside (t.addChild parent node) ∧ (t.addChild parent node).nodes.length = t.nodes.length + 1 := by
  have hlen : (t.addChild parent node).nodes.length = t.nodes.length + 1 := by
    unfold Tree.addChild
    simp only [length_append, length_update, length_singleton]
  refine ⟨⟨?_, ?_, ?_⟩, hlen⟩
  · omega
  · intro key r hr
    exact Nat.lt_of_lt_of_le (h.byPath key r hr) (by rw [hlen]; exact Nat.le_succ _)
  intro n hn c hc
  rw [hlen]
  unfold Tree.addChild at hn
  rcases mem_append.mp hn with hn | hn
  · rcases mem_update hn with hn | ⟨m, hm, rfl⟩
    · exact Nat.lt_succ_of_lt (h.children n hn c hc)
    · rcases mem_append.mp hc with hc | hc
      · exact Nat.lt_succ_of_lt (h.children m hm c hc)
      · rw [mem_singleton.mp hc]
        exact Nat.lt_succ_self _
  · rw [mem_singleton.mp hn, hnode] at hc
    exact absurd hc not_mem_nil

lemma inside_newPath (h : Inside t) (key : Bytes) (hr : r < t.nodes.length) :
    Inside { t with byPath := t.byPath.insert key r } := by
  refine ⟨h.nonempty, fun key' r' hr' => ?_, h.children⟩
  simp only [SortedMap.find_insert] at hr'
  split at hr'
  · cases hr'
    exact hr
  · exact h.byPath key' r' hr'

lemma inside_newDir (u : Unicode) (h : Inside t) (parent : Ref) (p : Path) :
    Inside (newDir u t parent p).1 ∧ (newDir u t parent p).2 < (newDir u t parent p).1.nodes.length := by
  let node : Node := { name := p.base, fullPath := p, parent := some parent, dir := true, attr := attrDir }
  obtain ⟨hadd, hlen⟩ := inside_addChild h parent (show node.children = [] from rfl)
  have hlt : t.nodes.length < (t.addChild parent node).nodes.length := by
    rw [hlen]
    exact Nat.lt_succ_self _
  exact ⟨inside_newPath hadd _ hlt, hlt⟩

/-- Making directories keeps the numbers inside. -/
lemma inside_ensureDir (u : Unicode) (turns : Nat) (h : Inside t) (p : Path) :
    Inside (ensureDir u turns t p).1 ∧ (ensureDir u turns t p).2 < (ensureDir u turns t p).1.nodes.length := by
  induction turns generalizing p with
  | zero => exact ⟨h, h.nonempty⟩
  | succ turns ih =>
  rw [ensureDir]
  split
  next r hr => exact ⟨h, h.byPath _ r hr⟩
  obtain ⟨hin, -⟩ := ih p.dir
  generalize ensureDir u turns t p.dir = parent at hin
  obtain ⟨t', parent⟩ := parent
  simp only at hin ⊢
  split
  next r hr =>
    have hlt := hin.childByName hr
    split
    · exact ⟨inside_newPath hin _ hlt, hlt⟩
    · exact inside_newDir u hin parent p
  · exact inside_newDir u hin parent p

lemma inside_importFile (u : Unicode) (h : Inside t) (p : Path) (vf : FileRecord) : Inside (importFile u t p vf) := by
  obtain ⟨hin, -⟩ := inside_ensureDir u (p.dir.parts.length + 1) h p.dir
  unfold importFile ensurePath
  generalize ensureDir u (p.dir.parts.length + 1) t p.dir = parent at hin
  obtain ⟨t', parent⟩ := parent
  simp only at hin ⊢
  split
  · split
    · exact hin
    · exact inside_update hin _ fun n => rfl
  · exact (inside_addChild hin parent rfl).1

/-- The run lemma for the loops of the import. -/
lemma inside_foldl {f : Tree → α → Tree} (hf : ∀ t a, Inside t → Inside (f t a)) (l : List α)
    (h : Inside t) : Inside (l.foldl f t) := by
  induction l generalizing t with
  | nil => exact h
  | cons a l ih => exact ih (hf t a h)

/-- The import keeps the numbers inside. -/
lemma inside_importTree (u : Unicode) (directories : List Path) (files : List (Path × FileRecord)) :
    Inside (importTree u directories files) := by
  refine inside_foldl (fun t p h => inside_importFile u h p _) _ ?_
  refine inside_foldl (fun t p h => ?_) _ ?_
  · split
    · exact (inside_ensureDir u _ h p).1
    · exact h
  refine ⟨Nat.zero_lt_one, fun key r hr => ?_, fun n hn c hc => ?_⟩
  · simp only [SortedMap.find_insert] at hr
    split at hr
    · cases hr
      exact Nat.zero_lt_one
    · cases hr
  · rw [mem_singleton.mp hn] at hc
    exact absurd hc not_mem_nil

/-- A path that is resolved leads to a node of the tree. -/
lemma Inside.resolve (h : Inside t) (hr : resolve u t p = some r) : r < t.nodes.length := by
  unfold Fat.resolve at hr
  split at hr
  next r' hr' =>
    cases hr
    exact h.byPath _ r hr'
  · split at hr
    · exact h.childByName hr
    · cases hr

/-! ## Sorting and naming leave the attributes alone -/

/-- One field of all nodes. -/
def column {β : Type} (g : Node → β) (t : Tree) : List β := t.nodes.map g

def attrs (t : Tree) : List UInt8 := t.nodes.map Node.attr

section

variable {β : Type} {g : Node → β}

lemma column_update (t : Tree) (r : Ref) {f : Node → Node} (hf : ∀ n, g (f n) = g n) :
    column g (t.update r f) = column g t := by
  unfold column Tree.update
  refine ext_getElem? fun i => ?_
  rw [getElem?_map, getElem?_map, getElem?_modify, Option.map_eq_map, Option.map_map]
  congr 1
  funext n
  simp only [Function.comp_apply]
  split
  · exact hf n
  · rfl

lemma column_assignFAT32ShortNames (hshort : ∀ n short, g { n with short := short } = g n) {u : Unicode}
    {t t' : Tree} {kids : List Ref} (h : assignFAT32ShortNames u t kids = some t') :
    column g t' = column g t := by
  obtain ⟨shorts, -, rfl⟩ := map_eq_some_iff.mp h
  generalize kids.zip shorts = l
  clear h
  induction l generalizing t with
  | nil => rfl
  | cons e l ih =>
    rw [foldl_cons, ih]
    exact column_update t e.1 fun n => hshort n e.2

/-- Fields other than the alias and the order of children survive `finish`. -/
lemma column_finish (hshort : ∀ n short, g { n with short := short } = g n)
    (hkids : ∀ n children, g { n with children := children } = g n)
    {sortSlice : (Ref → Ref → Bool) → List Ref → List Ref} {u : Unicode} {t t' : Tree}
    (h : finish sortSlice u t = some t') : column g t' = column g t := by
  unfold finish at h
  generalize range t.nodes.length = l at h
  induction l generalizing t with
  | nil =>
    cases h
    rfl
  | cons r l ih =>
  rw [foldl_cons] at h
  cases hnode : finishNode sortSlice u t r with
  | none =>
    have hnone : ∀ l : List Ref, l.foldl (fun t r => t.bind fun t => finishNode sortSlice u t r)
        none = none := by
      intro l
      induction l with
      | nil => rfl
      | cons r l ih => exact ih
    rw [bind_some, hnode, hnone] at h
    cases h
  | some t1 =>
  rw [bind_some, hnode] at h
  rw [ih h, column_assignFAT32ShortNames hshort hnode]
  exact column_update t r fun n => hkids n _

end

/-- The tree without its attributes. -/
def bare (t : Tree) : Tree := { t with nodes := t.nodes.map fun n => { n with attr := 0 } }

lemma node_bare (t : Tree) (r : Ref) :
    ((bare t).node r).children = (t.node r).children ∧ ((bare t).node r).name = (t.node r).name := by
  unfold bare Tree.node
  rw [getD_eq_getElem?_getD, getD_eq_getElem?_getD, getElem?_map]
  cases t.nodes[r]? <;> exact ⟨rfl, rfl⟩

lemma bare_update (t : Tree) (r : Ref) (hf : ∀ n, { f n with attr := 0 } = f { n with attr := 0 }) :
    bare (t.update r f) = (bare t).update r f := by
  unfold bare Tree.update
  simp only [Tree.mk.injEq, and_true]
  refine ext_getElem? fun i => ?_
  rw [getElem?_map, getElem?_modify, getElem?_modify, getElem?_map]
  cases t.nodes[i]? with
  | none => rfl
  | some n =>
  simp only [Option.map_eq_map, Option.map_some, Option.some.injEq]
  split
  · exact hf n
  · rfl

lemma assignFAT32ShortNames_bare (u : Unicode) (t : Tree) (kids : List Ref) :
    assignFAT32ShortNames u (bare t) kids = (assignFAT32ShortNames u t kids).map bare := by
  have hnames : (kids.map fun r => ((bare t).node r).name) = kids.map fun r => (t.node r).name :=
    map_congr_left fun r _ => (node_bare t r).2
  unfold assignFAT32ShortNames
  rw [hnames, Option.map_map]
  congr 1
  funext shorts
  rw [Function.comp_apply]
  generalize kids.zip shorts = l
  induction l generalizing t with
  | nil => rfl
  | cons e l ih =>
    rw [foldl_cons, foldl_cons, ← bare_update t e.1 fun _ => rfl]
    refine ih _ (map_congr_left fun r _ => (node_bare _ r).2)

section

variable (sortSlice : (Ref → Ref → Bool) → List Ref → List Ref) (u : Unicode) (t : Tree)

lemma finishNode_bare (r : Ref) : finishNode sortSlice u (bare t) r = (finishNode sortSlice u t r).map bare := by
  unfold finishNode
  simp only [(node_bare t _).1, (node_bare t _).2]
  rw [← bare_update t r fun _ => rfl, assignFAT32ShortNames_bare]

/-- The aliases do not depend on the attributes. -/
lemma finish_bare : finish sortSlice u (bare t) = (finish sortSlice u t).map bare := by
  have hfold : ∀ (l : List Ref) (o : Option Tree),
      l.foldl (fun t r => t.bind fun t => finishNode sortSlice u t r) (o.map bare) =
        (l.foldl (fun t r => t.bind fun t => finishNode sortSlice u t r) o).map bare := by
    intro l
    induction l with
    | nil => exact fun o => rfl
    | cons r l ih =>
    intro o
    rw [foldl_cons, foldl_cons, ← ih]
    congr 1
    cases o with
    | none => rfl
    | some t => exact finishNode_bare sortSlice u t r
  have hlen : (bare t).nodes.length = t.nodes.length := length_map ..
  unfold finish
  rw [hlen]
  exact hfold _ (some t)

end

/-- Whether the import ends does not depend on the attributes. -/
lemma finish_eq_none_congr {sortSlice : (Ref → Ref → Bool) → List Ref → List Ref} {t t' : Tree}
    (h : bare t = bare t') : finish sortSlice u t = none ↔ finish sortSlice u t' = none := by
  have hmap : (finish sortSlice u t).map bare = (finish sortSlice u t').map bare := by
    rw [← finish_bare, ← finish_bare, h]
  rw [← map_eq_none_iff (f := bare), hmap, map_eq_none_iff]

lemma bare_setAttr (t : Tree) (r : Ref) (attr : UInt8) : bare (setAttr t r attr) = bare t := by
  unfold bare setAttr Tree.update
  simp only [Tree.mk.injEq, and_true]
  refine ext_getElem? fun i => ?_
  rw [getElem?_map, getElem?_modify, getElem?_map]
  cases t.nodes[i]? with
  | none => rfl
  | some n =>
    simp only [Option.map_eq_map, Option.map_some, Option.some.injEq]
    split <;> rfl

/-- The records change attributes only. -/
lemma bare_foldl_applyAt (target : Path → Option Ref) (recs : List (Path × Attributes)) (t : Tree) :
    bare (recs.foldl (applyAt target) t) = bare t := by
  induction recs generalizing t with
  | nil => rfl
  | cons record recs ih =>
  rw [foldl_cons, ih]
  unfold applyAt
  split
  · exact bare_setAttr t _ _
  · rfl

/-! ## The order of the records -/

/-- Any two records of one node set the same attributes. -/
def AttributesAgree (u : Unicode) (s : Snapshot) : Prop :=
  Agree (resolve u (importTree u s.directories s.files)) s.attributes

/-- The node has the attributes that were set last. -/
lemma attrs_setAttr_self (hr : r < t.nodes.length) (attr : UInt8) : (attrs (setAttr t r attr))[r]? = some attr := by
  unfold attrs
  rw [getElem?_map, getElem?_setAttr, if_pos rfl, getElem?_eq_getElem hr]
  rfl

lemma length_foldl_applyAt (target : Path → Option Ref) (recs : List (Path × Attributes)) (t : Tree) :
    (recs.foldl (applyAt target) t).nodes.length = t.nodes.length := by
  induction recs generalizing t with
  | nil => rfl
  | cons record recs ih =>
  rw [foldl_cons, ih]
  unfold applyAt
  split
  · exact length_update t _ _
  · rfl

/-- The same snapshot with its attribute records in another order. -/
def Snapshot.reorder (s : Snapshot) (attributes : List (Path × Attributes))
    (h : attributes.Perm s.attributes) : Snapshot :=
  { s with
    attributes := attributes
    attributesDistinct := (h.map Prod.fst).nodup_iff.mpr s.attributesDistinct }

/-- Two elements can be brought to the end. -/
lemma exists_perm_pair {l : List α} {a b : α} (ha : a ∈ l) (hb : b ∈ l) (hne : b ≠ a) :
    ∃ rest, (rest ++ [a, b]).Perm l := by
  obtain ⟨l1, l2, rfl⟩ := append_of_mem ha
  have hb' : b ∈ l1 ++ l2 := by
    rcases mem_append.mp hb with hb | hb
    · exact mem_append_left _ hb
    · exact mem_append_right _ ((mem_cons.mp hb).resolve_left hne)
  obtain ⟨r1, r2, hsplit⟩ := append_of_mem hb'
  refine ⟨r1 ++ r2, ?_⟩
  have hpair : (r1 ++ r2 ++ [a, b]).Perm (a :: b :: (r1 ++ r2)) := perm_append_comm
  refine hpair.trans (.trans (.cons a ?_) perm_middle.symm)
  rw [hsplit]
  exact perm_middle.symm

/-- **When the order does not matter.**  The import gives the same nodes for every order of the maps if and
only if the attribute records of each node agree (or the import does not end). -/
theorem importDirectory_order (sortSlice : (Ref → Ref → Bool) → List Ref → List Ref) (u : Unicode)
    (s : Snapshot) :
    (∀ s', SameMaps s s' → importDirectory sortSlice u s' = importDirectory sortSlice u s) ↔
      (importDirectory sortSlice u s = none ∨ AttributesAgree u s) := by
  have hbef : ∀ s', SameMaps s s' → importDirectory sortSlice u s' = finish sortSlice u (s'.attributes.foldl
        (applyAt (resolve u (importTree u s.directories s.files)))
        (importTree u s.directories s.files)) := by
    intro s' h
    unfold importDirectory
    rw [importTree_sameMaps u h, foldl_applyAttributes u _ _ _ fun _ => rfl]
  have hself : SameMaps s s := ⟨.refl _, .refl _, .refl _⟩
  constructor
  · intro hsame
    cases hs : importDirectory sortSlice u s with
    | none => exact .inl rfl
    | some t =>
    refine .inr fun a ha b hb r hra hrb => ?_
    by_contra hne
    have hab : b ≠ a := by
      rintro rfl
      exact hne rfl
    obtain ⟨rest, hperm⟩ := exists_perm_pair ha hb hab
    -- the two records last, in either order
    have hlast : ∀ x y, (rest ++ [x, y]).Perm s.attributes → resolve u
        (importTree u s.directories s.files) y.1 = some r →
        (attrs t)[r]? = some (fat32Attributes y.2) := by
      intro x y hxy hy
      have hmaps : SameMaps s (s.reorder _ hxy) := ⟨.refl _, .refl _, hxy⟩
      have horder := hsame _ hmaps
      rw [hbef _ hmaps, hs] at horder
      rw [show attrs t = _ from column_finish (fun _ _ => rfl) (fun _ _ => rfl) horder]
      have hfold : (s.reorder _ hxy).attributes.foldl
          (applyAt (resolve u (importTree u s.directories s.files)))
          (importTree u s.directories s.files) =
          setAttr ((rest ++ [x]).foldl (applyAt (resolve u (importTree u s.directories s.files)))
            (importTree u s.directories s.files)) r (fat32Attributes y.2) := by
        show (rest ++ [x, y]).foldl _ _ = _
        rw [show rest ++ [x, y] = (rest ++ [x]) ++ [y] by simp, List.foldl_append, List.foldl_cons, List.foldl_nil]
        generalize (rest ++ [x]).foldl _ _ = t'
        unfold applyAt
        rw [hy]
      rw [hfold]
      refine attrs_setAttr_self ?_ _
      rw [length_foldl_applyAt]
      exact (inside_importTree u _ _).resolve hy
    have hfirst := hlast a b hperm hrb
    have hsecond := hlast b a ((List.Perm.append_left rest (.swap a b [])).trans hperm) hra
    rw [hfirst] at hsecond
    exact hne (Option.some.inj hsecond).symm
  rintro (hnone | hagree) s' h
  · rw [hnone]
    rw [hbef s hself] at hnone
    rw [hbef s' h]
    refine (finish_eq_none_congr ?_).mp hnone
    rw [bare_foldl_applyAt, bare_foldl_applyAt]
  · rw [hbef s' h, hbef s hself, foldl_perm_of_agree h.attributes hagree]

/-- A sort, for runs of the model. -/
def insertionSlice (less : Ref → Ref → Bool) (l : List Ref) : List Ref :=
  l.insertionSort fun i j => less j i = false

/-- Two files whose names differ in case only; the first is hidden. -/
def mixedCase : Snapshot where
  directories := [Path.root]
  files := [(Filesystem.cleanPath (ascii "A"), { data := [120], size := 1, writeOrder := 1 }),
    (Filesystem.cleanPath (ascii "a"), { data := [121], size := 1, writeOrder := 2 })]
  attributes := [(Filesystem.cleanPath (ascii "A"), { hidden := true }), (Filesystem.cleanPath (ascii "a"), {})]
  filesDistinct := by decide +kernel
  attributesDistinct := by decide +kernel

/-- Records of two names that differ in case only: the order of the map decides. -/
theorem mixedCase_order_matters :
    SameMaps mixedCase (mixedCase.reorder _ (.swap _ _ [])) ∧
      importDirectory insertionSlice ⟨id, id, id⟩ (mixedCase.reorder _ (.swap _ _ [])) ≠
        importDirectory insertionSlice ⟨id, id, id⟩ mixedCase := by
  refine ⟨⟨.refl _, .refl _, .swap _ _ []⟩, fun heq => ?_⟩
  have hattrs := congrArg (Option.map attrs) heq
  revert hattrs
  decide +kernel

end Trex.Fat
