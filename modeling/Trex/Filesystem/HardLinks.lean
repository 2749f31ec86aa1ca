import Mathlib.Data.Set.Card
import Trex.Lib.Checked
import Trex.Filesystem.DirectoryRun

/-!
# Hard-link identities

`Linked`: the paths with an identity are its aliases, each once, and the count is their number.  Only
`SetMetadata` changes an identity; a new group takes one that no path carries.
-/

namespace Trex.Filesystem

open List Checked
open Bytes (ascii)

namespace Directory

/-- The identity that a path carries, 0 for none. -/
def linkID (d : Directory) (p : Path) : Nat := (d.metadataOf p).hardLink

/-- The tables of the links agree with the metadata. -/
structure Linked (d : Directory) : Prop where
  nodup : ∀ id, id ≠ 0 → (d.names id).Nodup
  mem : ∀ id p, id ≠ 0 → (p ∈ d.names id ↔ d.linkID p = id)
  refs : ∀ id, id ≠ 0 → d.refs id = (d.names id).length

variable {d d' : Directory} {oldID newID id : Nat} {src destination name : Bytes}

/-- The invariant looks at the identities and the two tables. -/
lemma linked_congr (h : Linked d) (hid : d'.linkID = d.linkID) (hnames : d'.names = d.names)
    (hrefs : d'.refs = d.refs) : Linked d' := by
  refine ⟨?_, ?_, ?_⟩
  · rw [hnames]
    exact h.nodup
  · rw [hid, hnames]
    exact h.mem
  · rw [hnames, hrefs]
    exact h.refs

lemma linked_of_tables (h : Linked d) (hmeta : d'.metadata = d.metadata)
    (hrefs : d'.hardLinkRefs = d.hardLinkRefs) (hnames : d'.hardLinkNames = d.hardLinkNames) : Linked d' := by
  refine linked_congr h ?_ ?_ ?_
  · funext p
    simp only [linkID, metadataOf, hmeta]
  · funext id
    simp only [names, hnames]
  · funext id
    simp only [Directory.refs, hrefs]

lemma linked_of_links (heq : d'.links = d.links) (h : Linked d) : Linked d' := by
  obtain ⟨-, -, hmeta, hrefs, hnames⟩ := fields_of_links heq
  exact linked_of_tables h hmeta hrefs hnames

/-! ## The tables -/

/-- A path leaves the entry of one identity and joins that of another; an empty entry is dropped. -/
def moveEntry {ν : Type} [DecidableEq ν] (zero : ν) (leave join : ν → ν) (m : SortedMap Nat ν)
    (oldID newID : Nat) : SortedMap Nat ν :=
  let m := if oldID ≠ 0 then
      if leave ((m.find oldID).getD zero) = zero then m.erase oldID
      else m.insert oldID (leave ((m.find oldID).getD zero))
    else m
  if newID ≠ 0 then m.insert newID (join ((m.find newID).getD zero)) else m

/-- What moving a name between two groups does to a table. -/
lemma find_moveEntry {ν : Type} [DecidableEq ν] (zero : ν) (leave join : ν → ν)
    (m : SortedMap Nat ν) (hne : oldID ≠ newID) (id : Nat) (hid : id ≠ 0) :
    ((moveEntry zero leave join m oldID newID).find id).getD zero =
      if id = newID then join ((m.find id).getD zero) else if id = oldID then leave ((m.find id).getD zero)
      else (m.find id).getD zero := by
  -- the old identity, with or without an entry when it is empty
  have hold : ∀ id, id ≠ 0 → ((if oldID ≠ 0 then
        if leave ((m.find oldID).getD zero) = zero then m.erase oldID
        else m.insert oldID (leave ((m.find oldID).getD zero))
      else m).find id).getD zero =
      if id = oldID then leave ((m.find id).getD zero) else (m.find id).getD zero := by
    intro id hid
    by_cases hzero : oldID = 0
    · rw [if_neg (by simpa using hzero), if_neg (by omega)]
    rw [if_pos hzero]
    split
    next hemp =>
      rw [SortedMap.find_erase]
      split
      next h =>
        subst h
        rw [hemp]
        rfl
      · rfl
    rw [SortedMap.find_insert]
    split
    next h =>
      subst h
      rfl
    · rfl
  unfold moveEntry
  generalize hmap : (if oldID ≠ 0 then _ else m) = m' at *
  by_cases hzero : newID = 0
  · rw [if_neg (by simpa using hzero), if_neg (by omega)]
    exact hold id hid
  rw [if_pos hzero, SortedMap.find_insert]
  split
  next h =>
    subst h
    rw [Option.getD_some, hold id hid, if_neg (Ne.symm hne)]
  · exact hold id hid

lemma moveRef_fst (refs : SortedMap Nat Nat) (next oldID newID : Nat) :
    (moveRef refs next oldID newID).1 = moveEntry 0 (· - 1) (· + 1) refs oldID newID := by
  unfold moveRef moveEntry
  by_cases hold : oldID = 0
  · simp only [hold, ne_eq, not_true_eq_false, if_false]
  · simp only [hold, ne_eq, not_false_eq_true, if_true]
    by_cases hcount : (refs.find oldID).getD 0 - 1 = 0
    · simp only [if_pos hcount]
    · simp only [if_neg hcount]

/-! ## `SetMetadata` -/

lemma metadataOf_setMetadataPath (d : Directory) (p : Path) (m : Metadata) (q : Path) :
    (d.setMetadataPath p m).metadataOf q = if q = p then m else d.metadataOf q := by
  have hmeta : (d.setMetadataPath p m).metadata = d.metadata.insert p m := by
    unfold setMetadataPath
    simp only
    split <;> rfl
  unfold metadataOf
  rw [hmeta, SortedMap.find_insert]
  split <;> rfl

lemma linkID_setMetadataPath (d : Directory) (p : Path) (m : Metadata) (q : Path) :
    (d.setMetadataPath p m).linkID q = if q = p then m.hardLink else d.linkID q := by
  unfold linkID
  rw [metadataOf_setMetadataPath]
  split <;> rfl

lemma linkID_kept {p : Path} {m : Metadata} (hm : m.hardLink = d.linkID p) (q : Path) :
    (d.setMetadataPath p m).linkID q = d.linkID q := by
  rw [linkID_setMetadataPath]
  split
  next hq => rw [hq, hm]
  · rfl

lemma linkID_insert {p : Path} {m : Metadata} (hm : m.hardLink = d.linkID p) (q : Path) :
    ({ d with metadata := d.metadata.insert p m } : Directory).linkID q = d.linkID q := by
  unfold linkID metadataOf
  simp only [SortedMap.find_insert]
  split
  next hq =>
    rw [hq]
    exact hm
  · rfl

section

variable (d : Directory) (p : Path) (m : Metadata) (hne : d.linkID p ≠ m.hardLink) (id : Nat) (hid : id ≠ 0)

include hne

/-- A path with a new identity moves in both tables. -/
lemma setMetadataPath_moves : (d.setMetadataPath p m).hardLinkNames =
      moveName d.hardLinkNames p (d.linkID p) m.hardLink ∧
    (d.setMetadataPath p m).hardLinkRefs = (moveRef d.hardLinkRefs d.nextHardLink (d.linkID p) m.hardLink).1 := by
  unfold setMetadataPath
  simp only
  rw [if_pos (show (d.metadataOf p).hardLink ≠ m.hardLink from hne)]
  exact ⟨rfl, rfl⟩

include hid

/-- The names of a group after a change of identity. -/
lemma names_setMetadataPath : (d.setMetadataPath p m).names id =
      if id = m.hardLink then d.names id ++ [p] else if id = d.linkID p then (d.names id).erase p else d.names id := by
  unfold names
  rw [(setMetadataPath_moves d p m hne).1]
  exact find_moveEntry [] (·.erase _) (· ++ [_]) _ hne id hid

/-- The count of a group after a change of identity. -/
lemma refs_setMetadataPath : (d.setMetadataPath p m).refs id =
      if id = m.hardLink then d.refs id + 1 else if id = d.linkID p then d.refs id - 1 else d.refs id := by
  unfold Directory.refs
  rw [(setMetadataPath_moves d p m hne).2]
  rw [moveRef_fst]
  exact find_moveEntry 0 (· - 1) (· + 1) _ hne id hid

end

/-- A change of identity keeps the tables right. -/
lemma linked_setMetadataPath (h : Linked d) (p : Path) (m : Metadata) : Linked (d.setMetadataPath p m) := by
  by_cases hsame : d.linkID p = m.hardLink
  · -- the identity stays, and so do the tables
    have hid : (d.setMetadataPath p m).linkID = d.linkID := funext (linkID_kept hsame.symm)
    have hkeep : d.setMetadataPath p m = { d with metadata := d.metadata.insert p m } := by
      have hstay : ¬ (d.metadataOf p).hardLink ≠ m.hardLink := not_not.mpr hsame
      simp only [setMetadataPath, if_neg hstay]
    exact linked_congr h hid (by rw [hkeep]; rfl) (by rw [hkeep]; rfl)
  refine ⟨fun id hid => ?_, fun id q hid => ?_, fun id hid => ?_⟩
  · rw [names_setMetadataPath d p m hsame id hid]
    split
    next heq =>
      subst heq
      have hnot : p ∉ d.names m.hardLink := fun hp => hsame ((h.mem _ p hid).mp hp)
      refine List.Nodup.append (h.nodup _ hid) (nodup_singleton p) ?_
      intro q hq hq'
      rw [mem_singleton.mp hq'] at hq
      exact hnot hq
    · split
      · exact (h.nodup _ hid).erase p
      · exact h.nodup _ hid
  · rw [names_setMetadataPath d p m hsame id hid, linkID_setMetadataPath]
    split
    next heq =>
      subst heq
      rw [mem_append, mem_singleton, h.mem _ q hid]
      split
      next hq => simp [hq]
      next hq => simp [hq]
    next hnew =>
    split
    next hold =>
      rw [(h.nodup _ hid).mem_erase_iff, h.mem _ q hid]
      split
      next hq =>
        subst hq
        simp [Ne.symm hnew]
      next hq => simp [hq]
    next hold =>
    rw [h.mem _ q hid]
    split
    next hq =>
      subst hq
      constructor
      · exact fun heq => absurd heq.symm hold
      · exact fun heq => absurd heq.symm hnew
    · rfl
  rw [names_setMetadataPath d p m hsame id hid, refs_setMetadataPath d p m hsame id hid]
  split
  · rw [length_append, length_singleton, h.refs _ hid]
  · split
    next hold => rw [length_erase_of_mem ((h.mem _ p hid).mpr hold.symm), h.refs _ hid]
    · exact h.refs _ hid

/-! ## The other operations -/

lemma linked_dropMetadata (h : Linked d) (p : Path) : Linked (d.dropMetadata p) := by
  refine linked_congr (linked_setMetadataPath h p {}) ?_ rfl rfl
  funext q
  have hset := linkID_setMetadataPath d p {} q
  rw [hset]
  unfold linkID metadataOf dropMetadata
  simp only [SortedMap.find_erase]
  split
  · rfl
  next hq =>
  have hoth := metadataOf_setMetadataPath d p {} q
  rw [if_neg hq] at hoth
  exact congrArg Metadata.hardLink hoth

lemma foldl_keeps {P : Directory → Prop} {f : Directory → Path → Directory}
    (hstep : ∀ d p, P d → P (f d p)) (ps : List Path) (h : P d) : P (ps.foldl f d) := by
  induction ps generalizing d with
  | nil => exact h
  | cons p ps ih => exact ih (hstep d p h)

section

variable (h : Linked d)

include h

lemma linked_insert (p : Path) (m : Metadata) (hm : m.hardLink = d.linkID p)
    : Linked { d with metadata := d.metadata.insert p m } :=
  linked_congr h (funext (linkID_insert hm)) rfl rfl

/-- Writing shared metadata to a group keeps its identity. -/
lemma linked_shareMetadata (m : Metadata) {share : Metadata → Metadata}
    (hshare : ∀ m, (share m).hardLink = m.hardLink) : Linked (d.shareMetadata m share) := by
  unfold shareMetadata
  split
  · refine foldl_keeps (fun d p h => ?_) _ h
    split
    · exact linked_insert h p _ (hshare _)
    · exact h
  · exact h

lemma linked_shareFileAttributes (m : Metadata) : Linked (d.shareFileAttributes m) := by
  unfold shareFileAttributes
  split
  · refine foldl_keeps (fun d p h => ?_) _ h
    split
    · exact linked_congr (linked_insert h p { d.metadataOf p with
        fileAttributes := m.fileAttributes, hasFileAttributes := true } rfl) rfl rfl rfl
    · exact h
  · exact h

lemma linked_putFilePath (p : Path) (file : FileRecord) : Linked (d.putFilePath p file) := by
  have hlinks := links_putFilePath d p file
  simp only [links, Prod.mk.injEq] at hlinks
  obtain ⟨-, -, hmeta, hrefs, hnames⟩ := hlinks
  exact linked_of_tables h hmeta hrefs hnames

lemma linked_linkTo (src destination : Path) (file : FileRecord) (m : Metadata)
    : Linked (d.linkTo src destination file m) := by
  unfold linkTo
  simp only
  have hset := linked_setMetadataPath (linked_putFilePath h destination file) destination
    { m with shortName := ((d.putFilePath destination file).metadataOf destination).shortName }
  generalize (d.putFilePath destination file).setMetadataPath destination _ = d1 at hset ⊢
  split <;> exact linked_congr hset rfl rfl rfl

/-- A hard link keeps the tables right. -/
lemma linked_hardLink (hlink : d.hardLink src destination = .ok d') : Linked d' := by
  unfold hardLink at hlink
  simp only at hlink
  split at hlink
  · cases hlink
  split at hlink
  · split at hlink
    · cases hlink
    · cases hlink
      refine linked_linkTo (linked_setMetadataPath ?_ _ _) _ _ _ _
      exact linked_congr h rfl rfl rfl
  · cases hlink
    exact linked_linkTo h _ _ _ _

lemma linked_remove (hrem : d.remove name = .ok d') : Linked d' := by
  unfold remove at hrem
  simp only at hrem
  split at hrem
  · cases hrem
  cases hrem
  refine linked_of_links ?_ (linked_dropMetadata (d := { d with
    files := d.files.erase (cleanPath name) }) ?_ (cleanPath name))
  · exact links_namespaceEntryChanged _ _ _
  · exact linked_congr h rfl rfl rfl

lemma linked_removeEmptyDirectory (hrem : d.removeEmptyDirectory name = .ok d') : Linked d' := by
  unfold removeEmptyDirectory at hrem
  simp only at hrem
  split at hrem
  · cases hrem
  split at hrem
  · cases hrem
  split at hrem
  · cases hrem
  have hens := linked_of_links (links_ensureChildren d) h
  generalize d.ensureChildren = d1 at hens hrem
  cases hrem
  refine linked_congr (linked_dropMetadata ?_ (cleanPath name)) rfl rfl rfl
  exact linked_congr hens rfl rfl rfl

lemma linked_setReparse {tag : Nat} {data : File} (hset : d.setReparse name tag data = .ok d') : Linked d' := by
  unfold setReparse at hset
  obtain ⟨-, -, hset⟩ := bind_ok hset
  split at hset
  · cases hset
  split at hset
  · cases hset
  simp only at hset
  split at hset
  · cases hset
  · cases hset
    exact linked_setMetadataPath h _ _

lemma linked_setAttributes {attrs : Attributes}
    (hset : d.setAttributes name attrs = .ok d') : Linked d' := by
  unfold setAttributes at hset
  obtain ⟨-, -, hset⟩ := bind_ok hset
  cases hset
  exact linked_congr h rfl rfl rfl

end

/-- A change that all paths of a group share: it looks neither at the short name nor at the
identity. -/
structure Sharing (share : Metadata → Metadata) : Prop where
  id : ∀ m, (share m).hardLink = m.hardLink
  blind : ∀ m : Metadata, { share m with shortName := [], hardLink := 0 } =
    share { m with shortName := [], hardLink := 0 }
  idem : ∀ m, share (share m) = share m

/-- What the setters of metadata do: they write to all names of a group. -/
def Sets (d d' : Directory) : Prop :=
  ∃ p share, Sharing share ∧ d' = (d.setMetadataPath p (share (d.metadataOf p))).shareMetadata
    (share (d.metadataOf p)) share

lemma sets_setSecurity {name descriptor : Bytes} (hset : d.setSecurity name descriptor = .ok d') : Sets d d' := by
  unfold setSecurity at hset
  obtain ⟨-, -, hset⟩ := bind_ok hset
  split at hset
  · cases hset
  · exact ⟨cleanPath name, fun m => { m with securityDescriptor := descriptor },
      ⟨fun _ => rfl, fun _ => rfl, fun _ => rfl⟩, (Except.ok.inj hset).symm⟩

lemma sets_setTimes {creation write acc : Nat}
    (hset : d.setTimes name creation write acc = .ok d') : Sets d d' := by
  unfold setTimes at hset
  obtain ⟨-, -, hset⟩ := bind_ok hset
  exact ⟨cleanPath name, fun m => { m with
      creationTime := creation, lastWriteTime := write, lastAccessTime := acc },
    ⟨fun _ => rfl, fun _ => rfl, fun _ => rfl⟩, (Except.ok.inj hset).symm⟩

lemma sets_setExtendedAttributes {u : Unicode} {eas : List ExtendedAttribute}
    (hset : d.setExtendedAttributes u name eas = .ok d') : Sets d d' := by
  unfold setExtendedAttributes at hset
  obtain ⟨-, -, hset⟩ := bind_ok hset
  obtain ⟨-, -, hset⟩ := bind_ok hset
  exact ⟨cleanPath name, fun m => { m with extendedAttributes := eas },
    ⟨fun _ => rfl, fun _ => rfl, fun _ => rfl⟩, (Except.ok.inj hset).symm⟩

/-- The setters of metadata keep the tables right. -/
lemma linked_sets (h : Linked d) (hset : Sets d d') : Linked d' := by
  obtain ⟨p, share, hshare, rfl⟩ := hset
  exact linked_shareMetadata (linked_setMetadataPath h _ _) _ hshare.id

lemma linked_setFileAttributes (h : Linked d) {attrs : Nat}
    (hset : d.setFileAttributes name attrs = .ok d') : Linked d' := by
  unfold setFileAttributes at hset
  obtain ⟨-, -, hset⟩ := bind_ok hset
  split at hset
  · cases hset
  · cases hset
    refine linked_shareFileAttributes ?_ _
    exact linked_congr (linked_setMetadataPath h _ _) rfl rfl rfl

/-- Every call keeps the tables right. -/
lemma linked_step (u : Unicode) (h : Linked d) (op : Op) : Linked (d.step u op) := by
  cases op with
  | mkdir name => exact linked_of_links (links_mkdirPath d _) h
  | putFile name file => exact linked_putFilePath h _ file
  | hardLink src destination => exact after_keeps h fun _ => linked_hardLink h
  | remove name => exact after_keeps h fun _ => linked_remove h
  | removeEmptyDirectory name =>
    exact afterRmdir_keeps h (linked_of_links (links_ensureChildren d) h)
      fun _ => linked_removeEmptyDirectory h
  | clone => exact linked_congr h rfl rfl rfl
  | setMetadata name metadata => exact linked_setMetadataPath h _ metadata
  | setAttributes name attributes => exact after_keeps h fun _ => linked_setAttributes h
  | setReparse name tag data => exact after_keeps h fun _ => linked_setReparse h
  | setSecurity name descriptor => exact after_keeps h fun _ hset => linked_sets h (sets_setSecurity hset)
  | setTimes name creation write access => exact after_keeps h fun _ hset => linked_sets h (sets_setTimes hset)
  | setExtendedAttributes name eas =>
    exact after_keeps h fun _ hset => linked_sets h (sets_setExtendedAttributes hset)
  | setFileAttributes name attributes => exact after_keeps h fun _ => linked_setFileAttributes h
  | listDir name => exact linked_of_links (links_ensureChildren d) h
  | files => exact linked_of_links (links_fileList d) h
  | pathNames lower includeEmpty => exact linked_of_links (links_pathNamesQuery u d _ _) h
  | fatShortPath name => exact linked_of_links (links_fatShortPath u d name) h

lemma linked_new : Linked new := by
  refine ⟨fun id _ => nodup_nil, fun id p hid => ?_, fun id _ => rfl⟩
  constructor
  · intro h
    exact absurd h not_mem_nil
  · intro h
    exact absurd h.symm hid

/-- Every sequence of calls keeps the tables right. -/
lemma linked_run (u : Unicode) (ops : List Op) : Linked (new.run u ops) :=
  run_keeps (P := Linked) (fun _ op h => linked_step u h op) linked_new ops

/-! ## New groups -/

lemma linkID_putFilePath (d : Directory) (p : Path) (file : FileRecord) :
    (d.putFilePath p file).linkID = d.linkID := by
  have hlinks := links_putFilePath d p file
  simp only [links, Prod.mk.injEq] at hlinks
  funext q
  simp only [linkID, metadataOf, hlinks.2.2.1]

lemma linkID_linkTo (d : Directory) (src destination : Path) (file : FileRecord) (m : Metadata)
    (q : Path) : (d.linkTo src destination file m).linkID q =
      if q = destination then m.hardLink else d.linkID q := by
  have hset := linkID_setMetadataPath (d.putFilePath destination file) destination
    { m with shortName := ((d.putFilePath destination file).metadataOf destination).shortName } q
  rw [linkID_putFilePath] at hset
  unfold linkTo
  simp only
  generalize (d.putFilePath destination file).setMetadataPath destination _ = d1 at hset ⊢
  split <;> exact hset

/-- The identity that is found is unused. -/
lemma freeIdentity_free {turns id n : Nat} (h : d.freeIdentity turns id = some n) : d.refs n = 0 ∧ id ≤ n := by
  induction turns generalizing id with
  | zero => simp [freeIdentity] at h
  | succ turns ih =>
  rw [freeIdentity] at h
  split at h
  · simp at h
  split at h
  next hfree =>
    cases h
    exact ⟨hfree, Nat.le_refl _⟩
  · obtain ⟨hfree, hle⟩ := ih h
    exact ⟨hfree, by omega⟩

/-- An identity without names belongs to no path. -/
lemma Linked.unused (h : Linked d) (hid : id ≠ 0) (hrefs : d.refs id = 0) (p : Path) : d.linkID p ≠ id := by
  intro hp
  have hmem := (h.mem id p hid).mpr hp
  rw [h.refs id hid, length_eq_zero_iff] at hrefs
  rw [hrefs] at hmem
  exact absurd hmem not_mem_nil

/-- The first link of a file makes a group of two names. -/
lemma hardLink_new_group (h : Linked d) (hlink : d.hardLink src destination = .ok d')
    (hzero : d.linkID (cleanPath src) = 0) : d'.linkID (cleanPath src) ≠ 0 ∧
      (∀ p, d.linkID p ≠ d'.linkID (cleanPath src)) ∧ ∀ p, d'.linkID p = d'.linkID (cleanPath src) →
        p = cleanPath src ∨ p = cleanPath destination := by
  unfold hardLink at hlink
  simp only at hlink
  split at hlink
  · cases hlink
  rw [if_pos (show (d.metadataOf (cleanPath src)).hardLink = 0 from hzero)] at hlink
  split at hlink
  · cases hlink
  next id hfree =>
  obtain ⟨hrefs, hstart⟩ := freeIdentity_free hfree
  have hid : id ≠ 0 := by split at hstart <;> omega
  have hunused := h.unused hid hrefs
  have hids : ∀ q, d'.linkID q = if q = cleanPath destination then id
      else if q = cleanPath src then id else d.linkID q := by
    intro q
    cases hlink
    rw [linkID_linkTo, linkID_setMetadataPath]
    rfl
  have hsource : d'.linkID (cleanPath src) = id := by
    rw [hids]
    split
    · rfl
    · rw [if_pos rfl]
  refine ⟨by rw [hsource]; exact hid, by rw [hsource]; exact hunused, fun p hp => ?_⟩
  rw [hsource, hids] at hp
  split at hp
  next hq => exact .inr hq
  split at hp
  next hq => exact .inl hq
  · exact absurd hp (hunused p)

/-- **The tables of the links agree with the metadata** in every directory that any sequence
of operations leaves, and a new group takes an identity that no path carries. -/
theorem hardLink_bookkeeping (u : Unicode) (ops : List Op) :
    (∀ id, id ≠ 0 →
      (new.run u ops).refs id = Set.ncard {p | (new.run u ops).linkID p = id} ∧
      ((new.run u ops).names id).Nodup ∧
      ∀ p, p ∈ (new.run u ops).names id ↔ (new.run u ops).linkID p = id) ∧
    ∀ source destination d', (new.run u ops).hardLink source destination = .ok d' →
      (new.run u ops).linkID (cleanPath source) = 0 →
      d'.linkID (cleanPath source) ≠ 0 ∧
        (∀ p, (new.run u ops).linkID p ≠ d'.linkID (cleanPath source)) ∧
        ∀ p, d'.linkID p = d'.linkID (cleanPath source) → p = cleanPath source ∨ p = cleanPath destination := by
  have h := linked_run u ops
  generalize new.run u ops = d at h
  refine ⟨fun id hid => ⟨?_, h.nodup id hid, fun p => h.mem id p hid⟩,
    fun source destination d' hlink hzero => hardLink_new_group h hlink hzero⟩
  have hset : {p | d.linkID p = id} = ((d.names id).toFinset : Set Path) := by
    ext p
    simp [h.mem id p hid]
  rw [hset, Set.ncard_coe_finset, List.toFinset_card_of_nodup (h.nodup id hid), h.refs id hid]

def oneFile : List Op := [.putFile (ascii "a") { data := [120], size := 1 }]

/-- A file with a second name, whose times are then set through that name. -/
def linkedFile : List Op :=
  [.putFile (ascii "a") { data := [120], size := 1 }, .hardLink (ascii "a") (ascii "b"), .setTimes (ascii "b") 1 2 3]

/-- Two names share the first identity, which the first link of `a` takes: the only paths that carry
it are `a` and `b`. -/
theorem hardLink_bookkeeping_linkedFile :
    Set.ncard {p | (new.run plain linkedFile).linkID p = 1} = 2 ∧
      ∃ d', (new.run plain oneFile).hardLink (ascii "a") (ascii "b") = .ok d' ∧
        d'.linkID (cleanPath (ascii "a")) = 1 ∧
        (∀ p, (new.run plain oneFile).linkID p ≠ 1) ∧
        ∀ p, d'.linkID p = 1 → p = cleanPath (ascii "a") ∨ p = cleanPath (ascii "b") := by
  have hrefs : (new.run plain linkedFile).refs 1 = 2 := by decide +kernel
  have hcount := ((hardLink_bookkeeping plain linkedFile).1 1 one_ne_zero).1
  obtain ⟨d', hlink, hid⟩ : ∃ d', (new.run plain oneFile).hardLink (ascii "a") (ascii "b") = .ok d' ∧
      d'.linkID (cleanPath (ascii "a")) = 1 := ⟨_, rfl, by decide +kernel⟩
  obtain ⟨-, hfree, honly⟩ := (hardLink_bookkeeping plain oneFile).2 _ _ d' hlink (by decide +kernel)
  rw [hid] at hfree honly
  exact ⟨hcount.symm.trans hrefs, d', hlink, hid, hfree, honly⟩

end Directory

end Trex.Filesystem
