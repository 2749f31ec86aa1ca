import Trex.Filesystem.HardLinks

/-!
# Hard-linked paths as one object

What belongs to a file is kept for each path.  The setters of metadata write it to all aliases;
`PutFile`, `SetAttributes` and the raw `SetMetadata` to one path only.  Aliases agree as long as these
three do not change one path of a group alone (`Careful`).
-/

namespace Trex.Filesystem

open Checked SortedMap
open Bytes (ascii)

/-- Contents, attributes and metadata of a path; the short name and the identity are not
part of it. -/
structure Object where
  content : Option (Option File × Bytes × Nat)
  attributes : Option Attributes
  metadata : Metadata

namespace Directory

/-- What a file holds. -/
def contentOf (file : FileRecord) : Option File × Bytes × Nat := (file.file, file.data, file.size)

/-- The object behind a path. -/
def objectAt (d : Directory) (p : Path) : Object where
  content := (d.files.find p).map contentOf
  attributes := d.attributes.find p
  metadata := { d.metadataOf p with shortName := [], hardLink := 0 }

/-- Two paths with the same identity are one object. -/
def Shared (d : Directory) : Prop :=
  ∀ p q, d.linkID p ≠ 0 → d.linkID p = d.linkID q → d.objectAt p = d.objectAt q

/-- The call does not change one path of a group alone. -/
def Careful (d : Directory) : Op → Prop
  | .putFile name file => ∀ q, q ≠ cleanPath name → d.linkID q ≠ 0 →
      d.linkID q = d.linkID (cleanPath name) → (d.objectAt q).content = some (contentOf file)
  | .setAttributes name attributes => ∀ q, q ≠ cleanPath name → d.linkID q ≠ 0 →
      d.linkID q = d.linkID (cleanPath name) → (d.objectAt q).attributes = some attributes
  | .setMetadata name metadata => ∀ q, q ≠ cleanPath name → d.linkID q ≠ 0 →
      d.linkID q = metadata.hardLink →
      d.objectAt q = { d.objectAt (cleanPath name) with
        metadata := { metadata with shortName := [], hardLink := 0 } }
  | _ => True

/-- Every call of the run is careful. -/
def CarefulRun (u : Unicode) : Directory → List Op → Prop
  | _, [] => True
  | d, op :: ops => d.Careful op ∧ CarefulRun u (d.step u op) ops

/-! ## Changes of one path -/

variable {d d' d1 : Directory} {p q src : Path} {file : FileRecord} {m : Metadata} {name : Bytes}
  {f : Directory → Path → Directory} {F : Object → Object}

lemma shared_congr (h : Shared d) (hid : d'.linkID = d.linkID) (hobj : d'.objectAt = d.objectAt) : Shared d' := by
  unfold Shared
  rw [hid, hobj]
  exact h

lemma shared_of_links (heq : d'.links = d.links) (h : Shared d) : Shared d' := by
  obtain ⟨hfiles, hattrs, hmeta, -, -⟩ := fields_of_links heq
  refine shared_congr h ?_ ?_
  · funext p
    simp only [linkID, metadataOf, hmeta]
  · funext p
    simp only [objectAt, metadataOf, hfiles, hattrs, hmeta]

/-- One path changes and agrees with those whose identity it has afterwards. -/
lemma shared_of_one (h : Shared d) (p : Path) (hid : ∀ q, q ≠ p → d'.linkID q = d.linkID q)
    (hobj : ∀ q, q ≠ p → d'.objectAt q = d.objectAt q)
    (hp : ∀ q, q ≠ p → d.linkID q ≠ 0 → d.linkID q = d'.linkID p → d.objectAt q = d'.objectAt p) : Shared d' := by
  intro a b hne heq
  by_cases ha : a = p
  · by_cases hb : b = p
    · rw [ha, hb]
    · rw [ha] at hne heq ⊢
      rw [hid b hb] at heq
      rw [hobj b hb]
      exact (hp b hb (heq ▸ hne) heq.symm).symm
  by_cases hb : b = p
  · rw [hb] at heq ⊢
    rw [hid a ha] at hne heq
    rw [hobj a ha]
    exact hp a ha hne heq
  · rw [hid a ha] at hne heq
    rw [hid b hb] at heq
    rw [hobj a ha, hobj b hb]
    exact h a b hne heq

lemma objectAt_putFilePath (d : Directory) (p : Path) (file : FileRecord) (q : Path) :
    (d.putFilePath p file).objectAt q =
      if q = p then { d.objectAt q with content := some (contentOf file) } else d.objectAt q := by
  have hlinks := links_putFilePath d p file
  simp only [links, Prod.mk.injEq] at hlinks
  obtain ⟨hfiles, hattrs, hmeta, -, -⟩ := hlinks
  unfold objectAt metadataOf
  rw [hfiles, hattrs, hmeta, find_insert]
  split <;> rfl

/-- Storing a file is careful if its group has the same content. -/
lemma shared_putFilePath (h : Shared d) (p : Path) (file : FileRecord)
    (hcare : ∀ q, q ≠ p → d.linkID q ≠ 0 → d.linkID q = d.linkID p →
      (d.objectAt q).content = some (contentOf file)) : Shared (d.putFilePath p file) := by
  refine shared_of_one h p ?_ ?_ ?_
  · intro q _
    rw [linkID_putFilePath]
  · intro q hq
    rw [objectAt_putFilePath, if_neg hq]
  · intro q hq hne heq
    rw [linkID_putFilePath] at heq
    rw [objectAt_putFilePath, if_pos rfl, ← h q p hne heq, ← hcare q hq hne heq]

lemma setMetadataPath_frame (d : Directory) (p : Path) (m : Metadata) :
    (d.setMetadataPath p m).files = d.files ∧ (d.setMetadataPath p m).attributes = d.attributes := by
  unfold setMetadataPath
  simp only
  split <;> exact ⟨rfl, rfl⟩

/-- A change of metadata changes one object. -/
lemma objectAt_setMetadataPath (d : Directory) (p : Path) (m : Metadata) (q : Path) :
    (d.setMetadataPath p m).objectAt q =
      if q = p then { d.objectAt q with metadata := { m with shortName := [], hardLink := 0 } } else d.objectAt q := by
  unfold objectAt
  rw [(setMetadataPath_frame d p m).1, (setMetadataPath_frame d p m).2, metadataOf_setMetadataPath]
  split <;> rfl

/-- A path may join a group whose object it has. -/
lemma shared_setMetadataPath (h : Shared d) (p : Path) (m : Metadata)
    (hcare : ∀ q, q ≠ p → d.linkID q ≠ 0 → d.linkID q = m.hardLink →
      d.objectAt q = { d.objectAt p with metadata := { m with shortName := [], hardLink := 0 } }) :
    Shared (d.setMetadataPath p m) := by
  refine shared_of_one h p ?_ ?_ ?_
  · intro q hq
    rw [linkID_setMetadataPath, if_neg hq]
  · intro q hq
    rw [objectAt_setMetadataPath, if_neg hq]
  · intro q hq hne heq
    rw [linkID_setMetadataPath, if_pos rfl] at heq
    rw [objectAt_setMetadataPath, if_pos rfl]
    exact hcare q hq hne heq

lemma metadataOf_dropMetadata (d : Directory) (hq : q ≠ p) : (d.dropMetadata p).metadataOf q = d.metadataOf q := by
  have hset := metadataOf_setMetadataPath d p {} q
  rw [if_neg hq] at hset
  rw [← hset]
  unfold metadataOf dropMetadata
  simp only [find_erase, if_neg hq]

lemma objectAt_dropMetadata (d : Directory) (hq : q ≠ p) : (d.dropMetadata p).objectAt q = d.objectAt q := by
  have hset := objectAt_setMetadataPath d p {} q
  rw [if_neg hq] at hset
  rw [← hset]
  unfold objectAt metadataOf dropMetadata
  simp only [find_erase, if_neg hq]

/-- A path that loses its metadata leaves its group, whatever else it lost before. -/
lemma shared_dropMetadata (h : Shared d) (p : Path) (hid : ∀ q, q ≠ p → d1.linkID q = d.linkID q)
    (hobj : ∀ q, q ≠ p → d1.objectAt q = d.objectAt q) : Shared (d1.dropMetadata p) := by
  have hself : (d1.dropMetadata p).linkID p = 0 := by
    unfold linkID metadataOf dropMetadata
    simp [find_erase]
  refine shared_of_one h p ?_ ?_ ?_
  · intro q hq
    rw [← hid q hq]
    unfold linkID
    rw [metadataOf_dropMetadata d1 hq]
  · intro q hq
    rw [objectAt_dropMetadata d1 hq, hobj q hq]
  · intro q _ hne heq
    rw [hself] at heq
    exact absurd heq hne

/-! ## Links -/

/-- The link has the content, attributes and metadata of its source. -/
lemma objectAt_linkTo (d : Directory) (src dst : Path) (file : FileRecord) (m : Metadata)
    (q : Path) : (d.linkTo src dst file m).objectAt q =
      if q = dst then ⟨some (contentOf file), d.attributes.find src,
        { m with shortName := [], hardLink := 0 }⟩ else d.objectAt q := by
  have hput := objectAt_putFilePath d dst file q
  have hset := objectAt_setMetadataPath (d.putFilePath dst file) dst
    { m with shortName := ((d.putFilePath dst file).metadataOf dst).shortName } q
  have hattributes : ((d.putFilePath dst file).setMetadataPath dst
      { m with shortName := ((d.putFilePath dst file).metadataOf dst).shortName }).attributes =
      d.attributes := by
    have hlinks := links_putFilePath d dst file
    simp only [links, Prod.mk.injEq] at hlinks
    rw [← hlinks.2.1, (setMetadataPath_frame _ _ _).2]
  unfold linkTo
  simp only
  generalize (d.putFilePath dst file).setMetadataPath dst _ = d1 at hset hattributes ⊢
  rw [hattributes]
  by_cases hq : q = dst
  · rw [if_pos hq] at hset hput ⊢
    rw [hput] at hset
    have hcont : (d1.objectAt q).content = some (contentOf file) := by rw [hset]
    have hmeta : (d1.objectAt q).metadata = { m with shortName := [], hardLink := 0 } := by rw [hset]
    split <;>
    next hattrs =>
      rw [hattrs, ← hcont, ← hmeta, hq]
      unfold objectAt metadataOf
      simp only [find_insert, find_erase, if_pos]
  rw [if_neg hq] at hset hput ⊢
  rw [hput] at hset
  rw [← hset]
  split <;>
  · unfold objectAt metadataOf
    simp only [hattributes, find_insert, find_erase, if_neg hq]

/-- A link to a path that carries the identity of the metadata. -/
lemma shared_linkTo (h : Shared d) (dst : Path) (hid : d.linkID src = m.hardLink)
    (hfile : d.files.find src = some file)
    (hmeta : (d.objectAt src).metadata = { m with shortName := [], hardLink := 0 }) :
    Shared (d.linkTo src dst file m) := by
  refine shared_of_one h dst ?_ ?_ ?_
  · intro q hq
    rw [linkID_linkTo, if_neg hq]
  · intro q hq
    rw [objectAt_linkTo, if_neg hq]
  intro q _ hne heq
  rw [linkID_linkTo, if_pos rfl, ← hid] at heq
  rw [objectAt_linkTo, if_pos rfl, h q src hne heq, ← hmeta]
  unfold objectAt
  rw [hfile]
  rfl

/-- A link under an identity that no path carries yet. -/
lemma shared_newGroup (h : Shared d) (dst : Path) (m : Metadata)
    (hunused : ∀ q, d.linkID q ≠ m.hardLink) (hfile : d.files.find src = some file) :
    Shared ((d.setMetadataPath src m).linkTo src dst file m) := by
  have hset : Shared (d.setMetadataPath src m) :=
    shared_setMetadataPath h src m fun q _ _ heq => absurd heq (hunused q)
  refine shared_linkTo hset dst ?_ ?_ ?_
  · rw [linkID_setMetadataPath, if_pos rfl]
  · rw [(setMetadataPath_frame _ _ _).1, hfile]
  · rw [objectAt_setMetadataPath, if_pos rfl]

/-- A hard link shares its object. -/
lemma shared_hardLink (hlinked : Linked d) (h : Shared d) {src dst : Bytes}
    (hlink : d.hardLink src dst = .ok d') : Shared d' := by
  unfold hardLink at hlink
  simp only at hlink
  split at hlink
  · cases hlink
  next file hfile =>
  split at hlink
  · split at hlink
    · cases hlink
    next id hfree =>
    obtain ⟨hrefs, hstart⟩ := freeIdentity_free hfree
    have hid : id ≠ 0 := by split at hstart <;> omega
    have hunused : ∀ q, ({ d with nextHardLink := id } : Directory).linkID q ≠ id := hlinked.unused hid hrefs
    have hnext : Shared { d with nextHardLink := id } := h
    have hfiles : ({ d with nextHardLink := id } : Directory).files.find (cleanPath src) = some file := hfile
    generalize ({ d with nextHardLink := id } : Directory) = d0 at hunused hnext hfiles hlink
    cases hlink
    exact shared_newGroup hnext _ _ hunused hfiles
  · cases hlink
    exact shared_linkTo h _ rfl hfile rfl

/-! ## Setters -/

/-- A group of one has no other path. -/
lemma Linked.alone (h : Linked d) (hne : d.linkID p ≠ 0) (hrefs : d.refs (d.linkID p) ≤ 1)
    (heq : d.linkID q = d.linkID p) : q = p := by
  have hp := (h.mem _ p hne).mpr rfl
  have hq := (h.mem _ q hne).mpr heq
  rw [h.refs _ hne] at hrefs
  match hnames : d.names (d.linkID p), hp, hq, hrefs with
  | [a], hp, hq, _ => rw [List.mem_singleton.mp hp, List.mem_singleton.mp hq]
  | a :: b :: rest, _, _, hrefs => simp at hrefs

lemma shared_setReparse (hlinked : Linked d) (h : Shared d) {tag : Nat} {data : File}
    (hset : d.setReparse name tag data = .ok d') : Shared d' := by
  unfold setReparse at hset
  obtain ⟨-, -, hset⟩ := bind_ok hset
  split at hset
  · cases hset
  split at hset
  · cases hset
  simp only at hset
  split at hset
  · cases hset
  next hsingle =>
  cases hset
  refine shared_setMetadataPath h _ _ fun q hq hne heq => ?_
  have hid : d.linkID q = d.linkID (cleanPath name) := heq
  rw [hid] at hne
  refine absurd (hlinked.alone hne ?_ hid) hq
  exact Nat.not_lt.mp fun hmany => hsingle ⟨hne, hmany⟩

lemma shared_setAttributes (h : Shared d) {attributes : Attributes}
    (hcare : d.Careful (.setAttributes name attributes))
    (hset : d.setAttributes name attributes = .ok d') : Shared d' := by
  unfold setAttributes at hset
  obtain ⟨-, -, hset⟩ := bind_ok hset
  cases hset
  refine shared_of_one h (cleanPath name) (fun _ _ => rfl) ?_ ?_
  · intro q hq
    unfold objectAt
    simp only [find_insert, if_neg hq]
    rfl
  intro q hq hne heq
  have hsame := h q (cleanPath name) hne heq
  have hattrs := hcare q hq hne heq
  have hnew : ({ d with attributes := d.attributes.insert (cleanPath name) attributes } :
      Directory).objectAt (cleanPath name) =
      { d.objectAt (cleanPath name) with attributes := some attributes } := by
    unfold objectAt
    simp only [find_insert, if_pos]
    rfl
  rw [hnew, ← hsame, ← hattrs]

/-- A loop over aliases that changes the objects of those with the identity. -/
lemma objectAt_foldl {id : Nat} (hself : ∀ d p, d.linkID p = id → (f d p).objectAt p = F (d.objectAt p))
    (hskip : ∀ d p, d.linkID p ≠ id → f d p = d) (hoth : ∀ d p q, q ≠ p → (f d p).objectAt q = d.objectAt q)
    (hid : ∀ d p q, (f d p).linkID q = d.linkID q) (ps : List Path) (hps : ps.Nodup) (d : Directory)
    (q : Path) : (ps.foldl f d).objectAt q = (if q ∈ ps ∧ d.linkID q = id then F (d.objectAt q) else d.objectAt q) ∧
      (ps.foldl f d).linkID q = d.linkID q := by
  induction ps generalizing d with
  | nil => simp
  | cons p ps ih =>
  obtain ⟨hnot, hrest⟩ := List.nodup_cons.mp hps
  obtain ⟨hobj, hlink⟩ := ih hrest (f d p)
  rw [List.foldl_cons]
  refine ⟨?_, hlink.trans (hid d p q)⟩
  rw [hobj, hid]
  by_cases hq : q = p
  · subst hq
    rw [if_neg (fun hmem => hnot hmem.1)]
    by_cases hmine : d.linkID q = id
    · rw [if_pos ⟨List.mem_cons_self, hmine⟩, hself d q hmine]
    · rw [if_neg (fun hmem => hmine hmem.2), hskip d q hmine]
  · rw [hoth d p q hq]
    simp only [List.mem_cons, hq, false_or]

/-- All paths of a group change in the same way. -/
lemma shared_of_group (h : Shared d) (F : Object → Object) {G : Path → Prop}
    (hid : ∀ q, d'.linkID q = d.linkID q) (hG : ∀ a b, d.linkID a ≠ 0 → d.linkID a = d.linkID b → G a → G b)
    (hgroup : ∀ q, G q → d'.objectAt q = F (d.objectAt q))
    (hoth : ∀ q, ¬ G q → d'.objectAt q = d.objectAt q) : Shared d' := by
  intro a b hne heq
  rw [hid a] at hne heq
  rw [hid b] at heq
  have hsame := h a b hne heq
  by_cases ha : G a
  · rw [hgroup a ha, hgroup b (hG a b hne heq ha), hsame]
  · have hb : ¬ G b := fun hb => ha (hG b a (heq ▸ hne) heq.symm hb)
    rw [hoth a ha, hoth b hb, hsame]

/-- A setter: the path itself, then its aliases if there are any. -/
lemma shared_share (h : Shared d) (hlinked : Linked d1) (hF : ∀ o, F (F o) = F o)
    (hids : ∀ q, d1.linkID q = d.linkID q) (hp : d1.objectAt p = F (d.objectAt p))
    (hq : ∀ q, q ≠ p → d1.objectAt q = d.objectAt q)
    (hself : ∀ d' q, d'.linkID q = d.linkID p → (f d' q).objectAt q = F (d'.objectAt q))
    (hskip : ∀ d' q, d'.linkID q ≠ d.linkID p → f d' q = d')
    (hoth : ∀ d' q r, r ≠ q → (f d' q).objectAt r = d'.objectAt r)
    (hid : ∀ d' q r, (f d' q).linkID r = d'.linkID r) : Shared (if d.linkID p ≠ 0 ∧ d1.refs (d.linkID p) > 1
      then (d1.names (d.linkID p)).foldl f d1 else d1) := by
  split
  next hmany =>
    have hloop := objectAt_foldl hself hskip hoth hid _ (hlinked.nodup _ hmany.1) d1
    refine shared_of_group h F (G := fun q => d.linkID q = d.linkID p)
      (fun q => (hloop q).2.trans (hids q)) (fun a b _ heq ha => heq.symm.trans ha) ?_ ?_
    · intro q hgroup
      have hsame : d1.linkID q = d.linkID p := (hids q).trans hgroup
      rw [(hloop q).1, if_pos ⟨(hlinked.mem _ q hmany.1).mpr hsame, hsame⟩]
      by_cases hqp : q = p
      · rw [hqp, hp, hF]
      · rw [hq q hqp]
    · intro q hgroup
      rw [(hloop q).1, if_neg (fun hmem => hgroup ((hids q).symm.trans hmem.2)),
        hq q (fun hqp => hgroup (by rw [hqp]))]
  next hfew =>
    -- the path has no alias, so its group is the path itself
    refine shared_of_group h F (G := (· = p)) hids ?_ (fun q hqp => by rw [hqp, hp]) hq
    rintro a b hne heq rfl
    rw [← hids a] at hne hfew
    refine hlinked.alone hne (Nat.not_lt.mp fun hmany => hfew ⟨hne, hmany⟩) ?_
    rw [hids b, ← heq, hids a]

lemma objectAt_insert (d : Directory) (p : Path) (m : Metadata) (q : Path) :
    ({ d with metadata := d.metadata.insert p m } : Directory).objectAt q =
      if q = p then { d.objectAt q with metadata := { m with shortName := [], hardLink := 0 } } else d.objectAt q := by
  unfold objectAt metadataOf
  simp only [find_insert]
  split <;> rfl

/-- Metadata that is written to the whole group stays shared. -/
lemma shared_shareMetadata (hlinked : Linked d) (h : Shared d) (p : Path)
    {share : Metadata → Metadata} (hshare : Sharing share) :
    Shared ((d.setMetadataPath p (share (d.metadataOf p))).shareMetadata (share (d.metadataOf p)) share) := by
  obtain ⟨hid, hblind, hidem⟩ := hshare
  have hids : ∀ q, (d.setMetadataPath p (share (d.metadataOf p))).linkID q = d.linkID q := linkID_kept (hid _)
  unfold shareMetadata
  rw [hid]
  refine shared_share h (linked_setMetadataPath hlinked p _)
    (F := fun o => { o with metadata := share o.metadata }) ?_ hids ?_ ?_ ?_ ?_ ?_ ?_
  · intro o
    rw [hidem]
  · rw [objectAt_setMetadataPath, if_pos rfl, hblind]
    rfl
  · intro q hq
    rw [objectAt_setMetadataPath, if_neg hq]
  · intro d' q heq
    rw [if_pos (show (d'.metadataOf q).hardLink = (d.metadataOf p).hardLink from heq),
      objectAt_insert, if_pos rfl, hblind]
    rfl
  · intro d' q hne
    rw [if_neg (show ¬ (d'.metadataOf q).hardLink = (d.metadataOf p).hardLink from hne)]
  · intro d' q r hr
    split
    · rw [objectAt_insert, if_neg hr]
    · rfl
  · intro d' q r
    split
    · rw [linkID_insert (hid _)]
    · rfl

lemma objectAt_eraseAttributes (d : Directory) (p q : Path) :
    ({ d with attributes := d.attributes.erase p } : Directory).objectAt q =
      if q = p then { d.objectAt q with attributes := none } else d.objectAt q := by
  unfold objectAt
  simp only [find_erase]
  split <;> rfl

/-- An object after `SetFileAttributes`. -/
def withFileAttributes (value : Nat) (o : Object) : Object :=
  { o with
    attributes := none
    metadata := { o.metadata with fileAttributes := value, hasFileAttributes := true } }

lemma objectAt_setFlags (d : Directory) (p : Path) (val : Nat) (q : Path) : ({ d with
        metadata := d.metadata.insert p { d.metadataOf p with fileAttributes := val, hasFileAttributes := true }
        attributes := d.attributes.erase p } : Directory).objectAt q =
      if q = p then withFileAttributes val (d.objectAt q) else d.objectAt q := by
  unfold objectAt metadataOf
  simp only [find_insert, find_erase]
  split
  next hq =>
    rw [hq]
    rfl
  · rfl

lemma shared_shareFileAttributes (hlinked : Linked d) (h : Shared d) (p : Path) {value : Nat}
    (hm : m = { d.metadataOf p with fileAttributes := value, hasFileAttributes := true }) :
    Shared (({ d.setMetadataPath p m with
      attributes := (d.setMetadataPath p m).attributes.erase p } : Directory).shareFileAttributes m) := by
  have hid : m.hardLink = d.linkID p := by
    rw [hm]
    rfl
  have hval : m.fileAttributes = value := by rw [hm]
  have hset := linked_setMetadataPath hlinked p m
  have hids : ∀ q, (d.setMetadataPath p m).linkID q = d.linkID q := linkID_kept hid
  have hobj : ∀ q, (d.setMetadataPath p m).objectAt q =
      if q = p then { d.objectAt q with metadata := { m with shortName := [], hardLink := 0 } }
      else d.objectAt q := objectAt_setMetadataPath d p m
  generalize d.setMetadataPath p m = d1 at hset hids hobj ⊢
  have hlinked1 : Linked { d1 with attributes := d1.attributes.erase p } := linked_congr hset rfl rfl rfl
  unfold shareFileAttributes
  rw [hid, hval]
  refine shared_share h hlinked1 (F := withFileAttributes value) (fun o => rfl) hids ?_ ?_ ?_ ?_ ?_ ?_
  · rw [objectAt_eraseAttributes, if_pos rfl, hobj, if_pos rfl, hm]
    rfl
  · intro q hq
    rw [objectAt_eraseAttributes, if_neg hq, hobj, if_neg hq]
  · intro d' q heq
    rw [if_pos (show (d'.metadataOf q).hardLink = _ from heq), objectAt_setFlags, if_pos rfl]
  · intro d' q hne
    rw [if_neg (show ¬ (d'.metadataOf q).hardLink = _ from hne)]
  · intro d' q r hr
    split
    · rw [objectAt_setFlags, if_neg hr]
    · rfl
  · intro d' q r
    split
    · exact linkID_insert (d := d') (p := q) (m := { d'.metadataOf q with
        fileAttributes := value, hasFileAttributes := true }) rfl r
    · rfl

/-! ## Removal -/

lemma shared_remove (h : Shared d) (hrem : d.remove name = .ok d') : Shared d' := by
  unfold remove at hrem
  simp only at hrem
  split at hrem
  · cases hrem
  have hdropped : Shared (({ d with files := d.files.erase (cleanPath name) } :
      Directory).dropMetadata (cleanPath name)) := by
    refine shared_dropMetadata h _ (fun _ _ => rfl) fun q hq => ?_
    unfold objectAt
    simp only [find_erase, if_neg hq]
    rfl
  generalize ({ d with files := d.files.erase (cleanPath name) } :
    Directory).dropMetadata (cleanPath name) = d1 at hdropped hrem
  cases hrem
  exact shared_of_links (links_namespaceEntryChanged _ _ _) hdropped

lemma shared_removeEmptyDirectory (h : Shared d) (hrem : d.removeEmptyDirectory name = .ok d') : Shared d' := by
  unfold removeEmptyDirectory at hrem
  simp only at hrem
  split at hrem
  · cases hrem
  split at hrem
  · cases hrem
  split at hrem
  · cases hrem
  have hens := shared_of_links (links_ensureChildren d) h
  generalize d.ensureChildren = d1 at hens hrem
  cases hrem
  refine shared_congr (shared_dropMetadata hens (cleanPath name) ?_ ?_) rfl rfl
  · exact fun _ _ => rfl
  · exact fun _ _ => rfl

/-! ## Runs -/

lemma shared_sets (hlinked : Linked d) (h : Shared d) (hset : Sets d d') : Shared d' := by
  obtain ⟨p, share, hshare, rfl⟩ := hset
  exact shared_shareMetadata hlinked h p hshare

lemma shared_setFileAttributes (hlinked : Linked d) (h : Shared d) {attrs : Nat}
    (hset : d.setFileAttributes name attrs = .ok d') : Shared d' := by
  unfold setFileAttributes at hset
  obtain ⟨-, -, hset⟩ := bind_ok hset
  split at hset
  · cases hset
  · cases hset
    exact shared_shareFileAttributes hlinked h (cleanPath name) rfl

/-- A careful call keeps the objects shared. -/
lemma shared_step (u : Unicode) (hlinked : Linked d) (h : Shared d) {op : Op}
    (hcare : d.Careful op) : Shared (d.step u op) := by
  cases op with
  | mkdir name => exact shared_of_links (links_mkdirPath d _) h
  | putFile name file => exact shared_putFilePath h _ file hcare
  | hardLink src dst => exact after_keeps h fun _ => shared_hardLink hlinked h
  | remove name => exact after_keeps h fun _ => shared_remove h
  | removeEmptyDirectory name =>
    exact afterRmdir_keeps h (shared_of_links (links_ensureChildren d) h)
      fun _ => shared_removeEmptyDirectory h
  | clone => exact shared_congr h rfl rfl
  | setMetadata name metadata => exact shared_setMetadataPath h _ metadata hcare
  | setAttributes name attributes => exact after_keeps h fun _ => shared_setAttributes h hcare
  | setReparse name tag data => exact after_keeps h fun _ => shared_setReparse hlinked h
  | setSecurity name descriptor => exact after_keeps h fun _ hset => shared_sets hlinked h (sets_setSecurity hset)
  | setTimes name creation write access =>
    exact after_keeps h fun _ hset => shared_sets hlinked h (sets_setTimes hset)
  | setExtendedAttributes name eas =>
    exact after_keeps h fun _ hset => shared_sets hlinked h (sets_setExtendedAttributes hset)
  | setFileAttributes name attributes => exact after_keeps h fun _ => shared_setFileAttributes hlinked h
  | listDir name => exact shared_of_links (links_ensureChildren d) h
  | files => exact shared_of_links (links_fileList d) h
  | pathNames lower includeEmpty => exact shared_of_links (links_pathNamesQuery u d _ _) h
  | fatShortPath name => exact shared_of_links (links_fatShortPath u d name) h

/-- A careful run keeps the objects shared. -/
lemma shared_run (u : Unicode) (ops : List Op) (hlinked : Linked d) (h : Shared d)
    (hcare : CarefulRun u d ops) : Shared (d.run u ops) := by
  induction ops generalizing d with
  | nil => exact h
  | cons op ops ih => exact ih (linked_step u hlinked op) (shared_step u hlinked h hcare.1) hcare.2

/-- Paths with the same identity have the same contents, attributes and metadata after any
run that never changes one path of a group alone. -/
theorem hardLinked_paths_agree (u : Unicode) (ops : List Op) (hcareful : CarefulRun u new ops)
    (p q : Path) (hne : (new.run u ops).linkID p ≠ 0)
    (heq : (new.run u ops).linkID p = (new.run u ops).linkID q) :
    (new.run u ops).objectAt p = (new.run u ops).objectAt q :=
  shared_run u ops linked_new (fun _ _ hne _ => absurd rfl hne) hcareful p q hne heq

/-- Two names of one file after a careful run. -/
theorem hardLinked_paths_agree_linkedFile :
    (new.run plain linkedFile).linkID (cleanPath (ascii "a")) ≠ 0 ∧
      (new.run plain linkedFile).objectAt (cleanPath (ascii "a")) =
        (new.run plain linkedFile).objectAt (cleanPath (ascii "b")) :=
  ⟨by decide +kernel, hardLinked_paths_agree plain linkedFile
    ⟨fun _ _ hne _ => absurd rfl hne, trivial, trivial, trivial⟩ _ _
    (by decide +kernel) (by decide +kernel)⟩

/-- A file that is put again under one of its two names. -/
def overwrittenAlias : List Op :=
  [.putFile (ascii "a") { data := [120], size := 1 }, .hardLink (ascii "a") (ascii "b"),
    .putFile (ascii "a") { data := [121], size := 1 }]

/-- Writing to one name gives it another object than the other name has. -/
theorem overwrittenAlias_disagrees :
    (new.run plain overwrittenAlias).linkID (cleanPath (ascii "a")) ≠ 0 ∧
      (new.run plain overwrittenAlias).linkID (cleanPath (ascii "a")) =
        (new.run plain overwrittenAlias).linkID (cleanPath (ascii "b")) ∧
      (new.run plain overwrittenAlias).objectAt (cleanPath (ascii "a")) ≠
        (new.run plain overwrittenAlias).objectAt (cleanPath (ascii "b")) := by
  refine ⟨by decide +kernel, by decide +kernel, fun heq => ?_⟩
  have hdata := congrArg (fun o => o.content.map fun c => c.2.1) heq
  revert hdata
  decide +kernel

end Directory

end Trex.Filesystem
