import Mathlib.Data.List.Infix
import Trex.Repo.Git

/-!
# The references of a Git object

`ParseGitTree` and `GitLinks` of `repo/git_graph.go`.  A function that calls a visitor is the list of its
calls with the error that ends them.  `Refers` says from the text what an object refers to;
`refers_mem_gitLinks`: when `GitLinks` gets through, it has visited every reference.
-/

namespace Trex.GitStore

open List Prod

open Slice
open Bytes (ascii)

open Trex.Repo (GitOID Env gitCommit gitTree gitBlob gitTag gitLength gitValid zeroOID gitOIDFromBytes parseGitOID)

/-- The errors of the import; a constructor stands for one text of the source. -/
inductive Err where
  -- the Git graph
  | treeMode
  | modeNumber
  | treeTruncated
  | modeUnsupported
  | objectType
  | noSeparator
  | commitReference
  | commitTree
  | tagTarget
  | tagHeader
  -- the storer
  | edgeConflict
  | edgeMismatch
  | reconstructedType
  | referencedType
  | importLimit
  | storageLimit
  -- deltas
  | deltaSize
  | deltaBaseSize
  | deltaOutputLimit
  | deltaLiteral
  | unexpectedEOF
  | deltaOutside
  | deltaOverflow
  | deltaExtentLimit
  | deltaOutputSize
  -- packs
  | packCount
  | inflatedLimit
  | inflatedLength
  | scheduledBase
  | missingOrCyclic
  | dependencyLimit
  | checksum
  | packIdentity
  | incompleteGraph
  | objectCount
  -- the repository and what is below it
  | conflict
  | canceled
  | failed
  | poisoned
  | gitBody
  | gitBase
  | repo (e : Repo.Err)
  deriving DecidableEq, Repr

/-- The identity with the given digest; the zero identity when it has no digest's length. -/
def gitOID (hash : Bytes) : GitOID :=
  match gitOIDFromBytes hash with
  | .ok id => id
  | .error _ => zeroOID

/-- The type with a name. -/
def gitType (name : Bytes) : UInt8 :=
  if name = ascii "commit" then gitCommit
  else if name = ascii "tree" then gitTree
  else if name = ascii "blob" then gitBlob
  else if name = ascii "tag" then gitTag
  else 0

/-! ## Trees -/

/-- `strconv.ParseUint(text, 8, 32)`. -/
def parseOctal (text : Bytes) : Option Nat :=
  if text = [] ∨ text.any (fun c => c.toNat < 48 || 55 < c.toNat) then none
  else
    let value := text.foldl (fun n c => 8 * n + (c.toNat - 48)) 0
    if value < 2 ^ 32 then some value else none

/-- An entry of a tree as the parser gives it. -/
structure GitTreeEntry where
  mode : Nat
  name : Bytes
  oid : GitOID
  deriving DecidableEq, Repr

/-- The file type in a mode. -/
def modeType (mode : Nat) : Nat := mode / 2 ^ 12 % 2 ^ 4

def typeDirectory : Nat := 4
def typeFile : Nat := 8
def typeSymlink : Nat := 10
def typeGitlink : Nat := 14

/-- One turn of the loop of `parseGitTree`: an entry and what follows it. -/
def parseTreeEntry (hashBytes : Nat) (data : Bytes) : Except Err (GitTreeEntry × Bytes) :=
  match data.findIdx? (· == 32) with
  | none | some 0 => .error .treeMode
  | some (space + 1) =>
      match parseOctal (data.take (space + 1)) with
      | none => .error .modeNumber
      | some mode =>
          let data := data.drop (space + 2)
          match data.findIdx? (· == 0) with
          | none | some 0 => .error .treeTruncated
          | some (last + 1) =>
              if data.length < last + 2 + hashBytes then .error .treeTruncated
              else if modeType mode ∈ [typeDirectory, typeFile, typeSymlink, typeGitlink] then
                .ok (⟨mode, data.take (last + 1), gitOID (slice data (last + 2) hashBytes)⟩,
                  data.drop (last + 2 + hashBytes))
              else .error .modeUnsupported

/-- The entries that `parseGitTree` visits; every turn takes bytes off the data. -/
def parseGitTree (hashBytes : Nat) : Nat → Bytes → List GitTreeEntry × Option Err
  | 0, _ => ([], none)
  | turns + 1, data =>
      if data = [] then ([], none)
      else
        match parseTreeEntry hashBytes data with
        | .error e => ([], some e)
        | .ok (entry, rest) =>
            let (entries, err) := parseGitTree hashBytes turns rest
            (entry :: entries, err)

/-- The visitor that `GitLinks` gives to `parseGitTree`. -/
def GitTreeEntry.link (entry : GitTreeEntry) : Option (GitOID × UInt8) :=
  if modeType entry.mode = typeGitlink then none
  else if modeType entry.mode = typeDirectory then some (entry.oid, gitTree)
  else some (entry.oid, gitBlob)

/-! ## Commits and tags -/

/-- `bytes.Index(data, "\n\n")`. -/
def headerEnd : Bytes → Option Nat
  | a :: b :: rest =>
      if a = 10 ∧ b = 10 then some 0 else (headerEnd (b :: rest)).map (· + 1)
  | _ => none

/-- `bytes.Cut(line, " ")`. -/
def cut (line : Bytes) : Option (Bytes × Bytes) :=
  (line.findIdx? (· == 32)).map fun i => (line.take i, line.drop (i + 1))

/-- The local variables of the loop over the header lines. -/
structure LinkCounts where
  treeCount : Nat := 0
  objectCount : Nat := 0
  typeCount : Nat := 0
  target : GitOID := zeroOID
  targetKind : UInt8 := 0

/-- An identity of the right length in a header. -/
def headerOID (hashBytes : Nat) (value : Bytes) (e : Err) : Except Err GitOID :=
  match parseGitOID value with
  | .error _ => .error e
  | .ok id => if gitLength id = hashBytes then .ok id else .error e

/-- One header line: the visit it makes, if any, and the variables after it. -/
def headerLine (kind : UInt8) (hashBytes : Nat) (line : Bytes) (counts : LinkCounts) :
    Except Err (Option (GitOID × UInt8) × LinkCounts) :=
  match cut line with
  | none => .ok (none, counts)
  | some (field, value) =>
      if kind = gitCommit ∧ field = ascii "tree" then
        match headerOID hashBytes value .commitReference with
        | .error e => .error e
        | .ok id => .ok (some (id, gitTree), { counts with treeCount := counts.treeCount + 1 })
      else if kind = gitCommit ∧ field = ascii "parent" then
        match headerOID hashBytes value .commitReference with
        | .error e => .error e
        | .ok id => .ok (some (id, gitCommit), counts)
      else if kind = gitTag ∧ field = ascii "object" then
        match headerOID hashBytes value .tagTarget with
        | .error e => .error e
        | .ok id => .ok (none, { counts with target := id, objectCount := counts.objectCount + 1 })
      else if kind = gitTag ∧ field = ascii "type" then
        .ok (none, { counts with targetKind := gitType value, typeCount := counts.typeCount + 1 })
      else .ok (none, counts)

/-- The lines of a header, until one is wrong. -/
def headerLines (kind : UInt8) (hashBytes : Nat) :
    List Bytes → LinkCounts → List (GitOID × UInt8) × Except Err LinkCounts
  | [], counts => ([], .ok counts)
  | line :: lines, counts =>
      match headerLine kind hashBytes line counts with
      | .error e => ([], .error e)
      | .ok (visit, next) =>
          let (visits, last) := headerLines kind hashBytes lines next
          (visit.toList ++ visits, last)

/-- The visits of `GitLinks` and the error that ends them. -/
def gitLinks (kind : UInt8) (data : Bytes) (hashBytes : Nat) :
    List (GitOID × UInt8) × Option Err :=
  if kind = gitBlob then ([], none)
  else if kind = gitTree then
    let (entries, err) := parseGitTree hashBytes data.length data
    (entries.filterMap GitTreeEntry.link, err)
  else if kind ≠ gitCommit ∧ kind ≠ gitTag then ([], some .objectType)
  else
    match headerEnd data with
    | none => ([], some .noSeparator)
    | some last =>
        match headerLines kind hashBytes ((data.take last).splitOn 10) {} with
        | (visits, .error e) => (visits, some e)
        | (visits, .ok counts) =>
            if kind = gitCommit then
              (visits, if counts.treeCount ≠ 1 then some .commitTree else none)
            else if counts.objectCount ≠ 1 ∨ counts.typeCount ≠ 1 ∨ counts.targetKind = 0 then
              (visits, some .tagHeader)
            else (visits ++ [(counts.target, counts.targetKind)], none)

/-! ## What an object refers to -/

/-- A well-formed entry of a tree. -/
structure TreeItem where
  mode : Bytes
  name : Bytes
  hash : Bytes
  mode_ne : mode ≠ []
  mode_plain : 32 ∉ mode
  name_ne : name ≠ []
  name_plain : 0 ∉ name
  length_hash : hash.length = 20

/-- An entry as it is stored. -/
def TreeItem.text (item : TreeItem) : Bytes := item.mode ++ 32 :: item.name ++ 0 :: item.hash

/-- The type of the object behind an entry; a gitlink names a commit of another
repository. -/
def TreeItem.target (item : TreeItem) : Option UInt8 :=
  match parseOctal item.mode with
  | none => none
  | some mode =>
      if modeType mode = typeGitlink then none
      else if modeType mode = typeDirectory then some gitTree
      else some gitBlob

/-- A line of the header, which ends before the first empty line. -/
def HeaderLine (body line : Bytes) : Prop :=
  ∃ header rest, body = header ++ [10, 10] ++ rest ∧ ¬ [10, 10] <:+: header ++ [10] ∧ line ∈ header.splitOn 10

/-- The references of an object: a commit to its tree and its parents, a tree to its
subtrees and blobs, a tag to its target. -/
inductive Refers : UInt8 → Bytes → GitOID → UInt8 → Prop where
  | entry (items : List TreeItem) (item : TreeItem) (kind : UInt8) :
      item ∈ items → item.target = some kind →
      Refers gitTree (items.flatMap TreeItem.text) (gitOID item.hash) kind
  | tree (body text : Bytes) (oid : GitOID) :
      HeaderLine body (ascii "tree " ++ text) → parseGitOID text = .ok oid →
      Refers gitCommit body oid gitTree
  | parent (body text : Bytes) (oid : GitOID) :
      HeaderLine body (ascii "parent " ++ text) → parseGitOID text = .ok oid →
      Refers gitCommit body oid gitCommit
  | target (body text name : Bytes) (oid : GitOID) :
      HeaderLine body (ascii "object " ++ text) → parseGitOID text = .ok oid →
      HeaderLine body (ascii "type " ++ name) → Refers gitTag body oid (gitType name)

/-! ## Every reference is visited -/

lemma findIdx?_stop {c : UInt8} {l : Bytes} (h : c ∉ l) (rest : Bytes) :
    (l ++ c :: rest).findIdx? (· == c) = some l.length := by
  induction l with
  | nil => simp [List.findIdx?_cons]
  | cons a l ih =>
  have ha : a ≠ c := fun heq => h (heq ▸ mem_cons_self)
  rw [cons_append, List.findIdx?_cons, beq_eq_false_iff_ne.mpr ha, ih fun hmem => h (mem_cons_of_mem a hmem)]
  rfl

/-- A well-formed entry is parsed as what it says. -/
lemma parseTreeEntry_text {item : TreeItem} {rest rest' : Bytes} {entry : GitTreeEntry}
    (h : parseTreeEntry 20 (item.text ++ rest) = .ok (entry, rest')) :
    rest' = rest ∧ entry.oid = gitOID item.hash ∧ parseOctal item.mode = some entry.mode := by
  have htext : item.text ++ rest = item.mode ++ 32 :: (item.name ++ 0 :: (item.hash ++ rest)) := by
    simp [TreeItem.text]
  obtain ⟨space, hspace⟩ : ∃ space, item.mode.length = space + 1 :=
    ⟨item.mode.length - 1, by have := length_pos_of_ne_nil item.mode_ne; omega⟩
  obtain ⟨last, hlast⟩ : ∃ last, item.name.length = last + 1 :=
    ⟨item.name.length - 1, by have := length_pos_of_ne_nil item.name_ne; omega⟩
  have htake : (item.mode ++ 32 :: (item.name ++ 0 :: (item.hash ++ rest))).take (space + 1) =
      item.mode := by rw [← hspace, take_left]
  have hdrop : (item.mode ++ 32 :: (item.name ++ 0 :: (item.hash ++ rest))).drop (space + 2) =
      item.name ++ 0 :: (item.hash ++ rest) := by
    rw [show space + 2 = item.mode.length + 1 by omega, drop_append]
    simp
  have hhash : slice (item.name ++ 0 :: (item.hash ++ rest)) (last + 2) 20 = item.hash := by
    have hdropName : (item.name ++ 0 :: (item.hash ++ rest)).drop (last + 2) = item.hash ++ rest := by
      rw [show last + 2 = item.name.length + 1 by omega, drop_append]
      simp
    rw [slice, hdropName, ← item.length_hash, take_left]
  have hrest : (item.name ++ 0 :: (item.hash ++ rest)).drop (last + 2 + 20) = rest := by
    rw [show last + 2 + 20 = item.name.length + (item.hash.length + 1) by
      have := item.length_hash; omega, drop_append]
    simp
  rw [htext, parseTreeEntry, findIdx?_stop item.mode_plain, hspace] at h
  dsimp only at h
  rw [htake] at h
  cases hmode : parseOctal item.mode with
  | none => simp [hmode] at h
  | some mode =>
  rw [hmode] at h
  rw [hdrop, findIdx?_stop item.name_plain, hlast] at h
  dsimp only at h
  rw [hhash, hrest] at h
  split at h
  · simp at h
  split at h
  · simp only [Except.ok.injEq, mk.injEq] at h
    obtain ⟨rfl, rfl⟩ := h
    exact ⟨rfl, rfl, rfl⟩
  · simp at h

/-- Every entry of a tree is among the parsed ones. -/
lemma parseGitTree_items (items : List TreeItem) (turns : Nat) (entries : List GitTreeEntry)
    (hturns : (items.flatMap TreeItem.text).length ≤ turns)
    (h : parseGitTree 20 turns (items.flatMap TreeItem.text) = (entries, none))
    (item : TreeItem) (hitem : item ∈ items) :
    ∃ entry ∈ entries, entry.oid = gitOID item.hash ∧ parseOctal item.mode = some entry.mode := by
  induction items generalizing turns entries with
  | nil => simp at hitem
  | cons first items ih =>
  rw [flatMap_cons] at h hturns
  have hne : first.text ≠ [] := by simp [TreeItem.text]
  have hpos := length_pos_of_ne_nil hne
  cases turns with
  | zero => rw [length_append] at hturns; omega
  | succ turns =>
  rw [parseGitTree, if_neg (by simp [hne])] at h
  cases hparse : parseTreeEntry 20 (first.text ++ items.flatMap TreeItem.text) with
  | error e => simp [hparse] at h
  | ok r =>
  obtain ⟨entry, rest⟩ := r
  obtain ⟨rfl, hoid, hmode⟩ := parseTreeEntry_text hparse
  rw [hparse] at h
  obtain ⟨rfl, hnone⟩ := mk.inj h
  rcases mem_cons.mp hitem with rfl | hitem
  · exact ⟨entry, mem_cons_self, hoid, hmode⟩
  · rw [length_append] at hturns
    obtain ⟨entry', hmem, hent'⟩ := ih turns _ (by omega) (Prod.ext rfl hnone) hitem
    exact ⟨entry', mem_cons_of_mem _ hmem, hent'⟩

/-- The header ends at the first empty line. -/
lemma headerEnd_append (header rest : Bytes) (h : ¬ [10, 10] <:+: header ++ [10]) :
    headerEnd (header ++ 10 :: 10 :: rest) = some header.length := by
  induction header with
  | nil => simp [headerEnd]
  | cons a header ih =>
  have htail : ¬ [10, 10] <:+: header ++ [10] := fun hin => h (hin.trans (suffix_cons a _).isInfix)
  have hrec := ih htail
  cases header with
  | nil =>
    have ha : a ≠ 10 := by
      rintro rfl
      exact h ⟨[], [], by simp⟩
    simp [headerEnd, ha] at hrec ⊢
  | cons b header =>
  have hab : ¬ (a = 10 ∧ b = 10) := by
    rintro ⟨rfl, rfl⟩
    exact h ⟨[], header ++ [10], by simp⟩
  simp only [cons_append] at hrec ⊢
  rw [headerEnd, if_neg hab, hrec]
  simp

lemma cut_append {field value : Bytes} (h : 32 ∉ field) : cut (field ++ 32 :: value) = some (field, value) := by
  rw [cut, findIdx?_stop h]
  simp

variable {value line body : Bytes} {oid : GitOID} {counts next last : LinkCounts}
  {visit : Option (GitOID × UInt8)} {kind : UInt8} {lines : List Bytes}
  {visits edges : List (GitOID × UInt8)}

lemma headerOID_ok {e : Err} (h : headerOID 20 value e = .ok oid) : parseGitOID value = .ok oid := by
  rw [headerOID] at h
  cases hparse : parseGitOID value with
  | error e => simp [hparse] at h
  | ok id =>
  rw [hparse] at h
  dsimp only at h
  split at h
  · exact congrArg _ (Except.ok.inj h)
  · simp at h

/-- A `tree` line visits its tree. -/
lemma headerLine_tree (hoid : parseGitOID value = .ok oid)
    (h : headerLine gitCommit 20 (ascii "tree " ++ value) counts = .ok (visit, next)) :
    visit = some (oid, gitTree) := by
  have hcut : cut (ascii "tree " ++ value) = some (ascii "tree", value) := @cut_append (ascii "tree") _ (by decide)
  rw [headerLine, hcut] at h
  dsimp only at h
  rw [if_pos ⟨rfl, rfl⟩] at h
  cases hid : headerOID 20 value .commitReference with
  | error e => simp [hid] at h
  | ok id =>
  have := headerOID_ok hid
  rw [hoid] at this
  simp only [hid, Except.ok.injEq, mk.injEq] at h this
  rw [← h.1, this]

/-- A `parent` line visits its commit. -/
lemma headerLine_parent (hoid : parseGitOID value = .ok oid)
    (h : headerLine gitCommit 20 (ascii "parent " ++ value) counts = .ok (visit, next)) :
    visit = some (oid, gitCommit) := by
  have hcut : cut (ascii "parent " ++ value) = some (ascii "parent", value) :=
    @cut_append (ascii "parent") _ (by decide)
  rw [headerLine, hcut] at h
  dsimp only at h
  rw [if_neg (by decide), if_pos ⟨rfl, rfl⟩] at h
  cases hid : headerOID 20 value .commitReference with
  | error e => simp [hid] at h
  | ok id =>
  have := headerOID_ok hid
  rw [hoid] at this
  simp only [hid, Except.ok.injEq, mk.injEq] at h this
  rw [← h.1, this]

/-- What a line makes every pass over the header visit is visited. -/
lemma headerLines_visit {edge : GitOID × UInt8}
    (hline : ∀ counts visit next, headerLine kind 20 line counts = .ok (visit, next) →
      visit = some edge) (hmem : line ∈ lines)
    (h : headerLines kind 20 lines counts = (visits, .ok last)) : edge ∈ visits := by
  induction lines generalizing counts visits with
  | nil => simp at hmem
  | cons first lines ih =>
  rw [headerLines] at h
  cases hfirst : headerLine kind 20 first counts with
  | error e => simp [hfirst] at h
  | ok r =>
  obtain ⟨visit, next⟩ := r
  rw [hfirst] at h
  obtain ⟨rfl, hlast⟩ := mk.inj h
  rcases mem_cons.mp hmem with rfl | hmem
  · rw [hline _ _ _ hfirst]
    simp
  · exact mem_append_right _ (ih hmem (Prod.ext rfl hlast))

/-- What a line of a tag can be. -/
lemma headerLine_tag (h : headerLine gitTag 20 line counts = .ok (visit, next)) :
    (∃ value oid, cut line = some (ascii "object", value) ∧ parseGitOID value = .ok oid ∧
      next = { counts with target := oid, objectCount := counts.objectCount + 1 }) ∨
    (∃ value, cut line = some (ascii "type", value) ∧
      next = { counts with targetKind := gitType value, typeCount := counts.typeCount + 1 }) ∨
    (∀ value, cut line ≠ some (ascii "object", value) ∧ cut line ≠ some (ascii "type", value)) ∧ next = counts := by
  have hkind : ¬ gitTag = gitCommit := by decide
  rw [headerLine] at h
  cases hcut : cut line with
  | none =>
    simp only [hcut, Except.ok.injEq, mk.injEq] at h
    exact .inr (.inr ⟨by simp, h.2.symm⟩)
  | some pair =>
  obtain ⟨field, value⟩ := pair
  rw [hcut] at h
  dsimp only at h
  rw [if_neg fun hc => hkind hc.1, if_neg fun hc => hkind hc.1] at h
  split at h
  next hobj =>
    cases hid : headerOID 20 value .tagTarget with
    | error e => simp [hid] at h
    | ok id =>
      simp only [hid, Except.ok.injEq, mk.injEq] at h
      exact .inl ⟨value, id, by rw [hobj.2], headerOID_ok hid, h.2.symm⟩
  next hobj =>
  split at h
  next htype =>
    simp only [Except.ok.injEq, mk.injEq] at h
    exact .inr (.inl ⟨value, by rw [htype.2], h.2.symm⟩)
  next htype =>
  simp only [Except.ok.injEq, mk.injEq] at h
  refine .inr (.inr ⟨fun v => ⟨fun heq => hobj ⟨rfl, ?_⟩, fun heq => htype ⟨rfl, ?_⟩⟩, h.2.symm⟩) <;> simp_all

/-- A header with one line of a sort keeps what this line says. -/
lemma headerLines_tag (h : headerLines gitTag 20 lines counts = (visits, .ok last)) :
    (counts.objectCount ≤ last.objectCount ∧ counts.typeCount ≤ last.typeCount) ∧
    (last.objectCount = counts.objectCount → last.target = counts.target) ∧
    (last.typeCount = counts.typeCount → last.targetKind = counts.targetKind) ∧
    (∀ line ∈ lines, ∀ value oid, cut line = some (ascii "object", value) →
      parseGitOID value = .ok oid → counts.objectCount < last.objectCount ∧
        (last.objectCount = counts.objectCount + 1 → last.target = oid)) ∧
    ∀ line ∈ lines, ∀ value, cut line = some (ascii "type", value) → counts.typeCount < last.typeCount ∧
        (last.typeCount = counts.typeCount + 1 → last.targetKind = gitType value) := by
  induction lines generalizing counts visits with
  | nil =>
    simp only [headerLines, Prod.mk.injEq, Except.ok.injEq] at h
    simp [h.2]
  | cons first lines ih =>
  rw [headerLines] at h
  cases hfirst : headerLine gitTag 20 first counts with
  | error e => simp [hfirst] at h
  | ok r =>
  obtain ⟨visit, next⟩ := r
  rw [hfirst] at h
  simp only [Prod.mk.injEq] at h
  obtain ⟨⟨hobj, htype⟩, htarget, hkind, hobjs, htypes⟩ := ih (Prod.ext rfl h.2)
  have hne : ascii "object" ≠ ascii "type" := by decide
  rcases headerLine_tag hfirst with ⟨v, id, hcut, hid, rfl⟩ | ⟨v, hcut, rfl⟩ | ⟨hno, rfl⟩
  · dsimp only at hobj htype htarget hkind hobjs htypes
    refine ⟨⟨by omega, htype⟩, fun heq => by omega, hkind, ?_, ?_⟩
    · intro line hline value oid hc hoid
      rcases mem_cons.mp hline with rfl | hline
      · rw [hcut] at hc
        obtain rfl : v = value := by simpa using hc
        rw [hid, Except.ok.injEq] at hoid
        exact ⟨by omega, fun heq => by rw [htarget heq, hoid]⟩
      · have := (hobjs line hline value oid hc hoid).1
        exact ⟨by omega, fun heq => by omega⟩
    · intro line hline value hc
      rcases mem_cons.mp hline with rfl | hline
      · rw [hcut] at hc
        exact absurd (congrArg Prod.fst (Option.some.inj hc)) hne
      · exact htypes line hline value hc
  · dsimp only at hobj htype htarget hkind hobjs htypes
    refine ⟨⟨hobj, by omega⟩, htarget, fun heq => by omega, ?_, ?_⟩
    · intro line hline value oid hc hoid
      rcases mem_cons.mp hline with rfl | hline
      · rw [hcut] at hc
        exact absurd (congrArg Prod.fst (Option.some.inj hc)).symm hne
      · exact hobjs line hline value oid hc hoid
    intro line hline value hc
    rcases mem_cons.mp hline with rfl | hline
    · rw [hcut] at hc
      obtain rfl : v = value := by simpa using hc
      exact ⟨by omega, hkind⟩
    · have := (htypes line hline value hc).1
      exact ⟨by omega, fun heq => by omega⟩
  refine ⟨⟨hobj, htype⟩, htarget, hkind, ?_, ?_⟩
  · intro line hline value oid hc hoid
    rcases mem_cons.mp hline with rfl | hline
    · exact absurd hc (hno value).1
    · exact hobjs line hline value oid hc hoid
  · intro line hline value hc
    rcases mem_cons.mp hline with rfl | hline
    · exact absurd hc (hno value).2
    · exact htypes line hline value hc

lemma HeaderLine.headerEnd (h : HeaderLine body line) :
    ∃ last, GitStore.headerEnd body = some last ∧ line ∈ (body.take last).splitOn 10 := by
  obtain ⟨header, rest, rfl, hnone, hline⟩ := h
  refine ⟨header.length, ?_, ?_⟩
  · rw [append_assoc]
    exact headerEnd_append header rest hnone
  · rw [append_assoc, take_left]
    exact hline

/-- A header line of a commit is among those that are visited. -/
lemma gitLinks_commit (h : gitLinks gitCommit body 20 = (edges, none)) (hline : HeaderLine body line) :
    ∃ lines last, line ∈ lines ∧ headerLines gitCommit 20 lines {} = (edges, .ok last) := by
  obtain ⟨last, hend, hmem⟩ := hline.headerEnd
  rw [gitLinks, if_neg (by decide), if_neg (by decide), if_neg (by simp), hend] at h
  dsimp only at h
  split at h
  · simp at h
  next visits counts hlines =>
  rw [if_pos rfl] at h
  obtain ⟨rfl, -⟩ := mk.inj h
  exact ⟨_, counts, hmem, hlines⟩

/-- When `GitLinks` gets through, it has visited every reference. -/
lemma refers_mem_gitLinks {kind want : UInt8} (hrefers : Refers kind body oid want)
    (h : gitLinks kind body 20 = (edges, none)) : (oid, want) ∈ edges := by
  cases hrefers with
  | entry items item _ hitem htarget =>
    rw [gitLinks, if_neg (by decide), if_pos rfl] at h
    obtain ⟨rfl, hnone⟩ := mk.inj h
    obtain ⟨entry, hmem, hoid, hmode⟩ := parseGitTree_items items _ _ (Nat.le_refl _)
      (Prod.ext rfl hnone) item hitem
    refine mem_filterMap.mpr ⟨entry, hmem, ?_⟩
    rw [TreeItem.target, hmode] at htarget
    dsimp only at htarget
    rw [GitTreeEntry.link, ← hoid]
    split at htarget
    · simp at htarget
    next hlink =>
    rw [if_neg hlink]
    split at htarget
    next hdir => rw [if_pos hdir, Option.some.inj htarget]
    next hdir => rw [if_neg hdir, Option.some.inj htarget]
  | tree _ text _ hline hoid =>
    obtain ⟨lines, last, hmem, hlines⟩ := gitLinks_commit h hline
    exact headerLines_visit (fun counts visit next => headerLine_tree hoid) hmem hlines
  | parent _ text _ hline hoid =>
    obtain ⟨lines, last, hmem, hlines⟩ := gitLinks_commit h hline
    exact headerLines_visit (fun counts visit next => headerLine_parent hoid) hmem hlines
  | target _ text name _ hobj hoid htype =>
  obtain ⟨last, hend, hobj⟩ := hobj.headerEnd
  obtain ⟨last', hend', htype⟩ := htype.headerEnd
  obtain rfl : last = last' := Option.some.inj (hend.symm.trans hend')
  rw [gitLinks, if_neg (by decide), if_neg (by decide), if_neg (by simp), hend] at h
  dsimp only at h
  split at h
  · simp at h
  next visits counts hlines =>
  rw [if_neg (by decide)] at h
  split at h
  · simp at h
  next hcounts =>
  obtain ⟨hone, hone', hkind⟩ : counts.objectCount = 1 ∧ counts.typeCount = 1 ∧ _ := by simpa using hcounts
  obtain ⟨-, -, -, hobjs, htypes⟩ := headerLines_tag hlines
  have hcutObject : cut (ascii "object " ++ text) = some (ascii "object", text) :=
    @cut_append (ascii "object") _ (by decide)
  have hcutType : cut (ascii "type " ++ name) = some (ascii "type", name) :=
    @cut_append (ascii "type") _ (by decide)
  rw [← (hobjs _ hobj _ _ hcutObject hoid).2 hone, ← (htypes _ htype _ hcutType).2 hone']
  simp only [mk.injEq] at h
  rw [← h.1]
  simp

end Trex.GitStore
