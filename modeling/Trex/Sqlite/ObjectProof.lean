import Trex.Sqlite.IndexProof

/-!
# The trees of a database do not meet

`prepare` gives every tree a root page of its own; building it touches that page and new pages only.
-/

namespace Trex.Sqlite

open List

def Object.named (object : Object) : Object :=
  if object.tableName = [] then { object with tableName := object.name } else object

/-- Tables and indexes have pages. -/
def Object.HasTree (object : Object) : Prop := object.type = typeTable ∨ object.type = typeIndex

lemma Object.named_type (obj : Object) : obj.named.type = obj.type := by
  unfold Object.named
  split <;> rfl

lemma Object.named_name (obj : Object) : obj.named.name = obj.name := by
  unfold Object.named
  split <;> rfl

lemma Object.named_rows (obj : Object) : obj.named.rows = obj.rows := by
  unfold Object.named
  split <;> rfl

/-- What `prepare` gives. -/
structure Prepared (pages pages' : Pages) (objects : List Object) (prepared : List BuildObject) :
    Prop where
  definitions : prepared.map BuildObject.definition = objects.map Object.named
  tree : ∀ object ∈ prepared, object.definition.HasTree → pages.length < object.root ∧ object.root ≤ pages'.length
  noTree : ∀ object ∈ prepared, ¬ object.definition.HasTree → object.root = 0
  distinct : prepared.Pairwise fun a b => a.definition.HasTree → b.definition.HasTree → a.root ≠ b.root

variable {opts : BuildOptions} {pages pages' : Pages}

/-- Every table and index gets a root page of its own. -/
lemma prepare_ok {objs : List Object} {idx : Nat} {seen : List Bytes} {prepared : List BuildObject}
    (h : prepare opts idx seen objs pages = .ok (prepared, pages')) :
    Grows opts.pageSize ∅ pages pages' ∧ Prepared pages pages' objs prepared := by
  induction objs generalizing idx seen pages prepared with
  | nil =>
    obtain ⟨rfl, rfl⟩ := Checked.ok_pair h
    exact ⟨Grows.refl _ _ _, rfl, by simp, by simp, List.Pairwise.nil⟩
  | cons object objs ih =>
  unfold prepare at h
  split at h
  · simp at h
  split at h
  · simp at h
  dsimp only at h
  split at h
  next htype =>
    split at h
    · simp at h
    next rest pages1 hrest =>
    obtain ⟨rfl, rfl⟩ := Checked.ok_pair h
    obtain ⟨hgrow, hok⟩ := ih hrest
    have hnew := grows_allocate opts.pageSize ∅ pages
    have hlen := length_allocate opts.pageSize pages
    have hle := hgrow.le
    refine ⟨hnew.trans hgrow (by simp) (by simp), ?_, ?_, ?_, ?_⟩
    · rw [map_cons, map_cons, hok.definitions]
      rfl
    · rintro other (_ | ⟨_, hoth⟩) htree
      · exact ⟨Nat.lt_succ_self _, by rw [hlen] at hle; exact hle⟩
      · have := hok.tree other hoth htree
        omega
    · rintro other (_ | ⟨_, hoth⟩) htree
      · refine absurd ?_ htree
        change object.named.HasTree
        rw [Object.HasTree, object.named_type]
        exact htype
      · exact hok.noTree other hoth htree
    · refine pairwise_cons.mpr ⟨fun other hoth _ htree heq => ?_, hok.distinct⟩
      have := (hok.tree other hoth htree).1
      rw [← heq, hlen] at this
      exact absurd this (lt_irrefl _)
  next htype =>
  split at h
  · split at h
    · simp at h
    split at h
    · simp at h
    next rest pages1 hrest =>
    obtain ⟨rfl, rfl⟩ := Checked.ok_pair h
    obtain ⟨hgrow, hok⟩ := ih hrest
    have hnone : ¬ object.named.HasTree := by
      rw [Object.HasTree, object.named_type]
      exact htype
    refine ⟨hgrow, ?_, ?_, ?_, ?_⟩
    · rw [map_cons, map_cons, hok.definitions]
      rfl
    · rintro other (_ | ⟨_, hoth⟩) htree
      · exact absurd htree hnone
      · exact hok.tree other hoth htree
    · rintro other (_ | ⟨_, hoth⟩) htree
      · rfl
      · exact hok.noTree other hoth htree
    · exact pairwise_cons.mpr ⟨fun other _ htree => absurd htree hnone, hok.distinct⟩
  · simp at h

/-! ## Building all trees -/

def roots (objects : List BuildObject) : Set Nat :=
  {n | ∃ object ∈ objects, object.definition.HasTree ∧ object.root = n}

lemma built_ok (hopt : OptionsOk opts) {obj : BuildObject} (h : (if obj.definition.type = typeTable then
        buildTable opts obj.root obj.definition.rows false pages
      else if obj.definition.type = typeIndex then
        buildIndex opts obj.root obj.definition.rows pages else .ok pages) = .ok pages')
    (hrows : ∀ row ∈ obj.definition.rows, row.Readable opts)
    (hroot : obj.definition.HasTree → 2 ≤ obj.root ∧ obj.root ≤ pages.length)
    (hsized : Sized opts.pageSize pages) : (obj.definition.HasTree →
      BuiltTree opts obj.root obj.definition.rows pages pages') ∧
      (¬ obj.definition.HasTree → pages' = pages) := by
  split at h
  next htable =>
    obtain ⟨hlow, hhigh⟩ := hroot (.inl htable)
    refine ⟨fun _ => buildTable_ok hopt h ?_ hrows (by omega) hhigh hsized, fun hnone => absurd (.inl htable) hnone⟩
    constructor
    · simp
    · omega
  next htable =>
  split at h
  next hidx =>
    obtain ⟨hlow, hhigh⟩ := hroot (.inr hidx)
    exact ⟨fun _ => buildIndex_ok hopt h hrows hlow hhigh hsized, fun hnone => absurd (.inr hidx) hnone⟩
  next hidx =>
  refine ⟨fun htree => ?_, fun _ => ?_⟩
  · rcases htree with htree | htree
    · exact absurd htree htable
    · exact absurd htree hidx
  · simpa using h.symm

/-- Every object reads back, and keeps doing so while the others are built. -/
lemma buildObjects_ok (hopt : OptionsOk opts) {objs : List BuildObject} {base : Nat}
    (h : buildObjects opts objs pages = .ok pages')
    (hrows : ∀ obj ∈ objs, ∀ row ∈ obj.definition.rows, row.Readable opts)
    (hroots : ∀ obj ∈ objs, obj.definition.HasTree →
      2 ≤ obj.root ∧ obj.root ≤ base) (hdist : objs.Pairwise fun a b =>
      a.definition.HasTree → b.definition.HasTree → a.root ≠ b.root) (hbase : base ≤ pages.length)
    (hsized : Sized opts.pageSize pages) :
    Grows opts.pageSize (roots objs) pages pages' ∧ (pages'.length < 2 ^ 32 →
      ∀ obj ∈ objs, obj.definition.HasTree → obj.definition.rows.length ≤ 2 ^ 20 → ∃ shown,
          Reads opts pages' 100 ⟨obj.root, obj.definition.rows.map Row.readBack, shown⟩ ∧
          ∀ n ∈ shown, n = obj.root ∨ base < n ∧ n ≤ pages'.length) := by
  induction objs generalizing pages with
  | nil =>
    simp only [buildObjects, Except.ok.injEq] at h
    subst h
    exact ⟨Grows.refl _ _ _, fun _ obj hobj => by simp at hobj⟩
  | cons obj objs ih =>
  unfold buildObjects at h
  dsimp only at h
  split at h
  · simp at h
  next pages1 hbuilt =>
  obtain ⟨hoths, hdist⟩ := pairwise_cons.mp hdist
  obtain ⟨htree, hnone⟩ := built_ok hopt hbuilt (hrows obj mem_cons_self)
    (fun ht => by have := hroots obj mem_cons_self ht; omega) hsized
  have hfirst : Grows opts.pageSize (roots (obj :: objs)) pages pages1 := by
    by_cases ht : obj.definition.HasTree
    · refine (htree ht).grows.mono ?_
      rintro n rfl -
      exact ⟨obj, mem_cons_self, ht, rfl⟩
    · rw [hnone ht]
      exact Grows.refl _ _ _
  have hle := hfirst.le
  obtain ⟨hgrow, hreads⟩ := ih h (fun o ho => hrows o (mem_cons_of_mem _ ho))
    (fun o ho => hroots o (mem_cons_of_mem _ ho)) hdist (by omega) (hfirst.sized hsized)
  have hle' := hgrow.le
  refine ⟨hfirst.trans hgrow (fun n hn _ => hn) ?_, fun hmax => ?_⟩
  · rintro n ⟨o, ho, hotree, rfl⟩ -
    exact ⟨o, mem_cons_of_mem _ ho, hotree, rfl⟩
  rintro other (_ | ⟨_, hoth⟩) ht hsmall
  · obtain ⟨shown, hread, hshown⟩ := (htree ht).reads (by omega) hsmall
    have hroot := hroots obj mem_cons_self ht
    refine ⟨shown, hread.mono le_rfl fun n hn => hgrow.keep n ?_ ?_, fun n hn => ?_⟩
    · rcases hshown n hn with rfl | hin
      · omega
      · exact hin.2
    · -- the roots of later trees are below the new pages of this one
      rintro ⟨o, ho, hotree, rfl⟩
      have hlater := hroots o (mem_cons_of_mem _ ho) hotree
      rcases hshown _ hn with heq | hin
      · exact hoths o ho ht hotree heq.symm
      · omega
    · rcases hshown n hn with rfl | hin
      · exact .inl rfl
      · exact .inr ⟨by omega, by omega⟩
  · exact hreads hmax other hoth ht hsmall

end Trex.Sqlite
