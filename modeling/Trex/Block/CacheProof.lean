import Mathlib.Data.List.Nodup
import Mathlib.Algebra.BigOperators.Group.List.Basic
import Trex.Block.Cache

/-!
# The block cache is transparent

`Table` is what holds of the map, the list and the counter, `Threads` what holds of the calls;
both are kept by every event of every thread.
-/

namespace Trex.Block.Cache

open List Function Memory

variable {cfg : Config} {s s' : State}

variable {id id' : Ref} {e e' : Entry} {heap : List Entry} {index t : Nat} {f : Entry → Entry}
  {c : Call} {thread : Thread}

lemma entry_eq (h : s.heap[id]? = some e) : s.entry id = e := by
  unfold State.entry
  rw [getD_eq_getElem?_getD, h]
  rfl

/-! ## The table -/

/-- The map, the list of use and the count of the bytes agree with the entries. -/
structure Table (cfg : Config) (s : State) : Prop where
  mapped : ∀ index id, s.entries index = some id → ∃ e : Entry, s.heap[id]? = some e ∧ e.index = index
  loading : ∀ (id : Ref) (e : Entry), s.heap[id]? = some e → e.loading = true → s.entries e.index = some id
  listed : ∀ index id (e : Entry), s.entries index = some id → s.heap[id]? = some e → e.loading = false → id ∈ s.lru
  lru : ∀ id ∈ s.lru, ∃ e : Entry, s.heap[id]? = some e ∧ e.loading = false ∧ e.failed = false ∧
    s.entries e.index = some id
  nodup : s.lru.Nodup
  bytes : s.bytes = (s.lru.map fun id => ((s.entry id).data.length : Int)).sum
  data : ∀ (id : Ref) (e : Entry), s.heap[id]? = some e → e.loading = false → e.failed = false →
    e.data = chunkBytes cfg e.index

lemma table_setThread (h : Table cfg s) (t : Nat) (thread : Thread) : Table cfg (s.setThread t thread) :=
  { h with }

lemma moveToFront_perm (lru : List Ref) (id : Ref) : (moveToFront lru id).Perm lru := by
  unfold moveToFront
  split
  next hmem => exact (perm_cons_erase hmem).symm
  · exact .refl _

lemma table_moveToFront (h : Table cfg s) (id : Ref) : Table cfg { s with lru := moveToFront s.lru id } := by
  have hperm := moveToFront_perm s.lru id
  refine ⟨h.mapped, h.loading, ?_, ?_, hperm.nodup_iff.mpr h.nodup, ?_, h.data⟩
  · intro index id' e hent hheap hrdy
    exact hperm.mem_iff.mpr (h.listed index id' e hent hheap hrdy)
  · intro id' hmem
    exact h.lru id' (hperm.mem_iff.mp hmem)
  · exact h.bytes.trans (hperm.map _).sum_eq.symm

lemma getElem?_push (heap : List Entry) (e : Entry)
    (h : (heap ++ [e])[id]? = some e') : heap[id]? = some e' ∨ id = heap.length ∧ e' = e := by
  rcases lt_trichotomy id heap.length with hlt | heq | hgt
  · rw [getElem?_append_left hlt] at h
    exact .inl h
  · rw [heq, getElem?_concat_length] at h
    exact .inr ⟨heq, (Option.some.inj h).symm⟩
  · rw [getElem?_eq_none (by simp only [length_append, length_singleton]; exact hgt)] at h
    cases h

lemma getElem?_push_old (e : Entry) (h : heap[id]? = some e') : (heap ++ [e])[id]? = some e' := by
  rw [List.getElem?_append_left (List.getElem?_eq_some_iff.mp h).1]
  exact h

/-- A new entry for a chunk that is not in the map. -/
lemma table_new (h : Table cfg s) (hnone : s.entries index = none) : Table cfg { s with
      entries := update s.entries index (some s.heap.length), heap := s.heap ++ [{ index := index }] } := by
  have hoth : ∀ index' id, s.entries index' = some id →
      update s.entries index (some s.heap.length) index' = some id := by
    intro index' id hid
    rw [update_of_ne, hid]
    rintro rfl
    rw [hnone] at hid
    cases hid
  refine ⟨?_, ?_, ?_, ?_, h.nodup, ?_, ?_⟩
  · intro index' id hid
    by_cases heq : index' = index
    · rw [heq]
      simp only [heq, update_self, Option.some.injEq] at hid
      exact ⟨_, hid ▸ getElem?_concat_length, rfl⟩
    · simp only [update_of_ne heq] at hid
      obtain ⟨e, he, hidx⟩ := h.mapped index' id hid
      exact ⟨e, getElem?_push_old _ he, hidx⟩
  · intro id e he hload
    rcases getElem?_push _ _ he with he | ⟨rfl, rfl⟩
    · exact hoth _ _ (h.loading id e he hload)
    · exact update_self ..
  · intro index' id e hid he hrdy
    rcases getElem?_push _ _ he with he | ⟨rfl, rfl⟩
    · by_cases heq : index' = index
      · simp only [heq, update_self, Option.some.injEq] at hid
        rw [← hid, getElem?_eq_none le_rfl] at he
        cases he
      · simp only [update_of_ne heq] at hid
        exact h.listed index' id e hid he hrdy
    · cases hrdy
  · intro id hid
    obtain ⟨e, he, hrdy, hok, hent⟩ := h.lru id hid
    exact ⟨e, getElem?_push_old _ he, hrdy, hok, hoth _ _ hent⟩
  · refine h.bytes.trans (congrArg sum (map_congr_left fun id hid => ?_))
    obtain ⟨e, he, -⟩ := h.lru id hid
    rw [entry_eq he]
    exact congrArg (fun e : Entry => (e.data.length : Int)) (entry_eq
      (s := { s with heap := s.heap ++ [{ index := index }] }) (getElem?_push_old _ he)).symm
  · intro id e he hrdy hok
    rcases getElem?_push _ _ he with he | ⟨rfl, rfl⟩
    · exact h.data id e he hrdy hok
    · cases hrdy

lemma getElem?_modify_self (f : Entry → Entry) (h : heap[id]? = some e) : (heap.modify id f)[id]? = some (f e) := by
  rw [getElem?_modify, h]
  simp

lemma getElem?_modify_other (heap : List Entry) (f : Entry → Entry) (h : id' ≠ id) :
    (heap.modify id f)[id']? = heap[id']? := by
  rw [getElem?_modify]
  simp [Ne.symm h]

lemma getElem?_modify_cases (he : heap[id]? = some e) (he' : (heap.modify id f)[id']? = some e') :
    (id' = id ∧ e' = f e) ∨ (id' ≠ id ∧ heap[id']? = some e') := by
  by_cases hid : id' = id
  · rw [hid, getElem?_modify_self f he] at he'
    exact .inl ⟨hid, (Option.some.inj he').symm⟩
  · rw [getElem?_modify_other _ f hid] at he'
    exact .inr ⟨hid, he'⟩

lemma index_modify (he : heap[id]? = some e) (hidx : (f e).index = e.index) (he' : heap[id']? = some e') :
    ∃ e'' : Entry, (heap.modify id f)[id']? = some e'' ∧ e''.index = e'.index := by
  by_cases hid : id' = id
  · rw [hid] at he' ⊢
    rw [he] at he'
    cases he'
    exact ⟨f e, getElem?_modify_self f he, hidx⟩
  · exact ⟨e', (getElem?_modify_other _ f hid).trans he', rfl⟩

lemma Table.not_listed (h : Table cfg s) (he : s.heap[id]? = some e) (hload : e.loading = true) : id ∉ s.lru := by
  intro hmem
  obtain ⟨e', he', hrdy, -⟩ := h.lru id hmem
  rw [he] at he'
  cases he'
  rw [hload] at hrdy
  cases hrdy

lemma sum_modify (hid : id ∉ s.lru) (f : Entry → Entry) :
    (s.lru.map fun i => ((({ s with heap := s.heap.modify id f } : State).entry i).data.length : Int)) =
      s.lru.map fun i => ((s.entry i).data.length : Int) := by
  refine map_congr_left fun i hi => ?_
  have hne : i ≠ id := by
    rintro rfl
    exact hid hi
  unfold State.entry
  rw [getD_eq_getElem?_getD, getD_eq_getElem?_getD]
  simp only [getElem?_modify_other s.heap f hne]

/-- The loader may change its entry as long as it is loading. -/
lemma table_fill (h : Table cfg s) (he : s.heap[id]? = some e) (hload : e.loading = true)
    (hidx : (f e).index = e.index)
    (hkeep : (f e).loading = true) : Table cfg { s with heap := s.heap.modify id f } := by
  refine ⟨?_, ?_, ?_, ?_, h.nodup, ?_, ?_⟩
  · intro index id' hid'
    obtain ⟨e', he', rfl⟩ := h.mapped index id' hid'
    exact index_modify he hidx he'
  · intro id' e' he' hload'
    rcases getElem?_modify_cases he he' with ⟨rfl, rfl⟩ | ⟨-, he'⟩
    · rw [hidx]
      exact h.loading _ e he hload
    · exact h.loading id' e' he' hload'
  · intro index id' e' hid' he' hrdy
    rcases getElem?_modify_cases he he' with ⟨rfl, rfl⟩ | ⟨-, he'⟩
    · rw [hkeep] at hrdy
      cases hrdy
    · exact h.listed index id' e' hid' he' hrdy
  · intro id' hid'
    obtain ⟨e', he', hrest⟩ := h.lru id' hid'
    refine ⟨e', (getElem?_modify_other _ f ?_).trans he', hrest⟩
    rintro rfl
    exact h.not_listed he hload hid'
  · rw [sum_modify (h.not_listed he hload)]
    exact h.bytes
  · intro id' e' he' hrdy hok
    rcases getElem?_modify_cases he he' with ⟨rfl, rfl⟩ | ⟨-, he'⟩
    · rw [hkeep] at hrdy
      cases hrdy
    · exact h.data id' e' he' hrdy hok

/-- A chunk that has been read goes to the front of the list. -/
lemma table_publish (h : Table cfg s) (he : s.heap[id]? = some e) (hload : e.loading = true)
    (hok : e.failed = false) (hdata : e.data = chunkBytes cfg e.index) : Table cfg { s with
      heap := s.heap.modify id fun e => { e with loading := false }, lru := id :: s.lru,
      bytes := s.bytes + (e.data.length : Int) } := by
  have hself := getElem?_modify_self (fun e : Entry => { e with loading := false }) he
  have hnot := h.not_listed he hload
  refine ⟨?_, ?_, ?_, ?_, nodup_cons.mpr ⟨hnot, h.nodup⟩, ?_, ?_⟩
  · intro index id' hid'
    obtain ⟨e', he', rfl⟩ := h.mapped index id' hid'
    exact index_modify he rfl he'
  · intro id' e' he' hload'
    rcases getElem?_modify_cases he he' with ⟨rfl, rfl⟩ | ⟨-, he'⟩
    · cases hload'
    · exact h.loading id' e' he' hload'
  · intro index id' e' hid' he' hrdy
    rcases getElem?_modify_cases he he' with ⟨rfl, rfl⟩ | ⟨-, he'⟩
    · exact mem_cons_self
    · exact mem_cons_of_mem _ (h.listed index id' e' hid' he' hrdy)
  · intro id' hid'
    rcases mem_cons.mp hid' with rfl | hin
    · exact ⟨_, hself, rfl, hok, h.loading _ e he hload⟩
    · obtain ⟨e', he', hrest⟩ := h.lru id' hin
      refine ⟨e', (getElem?_modify_other _ _ ?_).trans he', hrest⟩
      rintro rfl
      exact hnot hin
  · have hsum := sum_modify hnot fun e => { e with loading := false }
    have hent : ({ s with heap := s.heap.modify id fun e => { e with loading := false } } :
        State).entry id = { e with loading := false } := entry_eq hself
    simp only [map_cons, sum_cons]
    unfold State.entry at hsum hent ⊢
    simp only at hsum hent ⊢
    rw [hsum, hent, h.bytes]
    unfold State.entry
    rw [add_comm]
  · intro id' e' he' hrdy hok'
    rcases getElem?_modify_cases he he' with ⟨rfl, rfl⟩ | ⟨-, he'⟩
    · exact hdata
    · exact h.data id' e' he' hrdy hok'

section

variable (hmine : s.entries e.index = some id)

include hmine

lemma entries_unmap (hne : id' ≠ id) (hent : s.entries e'.index = some id') :
    update s.entries e.index none e'.index = some id' := by
  rw [update_of_ne, hent]
  intro heq
  rw [heq, hmine] at hent
  exact hne (Option.some.inj hent).symm

lemma entries_of_unmap (h : Table cfg s) (he : s.heap[id]? = some e)
    (hid' : update s.entries e.index none index = some id') : s.entries index = some id' ∧ id' ≠ id := by
  by_cases hidx : index = e.index
  · simp only [hidx, update_self] at hid'
    cases hid'
  rw [update_of_ne hidx] at hid'
  refine ⟨hid', ?_⟩
  rintro rfl
  obtain ⟨e', he', hidx'⟩ := h.mapped index _ hid'
  rw [he] at he'
  cases he'
  exact hidx hidx'.symm

end

/-- An entry whose load failed leaves the map. -/
lemma table_drop (h : Table cfg s) (he : s.heap[id]? = some e) (hload : e.loading = true)
    (hfail : e.failed = true) : Table cfg { s with
      heap := s.heap.modify id fun e => { e with loading := false }, entries := update s.entries e.index none } := by
  have hmine := h.loading id e he hload
  have hnot := h.not_listed he hload
  refine ⟨?_, ?_, ?_, ?_, h.nodup, ?_, ?_⟩
  · intro index id' hid'
    obtain ⟨hid', hne⟩ := entries_of_unmap hmine h he hid'
    obtain ⟨e', he', hidx'⟩ := h.mapped index id' hid'
    exact ⟨e', (getElem?_modify_other _ _ hne).trans he', hidx'⟩
  · intro id' e' he' hload'
    rcases getElem?_modify_cases he he' with ⟨rfl, rfl⟩ | ⟨hne, he'⟩
    · cases hload'
    · exact entries_unmap hmine hne (h.loading id' e' he' hload')
  · intro index id' e' hid' he' hrdy
    obtain ⟨hid', hne⟩ := entries_of_unmap hmine h he hid'
    rcases getElem?_modify_cases he he' with ⟨heq, -⟩ | ⟨-, he'⟩
    · exact absurd heq hne
    · exact h.listed index id' e' hid' he' hrdy
  · intro id' hid'
    obtain ⟨e', he', hrdy, hok, hent⟩ := h.lru id' hid'
    have hne : id' ≠ id := by
      rintro rfl
      exact hnot hid'
    exact ⟨e', (getElem?_modify_other _ _ hne).trans he', hrdy, hok, entries_unmap hmine hne hent⟩
  · have hsum := sum_modify hnot fun e => { e with loading := false }
    unfold State.entry at hsum ⊢
    simp only at hsum ⊢
    rw [hsum]
    exact h.bytes
  · intro id' e' he' hrdy hok'
    rcases getElem?_modify_cases he he' with ⟨rfl, rfl⟩ | ⟨-, he'⟩
    · rw [hfail] at hok'
      cases hok'
    · exact h.data id' e' he' hrdy hok'

/-- The least recently used chunk leaves the list and the map. -/
lemma table_evict (h : Table cfg s) (hlast : s.lru.getLast? = some id) : Table cfg { s with
      lru := s.lru.dropLast, entries := update s.entries (s.entry id).index none,
      bytes := s.bytes - ((s.entry id).data.length : Int) } := by
  have hsplit : s.lru = s.lru.dropLast ++ [id] := (dropLast_append_getLast? id hlast).symm
  have hmem : id ∈ s.lru := mem_of_getLast? hlast
  obtain ⟨e, he, hrdy, hok, hent⟩ := h.lru id hmem
  have hnodup := h.nodup
  rw [hsplit] at hnodup
  have hnot : id ∉ s.lru.dropLast := by
    intro hin
    exact (nodup_append.mp hnodup).2.2 id hin id (mem_singleton_self id) rfl
  rw [entry_eq he]
  refine ⟨?_, ?_, ?_, ?_, h.nodup.sublist (dropLast_sublist _), ?_, h.data⟩
  · intro index id' hid'
    exact h.mapped index id' (entries_of_unmap hent h he hid').1
  · intro id' e' he' hload'
    refine entries_unmap hent ?_ (h.loading id' e' he' hload')
    rintro rfl
    rw [he] at he'
    cases he'
    rw [hrdy] at hload'
    cases hload'
  · intro index id' e' hid' he' hrdy'
    obtain ⟨hid', hne⟩ := entries_of_unmap hent h he hid'
    have hin := h.listed index id' e' hid' he' hrdy'
    rw [hsplit] at hin
    rcases mem_append.mp hin with hin | hin
    · exact hin
    · exact absurd (mem_singleton.mp hin) hne
  · intro id' hid'
    obtain ⟨e', he', hrdy', hok', hent'⟩ := h.lru id' (dropLast_subset _ hid')
    refine ⟨e', he', hrdy', hok', entries_unmap hent ?_ hent'⟩
    rintro rfl
    exact hnot hid'
  · have hbytes := h.bytes
    rw [hsplit, map_append, sum_append, map_singleton, sum_singleton, entry_eq he] at hbytes
    rw [hbytes]
    simp only [add_sub_cancel_right]
    rfl

/-- Eviction keeps map, list and count in step. -/
lemma table_evictLocked (turns : Nat) (h : Table cfg s) : Table cfg (evictLocked cfg turns s) := by
  induction turns generalizing s with
  | zero => exact h
  | succ turns ih =>
  rw [evictLocked]
  split
  · split
    · exact h
    next id hlast => exact ih (table_evict h hlast)
  · exact h

/-- The loop ends below the limit, at the latest with the empty list. -/
lemma bytes_evictLocked (turns : Nat) (h : Table cfg s) (hturns : s.lru.length ≤ turns) :
    (evictLocked cfg turns s).bytes ≤ cfg.maxBytes := by
  have hemp : ∀ s : State, Table cfg s → s.lru = [] → s.bytes ≤ cfg.maxBytes := by
    intro s h hnil
    rw [h.bytes, hnil]
    exact Int.natCast_nonneg _
  induction turns generalizing s with
  | zero => exact hemp s h (length_eq_zero_iff.mp (Nat.le_zero.mp hturns))
  | succ turns ih =>
  rw [evictLocked]
  split
  · split
    next hlast => exact hemp s h (getLast?_eq_none_iff.mp hlast)
    next id hlast =>
      refine ih (table_evict h hlast) ?_
      simp only [length_dropLast]
      omega
  next hle => exact not_lt.mp hle

/-- Eviction touches neither entries nor readers. -/
lemma evictLocked_frame (cfg : Config) (turns : Nat) (s : State) :
    (evictLocked cfg turns s).heap = s.heap ∧ (evictLocked cfg turns s).threads = s.threads := by
  induction turns generalizing s with
  | zero => exact ⟨rfl, rfl⟩
  | succ turns ih =>
  rw [evictLocked]
  split
  · split
    · exact ⟨rfl, rfl⟩
    · exact ih _
  · exact ⟨rfl, rfl⟩

/-! ## Calls -/

/-- A call on its way: what it has copied is what the base has. -/
structure InCall (cfg : Config) (c : Call) : Prop where
  done : c.done = Memory.window cfg.base c.off c.done.length
  more : c.done.length < c.len
  inside : c.off + c.len ≤ cfg.size

/-- What a call has read so far is right. -/
def CallOk (cfg : Config) : Thread → Prop
  | .idle => True
  | .lookup c => InCall cfg c
  | .load c _ => InCall cfg c
  | .loaded c _ => InCall cfg c
  | .wait c _ => InCall cfg c
  | .returned c err => err = none → c.done = Memory.window cfg.base c.off c.len

/-- A part of a chunk is a window of the base. -/
lemma chunkBytes_part (cfg : Config) {index within count : Nat} (h : within + count ≤ chunkLength cfg index) :
    ((chunkBytes cfg index).drop within).take count = window cfg.base (index * cfg.chunkSize + within) count := by
  obtain ⟨rest, hrest⟩ := Nat.exists_eq_add_of_le h
  unfold chunkBytes
  rw [hrest, add_assoc, window_add, drop_left' (length_window ..), window_add, take_left' (length_window ..)]

/-- Delivering a chunk extends a call by the bytes of the base. -/
lemma callOk_deliver (h : InCall cfg c) {data : Bytes} {failed : Bool}
    (hdata : failed = false → data = chunkBytes cfg (chunkIndex cfg c)) : CallOk cfg (deliver cfg c data failed) := by
  unfold deliver
  split
  · exact fun herr => absurd herr (by simp)
  next hfail =>
  have hpos := cfg.chunkSize_pos
  have hmore := h.more
  have hins := h.inside
  have hsplit := Nat.div_add_mod (c.off + c.done.length) cfg.chunkSize
  have hmod := Nat.mod_lt (c.off + c.done.length) hpos
  have hchunk := hdata (by simpa using hfail)
  have hlen : data.length = chunkLength cfg (chunkIndex cfg c) := by
    rw [hchunk]
    exact length_window ..
  have hidx : chunkIndex cfg c * cfg.chunkSize + (c.off + c.done.length) % cfg.chunkSize =
      c.off + c.done.length := by
    unfold chunkIndex
    rw [mul_comm]
    exact hsplit
  have hwithin : (c.off + c.done.length) % cfg.chunkSize < data.length := by
    rw [hlen]
    unfold chunkLength
    omega
  simp only
  rw [if_neg (not_le.mpr hwithin)]
  generalize hw : (c.off + c.done.length) % cfg.chunkSize = within at *
  generalize hcount : min (c.len - c.done.length) (data.length - within) = count
  have hpart : (data.drop within).take count = window cfg.base (c.off + c.done.length) count := by
    rw [hchunk, chunkBytes_part cfg (by omega), hidx]
  have hdone : c.done ++ (data.drop within).take count = window cfg.base c.off (c.done.length + count) := by
    rw [hpart, window_add, ← h.done]
  have hlength : (c.done ++ (data.drop within).take count).length = c.done.length + count := by
    rw [hdone]
    exact length_window ..
  split
  next hnext =>
    refine ⟨?_, hnext, hins⟩
    show c.done ++ _ = window cfg.base c.off (c.done ++ _).length
    rw [hlength]
    exact hdone
  next hend =>
    intro _
    rw [hlength] at hend
    show c.done ++ _ = window cfg.base c.off c.len
    rw [hdone]
    congr 1
    omega

/-! ## Threads -/

/-- The entry that a thread reads the base for. -/
def Thread.loads : Thread → Option Ref
  | .load _ id => some id
  | .loaded _ id => some id
  | _ => none

/-- The call of a reader and the entry that it works on. -/
def Thread.holds : Thread → Option (Call × Ref)
  | .load c id => some (c, id)
  | .loaded c id => some (c, id)
  | .wait c id => some (c, id)
  | _ => none

/-- Each loading entry has exactly one loader, and what readers hold is there. -/
structure Threads (cfg : Config) (s : State) : Prop where
  owner : ∀ t id, (s.threads t).loads = some id → ∃ e : Entry, s.heap[id]? = some e ∧ e.loading = true
  unique : ∀ t t' id, (s.threads t).loads = some id → (s.threads t').loads = some id → t = t'
  owned : ∀ (id : Ref) (e : Entry), s.heap[id]? = some e → e.loading = true → ∃ t, (s.threads t).loads = some id
  held : ∀ t c id, (s.threads t).holds = some (c, id) → ∃ e : Entry, s.heap[id]? = some e ∧ e.index = chunkIndex cfg c
  filled : ∀ t c id (e : Entry), s.threads t = .loaded c id → s.heap[id]? = some e →
    e.failed = false → e.data = chunkBytes cfg e.index
  calls : ∀ t, CallOk cfg (s.threads t)

lemma loads_deliver (cfg : Config) (c : Call) (data : Bytes) (failed : Bool) :
    (deliver cfg c data failed).loads = none ∧ (deliver cfg c data failed).holds = none := by
  unfold deliver
  simp only
  split
  · exact ⟨rfl, rfl⟩
  split
  · exact ⟨rfl, rfl⟩
  split <;> exact ⟨rfl, rfl⟩

section

variable (h : Threads cfg s)

include h

/-- One thread moves; the entries that the others load stay as they are. -/
lemma threads_update (hthreads : s'.threads = update s.threads t thread)
    (hkeep : ∀ t' id, t' ≠ t → (s.threads t').loads = some id → thread.loads ≠ some id ∧ s'.heap[id]? = s.heap[id]?)
    (hidx : ∀ (id : Ref) (e : Entry), s.heap[id]? = some e →
      ∃ e' : Entry, s'.heap[id]? = some e' ∧ e'.index = e.index)
    (hloads : ∀ id, thread.loads = some id → ∃ e : Entry, s'.heap[id]? = some e ∧ e.loading = true)
    (howned : ∀ (id : Ref) (e : Entry), s'.heap[id]? = some e → e.loading = true →
      thread.loads = some id ∨ ∃ t', t' ≠ t ∧ (s.threads t').loads = some id)
    (hheld : ∀ c id, thread.holds = some (c, id) → ∃ e : Entry, s'.heap[id]? = some e ∧ e.index = chunkIndex cfg c)
    (hfild : ∀ c id (e : Entry), thread = .loaded c id → s'.heap[id]? = some e →
      e.failed = false → e.data = chunkBytes cfg e.index) (hcall : CallOk cfg thread) : Threads cfg s' := by
  have hself : s'.threads t = thread := by rw [hthreads, update_self]
  have hoth : ∀ t', t' ≠ t → s'.threads t' = s.threads t' := by
    intro t' hne
    rw [hthreads, update_of_ne hne]
  refine ⟨?_, ?_, ?_, ?_, ?_, ?_⟩
  · intro t' id hid
    by_cases ht : t' = t
    · rw [ht, hself] at hid
      exact hloads id hid
    · rw [hoth t' ht] at hid
      rw [(hkeep t' id ht hid).2]
      exact h.owner t' id hid
  · intro t1 t2 id h1 h2
    by_cases ht1 : t1 = t <;> by_cases ht2 : t2 = t
    · rw [ht1, ht2]
    · rw [ht1, hself] at h1
      rw [hoth t2 ht2] at h2
      exact absurd h1 (hkeep t2 id ht2 h2).1
    · rw [hoth t1 ht1] at h1
      rw [ht2, hself] at h2
      exact absurd h2 (hkeep t1 id ht1 h1).1
    · rw [hoth t1 ht1] at h1
      rw [hoth t2 ht2] at h2
      exact h.unique t1 t2 id h1 h2
  · intro id e he hload
    rcases howned id e he hload with hid | ⟨t', hne, hid⟩
    · exact ⟨t, by rw [hself]; exact hid⟩
    · exact ⟨t', by rw [hoth t' hne]; exact hid⟩
  · intro t' c id hid
    by_cases ht : t' = t
    · rw [ht, hself] at hid
      exact hheld c id hid
    · rw [hoth t' ht] at hid
      obtain ⟨e, he, hc⟩ := h.held t' c id hid
      obtain ⟨e', he', heq⟩ := hidx id e he
      exact ⟨e', he', heq.trans hc⟩
  · intro t' c id e hthread he
    by_cases ht : t' = t
    · rw [ht, hself] at hthread
      exact hfild c id e hthread he
    · rw [hoth t' ht] at hthread
      rw [(hkeep t' id ht (by rw [hthread]; rfl)).2] at he
      exact h.filled t' c id e hthread he
  intro t'
  by_cases ht : t' = t
  · rw [ht, hself]
    exact hcall
  · rw [hoth t' ht]
    exact h.calls t'

lemma Threads.call_ok (hthread : s.threads t = thread) : CallOk cfg thread := by
  have hok := h.calls t
  rw [hthread] at hok
  exact hok

/-- An entry that is loading and not loaded by `t` is loaded by another reader. -/
lemma Threads.owned_other (hmine : (s.threads t).loads ≠ some id) (he : s.heap[id]? = some e)
    (hload : e.loading = true) : ∃ t', t' ≠ t ∧ (s.threads t').loads = some id := by
  obtain ⟨t', ht'⟩ := h.owned id e he hload
  refine ⟨t', ?_, ht'⟩
  rintro rfl
  exact hmine ht'

/-- A step of a reader that is no loader before and after it. -/
lemma threads_local (hheap : s'.heap = s.heap) (hthreads : s'.threads = update s.threads t thread)
    (hbef : (s.threads t).loads = none) (haft : thread.loads = none)
    (hheld : ∀ c id, thread.holds = some (c, id) → ∃ e : Entry, s.heap[id]? = some e ∧ e.index = chunkIndex cfg c)
    (hcall : CallOk cfg thread) : Threads cfg s' := by
  have hnone : ∀ id, thread.loads ≠ some id := by simp [haft]
  refine threads_update h hthreads ?_ ?_ ?_ ?_ (by rwa [hheap]) ?_ hcall
  · exact fun t' id _ _ => ⟨hnone id, by rw [hheap]⟩
  · exact fun id e he => ⟨e, by rw [hheap]; exact he, rfl⟩
  · exact fun id hid => absurd hid (hnone id)
  · intro id e he hload
    rw [hheap] at he
    exact .inr (h.owned_other (by simp [hbef]) he hload)
  · rintro c id e rfl
    cases haft

/-- A thread starts to read the base for a new entry. -/
lemma threads_new (hbef : (s.threads t).loads = none) (hheap : s'.heap = s.heap ++ [{ index := chunkIndex cfg c }])
    (hthreads : s'.threads = update s.threads t (.load c s.heap.length)) (hcall : InCall cfg c) : Threads cfg s' := by
  have hnew : s'.heap[s.heap.length]? = some { index := chunkIndex cfg c } := by
    rw [hheap]
    exact getElem?_concat_length
  have hold : ∀ (id : Ref) (e : Entry), s.heap[id]? = some e → s'.heap[id]? = some e := by
    intro id e he
    rw [hheap]
    exact getElem?_push_old _ he
  refine threads_update h hthreads ?_ (fun id e he => ⟨e, hold id e he, rfl⟩) ?_ ?_ ?_ nofun hcall
  · -- an entry that a thread loads was there before
    intro t' id _ hid
    obtain ⟨e, he, -⟩ := h.owner t' id hid
    refine ⟨?_, by rw [hold id e he, he]⟩
    rintro ⟨⟩
    rw [getElem?_eq_none le_rfl] at he
    cases he
  · rintro id ⟨⟩
    exact ⟨_, hnew, rfl⟩
  · intro id e he hload
    rw [hheap] at he
    rcases getElem?_push _ _ he with he | ⟨rfl, rfl⟩
    · exact .inr (h.owned_other (by simp [hbef]) he hload)
    · exact .inl rfl
  · rintro c' id ⟨⟩
    exact ⟨_, hnew, rfl⟩

/-- The thread that loads an entry changes it, and goes on loading it or not. -/
lemma threads_modify (hmine : (s.threads t).loads = some id) (he : s.heap[id]? = some e)
    (hheap : s'.heap = s.heap.modify id f)
    (hthreads : s'.threads = update s.threads t thread) (hidx : (f e).index = e.index)
    (hloads : thread.loads = if (f e).loading then some id else none)
    (hheld : ∀ c id', thread.holds = some (c, id') → id' = id ∧ e.index = chunkIndex cfg c)
    (hfild : ∀ c id', thread = .loaded c id' → (f e).failed = false →
      (f e).data = chunkBytes cfg e.index) (hcall : CallOk cfg thread) : Threads cfg s' := by
  have hnew : s'.heap[id]? = some (f e) := by
    rw [hheap]
    exact getElem?_modify_self f he
  have hold : ∀ id', id' ≠ id → s'.heap[id']? = s.heap[id']? := by
    intro id' hne
    rw [hheap]
    exact getElem?_modify_other _ f hne
  have hstill : ∀ id', thread.loads = some id' → (f e).loading = true ∧ id' = id := by
    intro id' hid'
    rw [hloads] at hid'
    split at hid'
    next hloading => exact ⟨hloading, (Option.some.inj hid').symm⟩
    · cases hid'
  refine threads_update h hthreads ?_ ?_ ?_ ?_ ?_ ?_ hcall
  · -- the others load other entries
    intro t' id' hne hid'
    have hapt : id' ≠ id := by
      rintro rfl
      exact hne (h.unique t' t _ hid' hmine)
    exact ⟨fun hload => hapt (hstill id' hload).2, hold id' hapt⟩
  · intro id' e' he'
    rw [hheap]
    exact index_modify he hidx he'
  · intro id' hid'
    obtain ⟨hloading, rfl⟩ := hstill id' hid'
    exact ⟨f e, hnew, hloading⟩
  · intro id' e' he' hloading
    by_cases hid : id' = id
    · rw [hid, hnew] at he'
      cases he'
      left
      rw [hloads, if_pos hloading, hid]
    · rw [hold id' hid] at he'
      refine .inr (h.owned_other ?_ he' hloading)
      rw [hmine]
      exact fun heq => hid (Option.some.inj heq).symm
  · intro c id' hid'
    obtain ⟨rfl, hc⟩ := hheld c id' hid'
    exact ⟨f e, hnew, hidx.trans hc⟩
  intro c id' e' hthread he' hok
  obtain ⟨rfl, -⟩ := hheld c id' (by rw [hthread]; rfl)
  rw [hnew] at he'
  cases he'
  rw [hidx]
  exact hfild c id' hthread hok

end

/-! ## Events -/

/-- The invariant of a run. -/
structure Inv (cfg : Config) (s : State) : Prop where
  table : Table cfg s
  threads : Threads cfg s
  bound : s.bytes ≤ cfg.maxBytes

lemma inv_init (cfg : Config) : Inv cfg {} := by
  refine ⟨⟨?_, ?_, ?_, ?_, nodup_nil, rfl, ?_⟩, ⟨?_, ?_, ?_, ?_, ?_, fun _ => trivial⟩, Int.natCast_nonneg _⟩
  · exact fun index id hid => absurd hid (by simp)
  · exact fun id e he => absurd he (by simp)
  · exact fun index id e hid => absurd hid (by simp)
  · exact fun id hid => absurd hid not_mem_nil
  · exact fun id e he => absurd he (by simp)
  · exact fun t id hid => absurd hid (by simp [Thread.loads])
  · exact fun t t' id hid => absurd hid (by simp [Thread.loads])
  · exact fun id e he => absurd he (by simp)
  · exact fun t c id hid => absurd hid (by simp [Thread.holds])
  · exact fun t c id e hthread => absurd hthread (by simp)

section

variable (h : Inv cfg s)

include h

lemma inv_call (hbef : (s.threads t).loads = none) (off len : Nat) : Inv cfg (call cfg s t off len) := by
  have hset : ∀ thread : Thread, thread.loads = none → thread.holds = none → CallOk cfg thread →
      Inv cfg (s.setThread t thread) := by
    intro thread hloads hholds hok
    refine ⟨table_setThread h.table t thread, ?_, h.bound⟩
    exact threads_local h.threads rfl rfl hbef hloads (fun c id hid => by rw [hholds] at hid; cases hid) hok
  unfold call
  split
  · exact hset _ rfl rfl fun herr => absurd herr (by simp)
  split
  next hlen =>
    refine hset _ rfl rfl fun _ => ?_
    rw [hlen]
    rfl
  next hin hlen => exact hset _ rfl rfl ⟨rfl, Nat.pos_of_ne_zero hlen, not_lt.mp hin⟩

/-- A reader takes its part from an entry that is ready. -/
lemma inv_deliver (hbef : (s.threads t).loads = none) (hcall : InCall cfg c)
    (he : s.heap[id]? = some e) (hidx : e.index = chunkIndex cfg c) (hrdy : e.loading = false) :
    Inv cfg (({ s with lru := moveToFront s.lru id } : State).setThread t (deliver cfg c e.data e.failed)) := by
  obtain ⟨hloads, hholds⟩ := loads_deliver cfg c e.data e.failed
  refine ⟨table_setThread (table_moveToFront h.table id) t _, ?_, h.bound⟩
  refine threads_local h.threads rfl rfl hbef hloads
    (fun c' id' hid' => by rw [hholds] at hid'; cases hid') ?_
  refine callOk_deliver hcall fun hok => ?_
  rw [h.table.data id e he hrdy hok, hidx]

lemma inv_lookup (hthread : s.threads t = .lookup c) : Inv cfg (lookup cfg s t c) := by
  have hbef : (s.threads t).loads = none := by
    rw [hthread]
    rfl
  have hcall : InCall cfg c := h.threads.call_ok hthread
  unfold lookup
  split
  next id hid =>
    obtain ⟨e, he, hidx⟩ := h.table.mapped _ id hid
    rw [entry_eq he]
    split
    · refine ⟨table_setThread h.table t _, ?_, h.bound⟩
      refine threads_local h.threads rfl rfl hbef rfl (fun c' id' hid' => ?_) hcall
      cases hid'
      exact ⟨e, he, hidx⟩
    next hrdy => exact inv_deliver h hbef hcall he hidx (by simpa using hrdy)
  next hnone =>
    refine ⟨table_setThread (table_new h.table hnone) t _, ?_, h.bound⟩
    exact threads_new h.threads hbef rfl rfl hcall

lemma inv_read (hthread : s.threads t = .load c id) (ok : Bool)
    (buffer : Bytes) : Inv cfg (read cfg s t c id ok buffer) := by
  have hmine : (s.threads t).loads = some id := by
    rw [hthread]
    rfl
  have hcall : InCall cfg c := h.threads.call_ok hthread
  obtain ⟨e, he, hload⟩ := h.threads.owner t id hmine
  obtain ⟨e', he', hidx⟩ := h.threads.held t c id (by rw [hthread]; rfl)
  rw [he] at he'
  cases he'
  unfold read
  rw [entry_eq he]
  refine ⟨table_setThread (table_fill h.table he hload rfl hload) t _, ?_, h.bound⟩
  refine threads_modify h.threads hmine he rfl rfl rfl ?_ ?_ ?_ hcall
  · simp only [hload, if_true]
    rfl
  · intro c' id' hid'
    cases hid'
    exact ⟨rfl, hidx⟩
  · intro c' id' _ hok
    simp only [Bool.or_eq_false_iff, decide_eq_false_iff_not, Bool.not_eq_false'] at hok
    simp [hok.1, hok.2]

lemma inv_finish (hthread : s.threads t = .loaded c id) : Inv cfg (finish cfg s t c id) := by
  have hmine : (s.threads t).loads = some id := by
    rw [hthread]
    rfl
  have hcall : InCall cfg c := h.threads.call_ok hthread
  obtain ⟨e, he, hload⟩ := h.threads.owner t id hmine
  obtain ⟨e', he', hidx⟩ := h.threads.held t c id (by rw [hthread]; rfl)
  rw [he] at he'
  cases he'
  have hdata := h.threads.filled t c id e hthread he
  obtain ⟨hloads, hholds⟩ := loads_deliver cfg c e.data e.failed
  have hok : CallOk cfg (deliver cfg c e.data e.failed) := by
    refine callOk_deliver hcall fun hfail => ?_
    rw [hdata hfail, hidx]
  have hthreads : ∀ s' : State, s'.heap = (s.heap.modify id fun e => { e with loading := false }) →
      s'.threads = s.threads → Threads cfg (s'.setThread t (deliver cfg c e.data e.failed)) := by
    intro s' hheap hthreads
    refine threads_modify h.threads hmine he hheap ?_ rfl hloads ?_ ?_ hok
    · rw [← hthreads]
      rfl
    · intro c' id' hid'
      rw [hholds] at hid'
      cases hid'
    · intro c' id' hthread'
      rw [hthread'] at hloads
      cases hloads
  unfold finish
  simp only
  rw [entry_eq he]
  split
  next hfail =>
    refine ⟨table_setThread (table_drop h.table he hload hfail) t _, ?_, h.bound⟩
    exact hthreads _ rfl rfl
  next hfail =>
  have hfail' : e.failed = false := by simpa using hfail
  have hpub := table_publish h.table he hload hfail' (hdata hfail')
  obtain ⟨hheap, hkept⟩ := evictLocked_frame cfg (id :: s.lru).length { s with
    heap := s.heap.modify id fun e => { e with loading := false }
    lru := id :: s.lru
    bytes := s.bytes + (e.data.length : Int) }
  refine ⟨table_setThread (table_evictLocked _ hpub) t _, hthreads _ hheap hkept, ?_⟩
  exact bytes_evictLocked _ hpub le_rfl

lemma inv_wake (hthread : s.threads t = .wait c id)
    (hrdy : (s.entry id).loading = false) : Inv cfg (wake cfg s t c id) := by
  have hbef : (s.threads t).loads = none := by
    rw [hthread]
    rfl
  have hcall : InCall cfg c := h.threads.call_ok hthread
  obtain ⟨e, he, hidx⟩ := h.threads.held t c id (by rw [hthread]; rfl)
  unfold wake
  rw [entry_eq he] at hrdy ⊢
  exact inv_deliver h hbef hcall he hidx hrdy

end

/-- What one event of one thread does. -/
lemma step_cases {e : Event} (h : step cfg s e = some s') :
    (∃ t off len, (s.threads t).loads = none ∧ (s.threads t).holds = none ∧ s' = call cfg s t off len) ∨
    (∃ t c, s.threads t = .lookup c ∧ s' = lookup cfg s t c) ∨
    (∃ t c id ok buffer, s.threads t = .load c id ∧ s' = read cfg s t c id ok buffer) ∨
    (∃ t c id, s.threads t = .loaded c id ∧ s' = finish cfg s t c id) ∨
    ∃ t c id, s.threads t = .wait c id ∧ (s.entry id).loading = false ∧ s' = wake cfg s t c id := by
  cases e with
  | call t off len =>
    simp only [step] at h
    split at h
    case h_3 => cases h
    all_goals
      next hthread =>
      refine .inl ⟨t, off, len, ?_, ?_, (Option.some.inj h).symm⟩
      · rw [hthread]; rfl
      · rw [hthread]; rfl
  | lookup t =>
    simp only [step] at h
    split at h
    next c hthread => exact .inr (.inl ⟨t, c, hthread, (Option.some.inj h).symm⟩)
    · cases h
  | read t ok buffer =>
    simp only [step] at h
    split at h
    next c id hthread => exact .inr (.inr (.inl ⟨t, c, id, ok, buffer, hthread, (Option.some.inj h).symm⟩))
    · cases h
  | finish t =>
    simp only [step] at h
    split at h
    next c id hthread => exact .inr (.inr (.inr (.inl ⟨t, c, id, hthread, (Option.some.inj h).symm⟩)))
    · cases h
  | wake t =>
  simp only [step] at h
  split at h
  next c id hthread =>
    split at h
    · cases h
    next hrdy =>
      exact .inr (.inr (.inr (.inr ⟨t, c, id, hthread, by simpa using hrdy, (Option.some.inj h).symm⟩)))
  · cases h

/-- Every step keeps the invariant. -/
lemma inv_step {e : Event} (h : Inv cfg s) (hstep : step cfg s e = some s') : Inv cfg s' := by
  rcases step_cases hstep with ⟨t, off, len, hloads, -, rfl⟩ | ⟨t, c, hthread, rfl⟩ |
    ⟨t, c, id, ok, buffer, hthread, rfl⟩ | ⟨t, c, id, hthread, rfl⟩ | ⟨t, c, id, hthread, hrdy, rfl⟩
  · exact inv_call h hloads off len
  · exact inv_lookup h hthread
  · exact inv_read h hthread ok buffer
  · exact inv_finish h hthread
  · exact inv_wake h hthread hrdy

/-- Every run keeps the invariant. -/
lemma inv_run (evs : List Event) (h : Inv cfg s) (hrun : run cfg s evs = some s') : Inv cfg s' := by
  induction evs generalizing s with
  | nil =>
    cases hrun
    exact h
  | cons e evs ih =>
    obtain ⟨s1, hstep, hrest⟩ := Option.bind_eq_some_iff.mp hrun
    exact ih (inv_step h hstep) hrest

/-! ## Failed reads -/

/-- The load of the entry has failed. -/
def Failed (s : State) (id : Ref) : Prop :=
  ∃ e : Entry, s.heap[id]? = some e ∧ e.loading = false ∧ e.failed = true

/-- A failed entry is not in the map, so nobody finds it again. -/
lemma not_mapped_of_failed (h : Table cfg s) (hfail : Failed s id) (index : Nat) : s.entries index ≠ some id := by
  intro hid
  obtain ⟨e, he, hrdy, hbad⟩ := hfail
  obtain ⟨e', he', -, hok, -⟩ := h.lru id (h.listed index id e hid he hrdy)
  rw [he] at he'
  cases he'
  rw [hbad] at hok
  cases hok

/-- A failed read stays what it is, and no thread begins to wait for it. -/
lemma failed_step {e : Event} (h : Inv cfg s) (hstep : step cfg s e = some s') (hfail : Failed s id) :
    Failed s' id ∧ ∀ t c, s'.threads t = .wait c id → s.threads t = .wait c id := by
  have ⟨e0, he0, hrdy0, hbad0⟩ := hfail
  -- only the moving thread changes
  have hmoved : ∀ {t : Nat} {thread : Thread} {s' : State},
      s'.threads = update s.threads t thread → (∀ c, thread ≠ .wait c id) →
      ∀ t' c, s'.threads t' = .wait c id → s.threads t' = .wait c id := by
    intro t thread s' hthreads hnot t' c hwait
    rw [hthreads] at hwait
    by_cases ht : t' = t
    · rw [ht, update_self] at hwait
      exact absurd hwait (hnot c)
    · rw [update_of_ne ht] at hwait
      exact hwait
  have hdeliv : ∀ c data failed c', deliver cfg c data failed ≠ .wait c' id := by
    intro c data failed c' heq
    have hholds := (loads_deliver cfg c data failed).2
    rw [heq] at hholds
    cases hholds
  have hload : ∀ t id', (s.threads t).loads = some id' → id ≠ id' := by
    rintro t id' hid' rfl
    obtain ⟨e', he', hload⟩ := h.threads.owner t _ hid'
    rw [he0] at he'
    cases he'
    rw [hrdy0] at hload
    cases hload
  rcases step_cases hstep with ⟨t, off, len, -, -, rfl⟩ | ⟨t, c, hthread, rfl⟩ |
    ⟨t, c, id', ok, buffer, hthread, rfl⟩ | ⟨t, c, id', hthread, rfl⟩ | ⟨t, c, id', hthread, -, rfl⟩
  · unfold call
    split
    · exact ⟨hfail, hmoved rfl nofun⟩
    split
    · exact ⟨hfail, hmoved rfl nofun⟩
    · exact ⟨hfail, hmoved rfl nofun⟩
  · unfold lookup
    split
    next id' hid' =>
      split
      · refine ⟨hfail, hmoved rfl fun c' heq => ?_⟩
        cases heq
        exact not_mapped_of_failed h.table hfail _ hid'
      · exact ⟨hfail, hmoved rfl (hdeliv _ _ _)⟩
    · exact ⟨⟨e0, getElem?_push_old _ he0, hrdy0, hbad0⟩, hmoved rfl nofun⟩
  · have hne := hload t id' (by rw [hthread]; rfl)
    exact ⟨⟨e0, (getElem?_modify_other _ _ hne).trans he0, hrdy0, hbad0⟩, hmoved rfl nofun⟩
  · have hne := hload t id' (by rw [hthread]; rfl)
    have hframe : (finish cfg s t c id').heap = (s.heap.modify id' fun e => { e with loading := false }) ∧
        (finish cfg s t c id').threads =
          update s.threads t (deliver cfg c (s.entry id').data (s.entry id').failed) := by
      unfold finish
      simp only
      split
      · exact ⟨rfl, rfl⟩
      obtain ⟨hheap, hkept⟩ := evictLocked_frame cfg (id' :: s.lru).length { s with
        heap := s.heap.modify id' fun e => { e with loading := false }
        lru := id' :: s.lru
        bytes := s.bytes + ((s.entry id').data.length : Int) }
      refine ⟨hheap, ?_⟩
      unfold State.setThread
      rw [hkept]
    refine ⟨⟨e0, ?_, hrdy0, hbad0⟩, hmoved hframe.2 (hdeliv _ _ _)⟩
    rw [hframe.1]
    exact (getElem?_modify_other _ _ hne).trans he0
  · exact ⟨hfail, hmoved rfl (hdeliv _ _ _)⟩

/-- Nobody starts to wait for an entry that has failed. -/
lemma failed_run (evs : List Event) (h : Inv cfg s) (hrun : run cfg s evs = some s')
    (hfail : Failed s id) : ∀ t c, s'.threads t = .wait c id → s.threads t = .wait c id := by
  induction evs generalizing s with
  | nil =>
    cases hrun
    exact fun t c hwait => hwait
  | cons e evs ih =>
  obtain ⟨s1, hstep, hrest⟩ := Option.bind_eq_some_iff.mp hrun
  obtain ⟨hfail1, hwait1⟩ := failed_step h hstep hfail
  exact fun t c hwait => hwait1 t c (ih (inv_step h hstep) hrest hfail1 t c hwait)

/-! ## Main result -/

/-- The chunks in the cache, the most recently used first. -/
def cached (s : State) : List Nat := s.lru.map fun id => (s.entry id).index

/-- The cached chunks are those with an entry that is ready. -/
lemma mem_cached (h : Table cfg s) (index : Nat) :
    index ∈ cached s ↔ ∃ id, s.entries index = some id ∧ (s.entry id).loading = false := by
  unfold cached
  rw [mem_map]
  constructor
  · rintro ⟨id, hid, rfl⟩
    obtain ⟨e, he, hrdy, -, hent⟩ := h.lru id hid
    rw [entry_eq he]
    exact ⟨id, hent, by rw [entry_eq he]; exact hrdy⟩
  · rintro ⟨id, hid, hrdy⟩
    obtain ⟨e, he, hidx⟩ := h.mapped index id hid
    rw [entry_eq he] at hrdy
    exact ⟨id, h.listed index id e hid he hrdy, by rw [entry_eq he]; exact hidx⟩

lemma nodup_cached (h : Table cfg s) : (cached s).Nodup := by
  refine List.Nodup.map_on (fun id hid id' hid' heq => ?_) h.nodup
  obtain ⟨e, he, -, -, hent⟩ := h.lru id hid
  obtain ⟨e', he', -, -, hent'⟩ := h.lru id' hid'
  rw [entry_eq he, entry_eq he'] at heq
  rw [heq, hent'] at hent
  exact (Option.some.inj hent).symm

/-- The count of the bytes is the sum over the cached chunks. -/
lemma bytes_cached (h : Table cfg s) :
    s.bytes = ((cached s).map fun index => ((chunkBytes cfg index).length : Int)).sum := by
  rw [h.bytes]
  unfold cached
  rw [map_map]
  refine congrArg sum (map_congr_left fun id hid => ?_)
  obtain ⟨e, he, hrdy, hok, -⟩ := h.lru id hid
  rw [comp_apply, entry_eq he, h.data id e he hrdy hok]

/-- **The cache is transparent** in every state of any interleaving: reads return the bytes of the base,
the counter is the length of the cached chunks and within the limit, and a failed read is forgotten. -/
theorem cache_transparent (cfg : Config) (events : List Event) (s : State)
    (hrun : run cfg {} events = some s) :
    (∀ t c, s.threads t = .returned c none → c.done = Memory.window cfg.base c.off c.len) ∧
    s.bytes = ((cached s).map fun index => ((chunkBytes cfg index).length : Int)).sum ∧
    s.bytes ≤ cfg.maxBytes ∧
    (cached s).Nodup ∧
    (∀ index, index ∈ cached s ↔ ∃ id, s.entries index = some id ∧ (s.entry id).loading = false) ∧
    (∀ index id, s.entries index = some id →
      ((s.entry id).loading = true → ∃ t, (s.threads t).loads = some id) ∧
      ((s.entry id).loading = false → (s.entry id).failed = false ∧ (s.entry id).data = chunkBytes cfg index)) ∧
    ((∀ t, (s.threads t).loads = none) → ∀ index, index ∈ cached s ↔ (s.entries index).isSome) ∧
    (∀ t t' id id', (s.threads t).loads = some id → (s.threads t').loads = some id' →
      (s.entry id).index = (s.entry id').index → t = t') ∧
    ∀ id, Failed s id → (∀ index, s.entries index ≠ some id) ∧
      ∀ later s', run cfg s later = some s' → ∀ t c, s'.threads t = .wait c id → s.threads t = .wait c id := by
  have h := inv_run events (inv_init cfg) hrun
  have hmem := mem_cached h.table
  refine ⟨?_, bytes_cached h.table, h.bound, nodup_cached h.table, hmem, ?_, ?_, ?_, ?_⟩
  · intro t c hthread
    have hok := h.threads.calls t
    rw [hthread] at hok
    exact hok rfl
  · intro index id hid
    obtain ⟨e, he, hidx⟩ := h.table.mapped index id hid
    rw [entry_eq he]
    refine ⟨h.threads.owned id e he, fun hrdy => ?_⟩
    obtain ⟨e', he', -, hok, -⟩ := h.table.lru id (h.table.listed index id e hid he hrdy)
    rw [he] at he'
    cases he'
    exact ⟨hok, by rw [h.table.data id e he hrdy hok, hidx]⟩
  · intro hquiet index
    rw [hmem, Option.isSome_iff_exists]
    constructor
    · rintro ⟨id, hid, -⟩
      exact ⟨id, hid⟩
    rintro ⟨id, hid⟩
    refine ⟨id, hid, ?_⟩
    obtain ⟨e, he, -⟩ := h.table.mapped index id hid
    rw [entry_eq he]
    by_contra hload
    obtain ⟨t, ht⟩ := h.threads.owned id e he (by simpa using hload)
    rw [hquiet t] at ht
    cases ht
  · intro t t' id id' hid hid' hidx
    obtain ⟨e, he, hload⟩ := h.threads.owner t id hid
    obtain ⟨e', he', hload'⟩ := h.threads.owner t' id' hid'
    rw [entry_eq he, entry_eq he'] at hidx
    have hsame := h.table.loading id e he hload
    rw [hidx, h.table.loading id' e' he' hload'] at hsame
    cases hsame
    exact h.threads.unique t t' _ hid hid'
  · intro id hfail
    exact ⟨not_mapped_of_failed h.table hfail, fun later s' hlater => failed_run later h hlater hfail⟩

def smallCache : Config where
  base := fun i => UInt8.ofNat i
  size := 5
  chunkSize := 2
  maxBytes := 2
  chunkSize_pos := by decide

/-- Two readers of one chunk whose load fails, and reads of both chunks behind it. -/
def twoReaders : List Event :=
  [.call 0 1 2, .call 1 0 1, .lookup 0, .lookup 1, .read 0 false [], .finish 0, .wake 1,
    .call 0 1 2, .lookup 0, .read 0 true [], .finish 0, .lookup 0, .read 0 true [], .finish 0]

/-- The run of `twoReaders` exists, and its last read delivers the bytes of the base. -/
theorem cache_transparent_twoReaders :
    ∃ s, run smallCache {} twoReaders = some s ∧ s.bytes ≤ 2 ∧
      s.threads 0 = .returned ⟨1, 2, [1, 2]⟩ none ∧
      Memory.window smallCache.base 1 2 = [1, 2] := by
  have hsome : (run smallCache {} twoReaders).isSome := by decide +kernel
  obtain ⟨s, hs⟩ := Option.isSome_iff_exists.mp hsome
  have hthread : (run smallCache {} twoReaders).map (fun s => s.threads 0) =
      some (.returned ⟨1, 2, [1, 2]⟩ none) := rfl
  rw [hs] at hthread
  have hthread' : s.threads 0 = .returned ⟨1, 2, [1, 2]⟩ none := Option.some.inj hthread
  have h := cache_transparent smallCache twoReaders s hs
  exact ⟨s, hs, h.2.2.1, hthread', (h.1 0 _ hthread').symm⟩

/-! ## Calls end -/

/-- How many events a call has at most ahead. -/
def Thread.left : Thread → Nat
  | .lookup c => 4 * (c.len - c.done.length)
  | .load c _ | .wait c _ => 4 * (c.len - c.done.length) - 1
  | .loaded c _ => 4 * (c.len - c.done.length) - 2
  | .idle | .returned _ _ => 0

/-- The thread whose call the event continues. -/
def Event.continues : Event → Option Nat
  | .call _ _ _ => none
  | .lookup t | .read t _ _ | .finish t | .wake t => some t

/-- Delivering a chunk leaves fewer steps than the call had. -/
lemma left_deliver (h : InCall cfg c) (data : Bytes) (failed : Bool) :
    (deliver cfg c data failed).left < 4 * (c.len - c.done.length) - 2 := by
  have hmore := h.more
  unfold deliver
  simp only
  split_ifs
  · simp only [Thread.left]
    omega
  · simp only [Thread.left]
    omega
  · simp only [Thread.left, length_append, length_take, length_drop]
    omega
  · simp only [Thread.left]
    omega

/-- An event brings its call nearer to the end and moves no other thread. -/
lemma left_step {ev : Event} (h : Inv cfg s) (hev : ev.continues = some t) (hstep : step cfg s ev = some s') :
    ∃ thread, s'.threads = update s.threads t thread ∧ thread.left < (s.threads t).left := by
  cases ev with
  | call => cases hev
  | lookup =>
    cases hev
    simp only [step] at hstep
    split at hstep <;> cases hstep
    next c hthread =>
    have hcall : InCall cfg c := h.threads.call_ok hthread
    have hmore := hcall.more
    have hless : 4 * (c.len - c.done.length) - 1 < 4 * (c.len - c.done.length) := by omega
    rw [hthread]
    unfold lookup
    split
    · split
      · exact ⟨_, rfl, hless⟩
      · exact ⟨_, rfl, (left_deliver hcall _ _).trans_le (Nat.sub_le _ 2)⟩
    · exact ⟨_, rfl, hless⟩
  | read =>
    cases hev
    simp only [step] at hstep
    split at hstep <;> cases hstep
    next c id hthread =>
    have hmore := (show InCall cfg c from h.threads.call_ok hthread).more
    rw [hthread]
    exact ⟨_, rfl, show 4 * (c.len - c.done.length) - 2 < 4 * (c.len - c.done.length) - 1 by omega⟩
  | finish =>
    cases hev
    simp only [step] at hstep
    split at hstep <;> cases hstep
    next c id hthread =>
    rw [hthread]
    refine ⟨_, ?_, left_deliver (h.threads.call_ok hthread) (s.entry id).data (s.entry id).failed⟩
    unfold finish State.setThread
    simp only
    split
    · rfl
    · rw [(evictLocked_frame ..).2]
  | wake =>
    cases hev
    simp only [step] at hstep
    split at hstep
    next c id hthread =>
      split at hstep <;> cases hstep
      rw [hthread]
      exact ⟨_, rfl, (left_deliver (h.threads.call_ok hthread) _ _).trans_le (Nat.sub_le_sub_left (by decide) _)⟩
    · cases hstep

/-- The steps that a reader makes are paid for by its measure. -/
lemma left_run (t : Nat) (later : List Event) (h : Inv cfg s) (hcalls : ∀ ev ∈ later, ev.continues ≠ none)
    (hrun : run cfg s later = some s') :
    later.countP (·.continues = some t) + (s'.threads t).left ≤ (s.threads t).left := by
  induction later generalizing s with
  | nil =>
    cases hrun
    simp
  | cons ev later ih =>
  obtain ⟨s1, hstep, hrest⟩ := Option.bind_eq_some_iff.mp hrun
  obtain ⟨hev, hlater⟩ := forall_mem_cons.mp hcalls
  obtain ⟨t', ht'⟩ := Option.ne_none_iff_exists'.mp hev
  obtain ⟨thread, hthreads, hless⟩ := left_step h ht' hstep
  have hleft := ih (inv_step h hstep) hlater hrest
  rw [hthreads] at hleft
  rw [countP_cons, ht']
  by_cases ht : t = t'
  · rw [ht, update_self] at hleft
    simp only [ht, decide_true, if_true]
    omega
  · rw [update_of_ne ht] at hleft
    simpa [Ne.symm ht] using hleft

/-- **Calls end under every schedule.**  Without new calls a call has a bounded number of events ahead, and
while a call is under way some thread can move: a loader does not wait. -/
theorem calls_end (cfg : Config) (events : List Event) (s : State) (hrun : run cfg {} events = some s) (t : Nat) :
    (∀ later s', (∀ ev ∈ later, ev.continues ≠ none) → run cfg s later = some s' →
      later.countP (·.continues = some t) + (s'.threads t).left ≤ (s.threads t).left) ∧
    (s.threads t = .idle ∨ (∃ c err, s.threads t = .returned c err) ∨
      ∃ ev, ev.continues ≠ none ∧ (step cfg s ev).isSome) := by
  have h := inv_run events (inv_init cfg) hrun
  refine ⟨fun later s' hcalls hlater => left_run t later h hcalls hlater, ?_⟩
  have hmoves : ∀ t id, (s.threads t).loads = some id → ∃ ev, ev.continues ≠ none ∧ (step cfg s ev).isSome := by
    intro t id hload
    cases hthread : s.threads t with
    | idle | lookup | wait | returned => simp [hthread, Thread.loads] at hload
    | load => exact ⟨.read t true [], nofun, by simp [step, hthread]⟩
    | loaded => exact ⟨.finish t, nofun, by simp [step, hthread]⟩
  cases hthread : s.threads t with
  | idle => exact .inl rfl
  | returned => exact .inr (.inl ⟨_, _, rfl⟩)
  | lookup => exact .inr (.inr ⟨.lookup t, nofun, by simp [step, hthread]⟩)
  | load | loaded => exact .inr (.inr (hmoves t _ (by rw [hthread]; rfl)))
  | wait c id =>
    refine .inr (.inr ?_)
    obtain ⟨e, he, -⟩ := h.threads.held t c id (by rw [hthread]; rfl)
    cases hrdy : e.loading with
    | true =>
      obtain ⟨t', ht'⟩ := h.threads.owned id e he hrdy
      exact hmoves t' id ht'
    | false => exact ⟨.wake t, nofun, by simp [step, hthread, entry_eq he, hrdy]⟩

/-- A reader that waits has three steps left, and some step is possible. -/
theorem calls_end_waiting : ∃ s, run smallCache {} (twoReaders.take 4) = some s ∧ (s.threads 1).left = 3 ∧
    ∃ ev, ev.continues ≠ none ∧ (step smallCache s ev).isSome := by
  have hleft : (run smallCache {} (twoReaders.take 4)).map (fun s => (s.threads 1).left) = some 3 := rfl
  obtain ⟨s, hs, hthread⟩ := Option.map_eq_some_iff.mp hleft
  refine ⟨s, hs, hthread, ?_⟩
  rcases (calls_end smallCache _ s hs 1).2 with hidle | ⟨c, err, hret⟩ | hmoves
  · rw [hidle] at hthread
    cases hthread
  · rw [hret] at hthread
    cases hthread
  · exact hmoves

end Trex.Block.Cache
