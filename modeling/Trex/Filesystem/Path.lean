import Trex.Lib.Bytes

/-!
# Clean paths

`storage.CleanPath` turns a name into a rooted path without empty, `.` or `..` parts.  A
`Path` is such a path, split at its slashes; paths are ordered as their texts are.
-/

namespace Trex.Filesystem

open List

open Bytes (ascii)

/-- What stands between two slashes of a clean path. -/
def Component (c : Bytes) : Prop := c ≠ [] ∧ 47 ∉ c ∧ c ≠ ascii "." ∧ c ≠ ascii ".."

instance (c : Bytes) : Decidable (Component c) :=
  inferInstanceAs (Decidable (c ≠ [] ∧ 47 ∉ c ∧ c ≠ ascii "." ∧ c ≠ ascii ".."))

/-- A clean absolute path, as its components. -/
structure Path where
  parts : List Bytes
  clean : ∀ c ∈ parts, Component c

namespace Path

lemma ext_parts {p q : Path} (h : p.parts = q.parts) : p = q := by
  cases p
  cases q
  simp_all

instance : DecidableEq Path := fun p q => decidable_of_iff (p.parts = q.parts) ⟨ext_parts, fun h => by rw [h]⟩

def root : Path := ⟨[], by simp⟩

/-- `path.Dir`; the root is its own parent. -/
def dir (p : Path) : Path := ⟨p.parts.dropLast, fun c hc => p.clean c (List.dropLast_subset _ hc)⟩

def base (p : Path) : Bytes := p.parts.getLastD (ascii "/")

/-- The path as a string. -/
def text (p : Path) : Bytes :=
  if p.parts = [] then ascii "/" else p.parts.flatMap fun c => 47 :: c

@[simp] lemma dir_root : root.dir = root := rfl

/-! ## The order -/

/-- Components without slashes can be told apart in the text. -/
lemma flatMap_slash_eq {cs cs' : List Bytes} (h : ∀ c ∈ cs, 47 ∉ c) (h' : ∀ c ∈ cs', 47 ∉ c)
    (heq : (cs.flatMap fun c => 47 :: c) = cs'.flatMap fun c => 47 :: c) : cs = cs' := by
  induction cs generalizing cs' with
  | nil =>
    cases cs' with
    | nil => rfl
    | cons c' cs' => simp at heq
  | cons c cs ih =>
  cases cs' with
  | nil => simp at heq
  | cons c' cs' =>
  rw [flatMap_cons, flatMap_cons, cons_append, cons_append, cons.injEq] at heq
  -- a component ends where the next slash stands
  have hfirst : ∀ (c : Bytes) (rest : List Bytes), 47 ∉ c →
      ((c ++ rest.flatMap fun c => 47 :: c).takeWhile fun b => b ≠ 47) = c := by
    intro c rest hc
    rw [takeWhile_append_of_pos]
    · cases rest with
      | nil => simp
      | cons r rest => simp
    · intro b hb
      simp only [ne_eq, decide_not, Bool.not_eq_eq_eq_not, Bool.not_true, decide_eq_false_iff_not]
      rintro rfl
      exact hc hb
  have hc : c = c' := by
    have htake := congrArg (takeWhile fun b => decide (b ≠ 47)) heq.2
    rwa [hfirst c cs (h c mem_cons_self), hfirst c' cs' (h' c' mem_cons_self)] at htake
  subst hc
  have hrest := append_cancel_left heq.2
  rw [ih (fun c hc => h c (mem_cons_of_mem _ hc))
    (fun c hc => h' c (mem_cons_of_mem _ hc)) hrest]

/-- Different paths have different texts. -/
lemma text_injective : Function.Injective text := by
  intro p q h
  apply ext_parts
  have hslash : ∀ p : Path, p.parts ≠ [] → text p ≠ ascii "/" := by
    intro p hp htext
    obtain ⟨c, cs, hcs⟩ := exists_cons_of_ne_nil hp
    have hc := (p.clean c (by rw [hcs]; exact mem_cons_self)).1
    unfold text at htext
    rw [if_neg hp, hcs] at htext
    have hlen := congrArg length htext
    have hpos := length_pos_iff.mpr hc
    simp only [flatMap_cons, length_append, length_cons] at hlen
    have hone : (ascii "/").length = 1 := rfl
    omega
  by_cases hp : p.parts = []
  · by_cases hq : q.parts = []
    · rw [hp, hq]
    · refine absurd ?_ (hslash q hq)
      rw [← h, text, if_pos hp]
  by_cases hq : q.parts = []
  · refine absurd ?_ (hslash p hp)
    rw [h, text, if_pos hq]
  · unfold text at h
    rw [if_neg hp, if_neg hq] at h
    exact flatMap_slash_eq (fun c hc => (p.clean c hc).2.1) (fun c hc => (q.clean c hc).2.1) h

instance : LinearOrder Path := LinearOrder.lift' text text_injective

end Path

/-! ## Cleaning -/

/-- `strings.Split` at slashes. -/
def splitSlash : Bytes → List Bytes
  | [] => [[]]
  | b :: s =>
    if b = 47 then [] :: splitSlash s
    else
      match splitSlash s with
      | [] => [[b]]
      | c :: cs => (b :: c) :: cs

/-- One part of `path.Clean`: `..` goes up, a name goes down. -/
def cleanPart (p : Path) (c : Bytes) : Path :=
  if c = ascii ".." then p.dir
  else if h : Component c then
    ⟨p.parts ++ [c], by
      intro c' hc'
      rcases List.mem_append.mp hc' with hc' | hc'
      · exact p.clean c' hc'
      · rw [List.mem_singleton.mp hc']
        exact h⟩
  else p

/-- `storage.CleanPath`: backslashes count as slashes, and dots are resolved. -/
def cleanPath (name : Bytes) : Path :=
  (splitSlash (name.map fun b => if b = 92 then 47 else b)).foldl cleanPart Path.root

example : (cleanPath (ascii "a\\..//b/./c")).text = ascii "/b/c" := by decide +kernel

end Trex.Filesystem
