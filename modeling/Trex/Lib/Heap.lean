import Mathlib.Tactic.Common

/-!
# A heap of buffers

Go slices are references.  Where that matters a buffer lives in a heap and structures hold its address;
`Extends h h'` says that `h'` only added buffers.
-/

/-- Cells that are allocated in order and never freed. -/
structure Heap (β : Type) where
  cells : List β

namespace Heap

variable {β : Type}

def empty : Heap β := ⟨[]⟩

def size (h : Heap β) : Nat := h.cells.length

def read (h : Heap β) (a : Nat) : Option β := h.cells[a]?

def alloc (h : Heap β) (v : β) : Heap β := ⟨h.cells ++ [v]⟩

def modify (h : Heap β) (a : Nat) (f : β → β) : Heap β := ⟨h.cells.modify a f⟩

/-- The cells of the first heap are there unchanged. -/
def Extends (h h' : Heap β) : Prop :=
  h.size ≤ h'.size ∧ ∀ a, a < h.size → h'.read a = h.read a

section

variable (h : Heap β)

include h

@[simp] lemma size_alloc (v : β) : (h.alloc v).size = h.size + 1 := by
  simp [alloc, size]

@[simp] lemma size_modify (a : Nat) (f : β → β) : (h.modify a f).size = h.size := by
  simp [modify, size]

lemma read_alloc_self (v : β) : (h.alloc v).read h.size = some v := by
  simp [alloc, read, size]

lemma read_alloc_lt (v : β) (a : Nat) (ha : a < h.size) : (h.alloc v).read a = h.read a := by
  unfold alloc read
  exact List.getElem?_append_left ha

lemma read_modify_self (a : Nat) (f : β → β) : (h.modify a f).read a = (h.read a).map f := by
  unfold modify read
  rw [List.getElem?_modify]
  simp

lemma read_modify_ne (a a' : Nat) (f : β → β) (hne : a ≠ a') : (h.modify a f).read a' = h.read a' := by
  unfold modify read
  rw [List.getElem?_modify]
  simp [hne]

lemma Extends.refl : Extends h h := ⟨Nat.le_refl _, fun _ _ => rfl⟩

end

lemma Extends.trans {h h' h'' : Heap β} (h1 : Extends h h') (h2 : Extends h' h'') : Extends h h'' := by
  refine ⟨Nat.le_trans h1.1 h2.1, fun a ha => ?_⟩
  rw [h2.2 a (Nat.lt_of_lt_of_le ha h1.1), h1.2 a ha]

lemma extends_alloc (h : Heap β) (v : β) : Extends h (h.alloc v) :=
  ⟨by simp, fun a ha => read_alloc_lt h v a ha⟩

/-- Updating a buffer that `h` does not know keeps an extension of `h`. -/
lemma Extends.modify {h h' : Heap β} (he : Extends h h') (a : Nat) (f : β → β)
    (ha : h.size ≤ a) : Extends h (h'.modify a f) := by
  refine ⟨by simpa using he.1, fun a' ha' => ?_⟩
  rw [read_modify_ne _ _ _ _ (by omega), he.2 a' ha']

end Heap
