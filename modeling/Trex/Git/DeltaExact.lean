import Trex.Git.Pack

/-!
# Deltas against Git's interpreter

`gitPatch` runs a delta as Git does.  `translateDelta` makes extents of it, which `applyExtents` turns
into the same bytes.  The translation refuses more: sizes that `binary.Uvarint` does not read, outputs
above 1 GiB and more than `2 ^ 20` instructions.
-/

namespace Trex.GitStore

open List

open Slice
open Trex.Repo (Extent applyExtent applyExtents maxBody refuse)

/-! ## The interpreter -/

/-- A size of the header: groups of seven bits, the low group first. -/
def gitSize : Bytes → Option (Nat × Bytes)
  | [] => none
  | b :: data =>
      if b.toNat < 128 then some (b.toNat, data)
      else (gitSize data).map fun (n, rest) => (b.toNat - 128 + 128 * n, rest)

/-- The operand bytes that the bits of an instruction announce. -/
def gitOperands (op : Nat) : List Nat → Bytes → Option (List (Nat × Nat) × Bytes)
  | [], data => some ([], data)
  | bit :: bits, data =>
      if op / 2 ^ bit % 2 = 0 then gitOperands op bits data
      else
        match data with
        | [] => none
        | b :: data => (gitOperands op bits data).map fun (l, rest) => ((bit, b.toNat) :: l, rest)

/-- The offset is in the bytes of the bits 0 to 3, the length in those of the bits 4 to 6. -/
def gitOffset (operands : List (Nat × Nat)) : Nat :=
  (operands.map fun (bit, b) => if bit < 4 then b * 256 ^ bit else 0).sum

/-- The length operand. -/
def gitLength (operands : List (Nat × Nat)) : Nat :=
  (operands.map fun (bit, b) => if bit < 4 then 0 else b * 256 ^ (bit - 4)).sum

/-- What one instruction appends to the output, and what follows the instruction. -/
def gitInstruction (base : Bytes) : Bytes → Option (Bytes × Bytes)
  | [] => none
  | op :: data =>
      if op.toNat < 128 then
        if op.toNat = 0 ∨ data.length < op.toNat then none
        else some (data.take op.toNat, data.drop op.toNat)
      else
        match gitOperands op.toNat (List.range 7) data with
        | none => none
        | some (operands, data) =>
            let offset := gitOffset operands
            let length := if gitLength operands = 0 then 0x10000 else gitLength operands
            if base.length < offset + length then none
            else some (slice base offset length, data)

/-- What the instructions append one after the other; every turn takes bytes off the data. -/
def gitPieces (base : Bytes) : Nat → Bytes → Option (List Bytes)
  | 0, _ => some []
  | turns + 1, data =>
      if data = [] then some []
      else
        match gitInstruction base data with
        | none => none
        | some (piece, rest) => (gitPieces base turns rest).map (piece :: ·)

/-- The whole delta.  The output is the concatenation of the pieces. -/
def gitPatch (base delta : Bytes) : Option (List Bytes) := do
  let (n, data) ← gitSize delta
  let (size, data) ← gitSize data
  let pieces ← gitPieces base data.length data
  if n = base.length ∧ pieces.flatten.length = size then some pieces else none

/-! ## One instruction -/

/-- The bytes of an extent. -/
def piece (base : Bytes) (e : Extent) : Bytes := e.data.getD (slice base e.offset e.length)

/-- The operands of a copy are read as Git reads them. -/
lemma deltaCopy_eq (op : Nat) (bits : List Nat) (off len : Nat) (data : Bytes) :
    deltaCopy op bits off len data = match gitOperands op bits data with
      | none => .error .unexpectedEOF
      | some (l, rest) => .ok (off + gitOffset l, len + gitLength l, rest) := by
  induction bits generalizing off len data with
  | nil => simp [deltaCopy, gitOperands, gitOffset, gitLength]
  | cons bit bits ih =>
  rw [deltaCopy.eq_def, gitOperands.eq_def]
  dsimp only
  split
  · exact ih off len data
  cases data with
  | nil => rfl
  | cons b data =>
  simp only [ih]
  cases gitOperands op bits data with
  | none => simp
  | some r => split <;> simp [gitOffset, gitLength, *, add_assoc]

/-- One instruction makes the piece that Git makes. -/
lemma gitInstruction_eq (base data : Bytes) : gitInstruction base data = match deltaExtent base.length data with
      | .error _ => none
      | .ok (e, rest) => some (piece base e, rest) := by
  cases data with
  | nil => rfl
  | cons op data =>
  have hzero : op = 0 ↔ op.toNat = 0 := by
    rw [← UInt8.toNat_inj]
    rfl
  rw [gitInstruction, deltaExtent]
  split
  · simp only [hzero, gt_iff_lt]
    split <;> rfl
  rw [deltaCopy_eq, show range 7 = [0, 1, 2, 3, 4, 5, 6] from rfl]
  cases gitOperands op.toNat [0, 1, 2, 3, 4, 5, 6] data with
  | none => rfl
  | some r =>
    simp only [zero_add]
    grind [piece]

/-- An extent of the translation is a literal of its length or a part of the base. -/
lemma deltaExtent_cases {base data rest : Bytes} {e : Extent} (h : deltaExtent base.length data = .ok (e, rest)) :
    (∃ literal, e.data = some literal ∧ literal.length = e.length) ∨
      e.data = none ∧ e.offset + e.length ≤ base.length := by
  cases data with
  | nil => simp [deltaExtent] at h
  | cons op data => grind [deltaExtent]

/-- An accepted extent applies to the base. -/
lemma deltaExtent_applies {base data rest : Bytes} {e : Extent} (h : deltaExtent base.length data = .ok (e, rest)) :
    (piece base e).length = e.length ∧ ∀ size out, e.length ≤ size - out.length →
      applyExtent base size out e = .ok (out ++ piece base e) := by
  unfold piece applyExtent refuse
  rcases deltaExtent_cases h with ⟨literal, hdata, hlength⟩ | ⟨hdata, hins⟩
  · refine ⟨by rw [hdata]; exact hlength, fun size out hfit => ?_⟩
    rw [hdata, if_neg (by omega)]
    dsimp only
    rw [if_neg (not_not_intro hlength)]
    rfl
  · refine ⟨by rw [hdata]; exact length_slice base _ _ hins, fun size out hfit => ?_⟩
    rw [hdata, if_neg (by omega), if_neg (by omega)]
    rfl

/-! ## The loop -/

section

variable {base data : Bytes} {size turns produced : Nat} {out : List Extent}

/-- An accepted delta makes the pieces that Git makes. -/
lemma deltaExtents_sound {exts : List Extent} {total : Nat}
    (h : deltaExtents base.length size turns data produced out = .ok (exts, total))
    (hout : out.length ≤ 2 ^ 20) : ∃ new, exts = out ++ new ∧ exts.length ≤ 2 ^ 20 ∧
      gitPieces base turns data = some (new.map (piece base)) ∧
      total = produced + (new.map (piece base)).flatten.length ∧ ∀ acc : Bytes, acc.length = produced →
        new.foldlM (applyExtent base size) acc = .ok (acc ++ (new.map (piece base)).flatten) := by
  induction turns generalizing data produced out with
  | zero =>
    cases h
    exact ⟨[], by simp, hout, rfl, rfl, fun acc _ => by simp; rfl⟩
  | succ turns ih =>
  rw [deltaExtents] at h
  rw [gitPieces, gitInstruction_eq]
  split at h
  · cases h
    exact ⟨[], by simp, hout, by simp [*], rfl, fun acc _ => by simp; rfl⟩
  split at h
  · cases h
  next hdata e rest hext =>
  obtain ⟨hlength, happly⟩ := deltaExtent_applies hext
  split at h
  · cases h
  split at h
  · cases h
  obtain ⟨new, rfl, hcount, hpieces, rfl, hfold⟩ := ih h (by simp; omega)
  refine ⟨e :: new, by simp, hcount, by simp [*], by simp; omega, fun acc hacc => ?_⟩
  rw [foldlM_cons, happly size acc (by omega)]
  refine (hfold (acc ++ piece base e) (by rw [length_append]; omega)).trans ?_
  simp

/-- Pieces inside the limits are accepted. -/
lemma deltaExtents_complete {pieces : List Bytes} (h : gitPieces base turns data = some pieces)
    (hsize : produced + pieces.flatten.length ≤ size) (hcount : out.length + pieces.length ≤ 2 ^ 20) :
    ∃ exts, deltaExtents base.length size turns data produced out =
      .ok (exts, produced + pieces.flatten.length) := by
  induction turns generalizing data produced out pieces with
  | zero =>
    cases h
    exact ⟨_, rfl⟩
  | succ turns ih =>
  rw [gitPieces, gitInstruction_eq] at h
  rw [deltaExtents]
  split
  next hdata =>
    cases (if_pos hdata).symm.trans h
    exact ⟨_, rfl⟩
  next hdata =>
  rw [if_neg hdata] at h
  split
  next hext => simp [hext] at h
  next e rest hext =>
  simp only [hext, Option.map_eq_some_iff] at h
  obtain ⟨others, hoths, rfl⟩ := h
  have hlength := (deltaExtent_applies hext).1
  simp only [flatten_cons, length_append, length_cons] at hsize hcount ⊢
  rw [if_neg (by omega), if_neg (by omega)]
  rw [hlength, ← add_assoc]
  exact ih hoths (by omega) (by simp; omega)

end

/-! ## The whole delta -/

lemma gitSize_of_loop {data : Bytes} {val weight taken v t : Nat}
    (h : Uvarint.loop data val weight taken = some (v, t)) :
    ∃ n, gitSize data = some (n, data.drop (t - taken)) ∧ v = val + n * weight ∧ taken < t := by
  induction data generalizing val weight taken with
  | nil => simp [Uvarint.loop] at h
  | cons b data ih =>
  rw [Uvarint.loop] at h
  split at h
  · cases h
  split at h
  next hb =>
    split at h
    · cases h
    cases h
    exact ⟨b.toNat, by simp [gitSize, hb], rfl, by omega⟩
  next hb =>
  obtain ⟨n, hn, rfl, ht⟩ := ih h
  refine ⟨b.toNat - 128 + 128 * n, ?_, by ring, by omega⟩
  rw [gitSize, if_neg hb, hn, show t - taken = t - (taken + 1) + 1 by omega]
  rfl

/-- A size that is read is the one that Git reads. -/
lemma gitSize_of_deltaSize {data : Bytes} {r : Nat × Bytes} (h : deltaSize data = some r) :
    gitSize data = some r := by
  obtain ⟨⟨v, t⟩, hloop, rfl⟩ := Option.map_eq_some_iff.mp h
  obtain ⟨n, hn, rfl, _⟩ := gitSize_of_loop hloop
  simpa using hn

/-- Both sizes are in the form that `binary.Uvarint` reads: at most ten bytes, below `2 ^ 64`. -/
def ReadableSizes (delta : Bytes) : Prop :=
  ∃ p q, deltaSize delta = some p ∧ deltaSize p.2 = some q

/-- An accepted delta makes the body that Git makes. -/
lemma translateDelta_sound {base delta : Bytes} {exts : List Extent} {size : Nat}
    (h : translateDelta delta base.length = .ok (exts, size)) :
    gitPatch base delta = some (exts.map (piece base)) ∧ ReadableSizes delta ∧
      (exts.map (piece base)).flatten.length ≤ 2 ^ 30 ∧ exts.length ≤ 2 ^ 20 ∧
      applyExtents base exts size = .ok (exts.map (piece base)).flatten := by
  rw [translateDelta] at h
  split at h
  · cases h
  next n data hn =>
  split at h
  · cases h
  next hbase =>
  split at h
  · cases h
  next found rest hsize =>
  split at h
  · cases h
  next hlim =>
  split at h
  · cases h
  next out total hloop =>
  split at h
  · cases h
  next htot =>
  cases h
  obtain ⟨new, rfl, hcount, hpieces, rfl, hfold⟩ := deltaExtents_sound hloop (Nat.zero_le _)
  rw [zero_add, not_not] at htot
  refine ⟨?_, ⟨_, _, hn, hsize⟩, by omega, hcount, ?_⟩
  · simp only [gitPatch, gitSize_of_deltaSize hn, gitSize_of_deltaSize hsize, bind, Option.bind]
    rw [hpieces]
    exact if_pos ⟨not_not.mp hbase, htot⟩
  · unfold applyExtents refuse maxBody
    rw [if_neg hlim]
    simp only [bind, Except.bind]
    rw [hfold [] rfl]
    simp [htot, pure, Except.pure]

/-- **Deltas.**  The translation accepts what the interpreter accepts, within its limits, and
then its extents make the interpreter's output. -/
theorem translateDelta_refines_git (base delta : Bytes) :
    ((∃ extents size, translateDelta delta base.length = .ok (extents, size)) ↔
      ∃ pieces, gitPatch base delta = some pieces ∧ ReadableSizes delta ∧
        pieces.flatten.length ≤ 2 ^ 30 ∧ pieces.length ≤ 2 ^ 20) ∧
    ∀ extents size, translateDelta delta base.length = .ok (extents, size) →
      ∀ pieces, gitPatch base delta = some pieces → applyExtents base extents size = .ok pieces.flatten := by
  refine ⟨⟨?_, ?_⟩, fun extents size h pieces hpat => ?_⟩
  · rintro ⟨extents, size, h⟩
    obtain ⟨hpat, hsizes, hlim, hcount, -⟩ := translateDelta_sound h
    exact ⟨_, hpat, hsizes, hlim, by simpa using hcount⟩
  · rintro ⟨pieces, hpat, ⟨⟨n, data⟩, ⟨size, rest⟩, hn, hsize⟩, hlim, hcount⟩
    simp only [gitPatch, gitSize_of_deltaSize hn, gitSize_of_deltaSize hsize, Option.bind_eq_bind,
      Option.bind_some, Option.bind_eq_some_iff] at hpat
    obtain ⟨found, hpieces, hpat⟩ := hpat
    split at hpat
    next heq =>
      obtain ⟨rfl, rfl⟩ := heq
      cases hpat
      have hroom : ([] : List Extent).length + pieces.length ≤ 2 ^ 20 := by simpa using hcount
      obtain ⟨extents, hloop⟩ := deltaExtents_complete hpieces (Nat.le_of_eq (Nat.zero_add _)) hroom
      refine ⟨extents, pieces.flatten.length, ?_⟩
      simp only [translateDelta, hn, hsize, hloop]
      rw [if_neg (by simp), if_neg (by omega), if_neg (by simp)]
    · cases hpat
  · obtain ⟨hnew, -, -, -, happly⟩ := translateDelta_sound h
    cases hnew.symm.trans hpat
    exact happly

/-- The longest copy from the start of a base of 16 MiB, again and again. -/
lemma gitPieces_copies {base : Bytes} (hbase : base.length = 2 ^ 24) {n turns : Nat} (h : n ≤ turns) :
    gitPieces base turns (replicate n [0xf0, 0xff, 0xff, 0xff]).flatten =
      some (replicate n (slice base 0 (2 ^ 24 - 1))) := by
  induction n generalizing turns with
  | zero => cases turns <;> rfl
  | succ n ih =>
  cases turns with
  | zero => omega
  | succ turns =>
  have hcopy : ∀ rest, gitInstruction base (0xf0 :: 0xff :: 0xff :: 0xff :: rest) =
      some (slice base 0 (2 ^ 24 - 1), rest) := by
    intro rest
    have hoperands : gitOperands 0xf0 (List.range 7) (0xff :: 0xff :: 0xff :: rest) =
        some ([(4, 0xff), (5, 0xff), (6, 0xff)], rest) := rfl
    have hop : (0xf0 : UInt8).toNat = 0xf0 := rfl
    rw [gitInstruction, hop, if_neg (by decide), hoperands]
    have hlength : gitLength [(4, 0xff), (5, 0xff), (6, 0xff)] = 2 ^ 24 - 1 := by decide
    have hoffset : gitOffset [(4, 0xff), (5, 0xff), (6, 0xff)] = 0 := by decide
    simp only [hlength, hoffset]
    rw [if_neg (by decide : ¬ 2 ^ 24 - 1 = 0), if_neg (by omega)]
  rw [replicate_succ, flatten_cons, cons_append, gitPieces, if_neg (by simp)]
  simp only [cons_append, nil_append, hcopy, ih (Nat.le_of_succ_le_succ h), Option.map_some, replicate_succ]

/-- A delta of 269 bytes that copies most of a base of 16 MiB 65 times: its output of more than 1 GiB is
refused. -/
theorem translateDelta_refuses_long_output : ∃ base delta pieces, base.length = 2 ^ 24 ∧ delta.length = 269 ∧
    gitPatch base delta = some pieces ∧ translateDelta delta base.length = .error .deltaOutputLimit := by
  have hrefused : ∀ {base rest : Bytes} {pieces : List Bytes}, base.length = 2 ^ 24 → rest.length = 260 →
      gitPieces base rest.length rest = some pieces → pieces.flatten.length = 1090518975 →
      ∃ base delta pieces, base.length = 2 ^ 24 ∧ delta.length = 269 ∧ gitPatch base delta = some pieces ∧
        translateDelta delta base.length = .error .deltaOutputLimit := by
    intro base rest pieces hbase hrest hpieces hlength
    have hsize : gitSize (191 :: 255 :: 255 :: 135 :: 4 :: rest) = some (1090518975, rest) := rfl
    refine ⟨base, 128 :: 128 :: 128 :: 8 :: 191 :: 255 :: 255 :: 135 :: 4 :: rest, pieces, hbase,
      by simp [hrest], ?_, ?_⟩
    · rw [gitPatch, show gitSize (128 :: 128 :: 128 :: 8 :: _) = some (2 ^ 24, _) from rfl]
      simp only [hsize, hpieces, bind, Option.bind]
      exact if_pos ⟨hbase.symm, hlength⟩
    · rw [hbase]
      simp [translateDelta, deltaSize, Uvarint.decode, Uvarint.loop]
  have hbase : (List.replicate (2 ^ 24) (0 : UInt8)).length = 2 ^ 24 := length_replicate
  have hblocks : ∀ (n : Nat) (block : Bytes), (List.replicate n block).flatten.length = n * block.length := by simp
  have hrest : (List.replicate 65 [(0xf0 : UInt8), 0xff, 0xff, 0xff]).flatten.length = 260 := hblocks 65 _
  have hcopied := length_slice (List.replicate (2 ^ 24) (0 : UInt8)) 0 (2 ^ 24 - 1) (by rw [hbase]; omega)
  refine hrefused hbase hrest (gitPieces_copies hbase (by rw [hrest]; omega)) ?_
  generalize slice (List.replicate (2 ^ 24) (0 : UInt8)) 0 (2 ^ 24 - 1) = copied at hcopied
  rw [hblocks, hcopied]
  rfl

end Trex.GitStore
