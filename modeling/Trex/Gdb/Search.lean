import Mathlib.Data.List.Find
import Trex.Lib.Hex
import Trex.Lib.Memory
import Trex.Lib.Bytes

/-!
# Memory search of a GDB session (`debug/gdb_memory.go`)

`search_memory` reads the range in chunks and searches each with the last bytes of the one before.
`execute` is the reply to the packet `m` with an address and a length.
-/

namespace Trex.Gdb

open List Memory

/-- Why a read of memory fails. -/
inductive MemoryError where
  | exchange
  | target (reply : Bytes)
  | invalidReply
  | invalidArgument
deriving DecidableEq, Repr

def isGDBError (reply : Bytes) : Bool := 3 ≤ reply.length && reply.head? = some 0x45

/-- The bytes of a reply, at most `maximum`. -/
def decodeGDBHex (reply : Bytes) (maximum : Nat) : Option Bytes :=
  if reply.length % 2 ≠ 0 ∨ reply.length / 2 > maximum then none else Hex.decode reply

/-- How much `readMemory` asks for at a time. -/
def readMaximum (packetSize : Nat) : Nat := max 1 ((packetSize - 64) / 2)

section

variable (execute : Nat → Nat → Except MemoryError Bytes) (packetSize : Nat)

/-- Reads in packets, until all bytes are there. -/
def readMemory (address size : Nat) (data : Bytes) : Except MemoryError Bytes :=
  if data.length < size then
    let length := min (size - data.length) (readMaximum packetSize)
    match execute ((address + data.length) % 2 ^ 64) length with
    | .error e => .error e
    | .ok reply =>
      if isGDBError reply then .error (.target reply)
      else match decodeGDBHex reply length with
        | none => .error .invalidReply
        | some chunk =>
          if chunk.length ≠ length then .error .invalidReply else readMemory address size (data ++ chunk)
  else .ok data
termination_by size - data.length
decreasing_by
  have hpos : 1 ≤ readMaximum packetSize := le_max_left _ _
  rw [length_append]
  omega

/-- `bytes.Index`. -/
def index (text pattern : Bytes) : Option Nat :=
  (range (text.length + 1 - pattern.length)).find? fun i => (text.drop i).take pattern.length = pattern

/-- The matches in one window. -/
def searchWindow (start base : Nat) (text pattern : Bytes) (limit search : Nat) (results : List Nat) : List Nat :=
  if search + pattern.length ≤ text.length ∧ results.length < limit then
    match index (text.drop search) pattern with
    | none => results
    | some found =>
      let address := (base + (search + found)) % 2 ^ 64
      searchWindow start base text pattern limit (search + found + 1)
        (if address ≥ start then results ++ [address] else results)
  else results
termination_by text.length + 1 - search

def chunkSize : Nat := 2 ^ 20

/-- The search, window by window with the end of the last one in front. -/
def searchMemory (start size : Nat) (pattern : Bytes) (limit offset : Nat) (carry : Bytes) (results : List Nat) :
    Except MemoryError (List Nat) :=
  if offset < size ∧ results.length < limit then
    let length := min (size - offset) chunkSize
    match readMemory execute packetSize ((start + offset) % 2 ^ 64) length [] with
    | .error e => .error e
    | .ok chunk =>
      let text := carry ++ chunk
      let base := (start + (offset - carry.length)) % 2 ^ 64
      let keep := min (pattern.length - 1) text.length
      searchMemory start size pattern limit (offset + length) (text.drop (text.length - keep))
        (searchWindow start base text pattern limit 0 results)
  else .ok results
termination_by size - offset
decreasing_by
  have hpos : 1 ≤ chunkSize := by decide
  omega

/-- The checks of the arguments. -/
def searchMemoryBuiltin (memoryLimit start : Nat) (size : Int) (pattern : Bytes) (limit : Int) :
    Except MemoryError (List Nat) :=
  if pattern.length > 2 ^ 20 ∨ pattern = [] ∨ size < 0 ∨ size > memoryLimit ∨ limit < 0 ∨ limit > 2 ^ 20 then
    .error .invalidArgument
  else searchMemory execute packetSize start size.toNat pattern limit.toNat 0 [] []

end

/-! ## What the target answers -/

/-- The target answers with its memory. -/
def Shows (execute : Nat → Nat → Except MemoryError Bytes) (packetSize : Nat) (memory : Nat → UInt8) : Prop :=
  ∀ address n, n ≤ readMaximum packetSize → address + n ≤ 2 ^ 64 →
    execute address n = .ok (Hex.encode (window memory address n))

section

variable {execute : Nat → Nat → Except MemoryError Bytes} {packetSize : Nat} {memory : Nat → UInt8} {pat : Bytes}

/-- No data in hexadecimal look like an error. -/
lemma isGDBError_encode (data : Bytes) : isGDBError (Hex.encode data) = false := by
  have hdigit : ∀ n < 16, Hex.digit n ≠ 0x45 := by decide
  cases data with
  | nil => rfl
  | cons b data =>
  have hb := b.toNat_lt
  have hhead : (Hex.encode (b :: data)).head? = some (Hex.digit (b.toNat / 16)) := rfl
  rw [isGDBError, hhead]
  simp [hdigit (b.toNat / 16) (by omega)]

lemma decodeGDBHex_encode (data : Bytes) : decodeGDBHex (Hex.encode data) data.length = some data := by
  unfold decodeGDBHex
  rw [Hex.length_encode, if_neg (by omega), Hex.decode_encode]

/-- Reading in packets gives the window, from any point on. -/
lemma readMemory_shows (h : Shows execute packetSize memory) {address n size : Nat} (hbound : address + size ≤ 2 ^ 64)
    (hn : n ≤ size) :
    readMemory execute packetSize address size (window memory address n) = .ok (window memory address size) := by
  have hpos : 1 ≤ readMaximum packetSize := le_max_left _ _
  induction hk : size - n using Nat.strong_induction_on generalizing n with
  | _ k ih =>
  subst hk
  rw [readMemory, length_window]
  split
  next hmore =>
    generalize hlength : min (size - n) (readMaximum packetSize) = length
    have hdecode := decodeGDBHex_encode (window memory (address + n) length)
    rw [length_window] at hdecode
    simp only [Nat.mod_eq_of_lt (show address + n < 2 ^ 64 by omega), h (address + n) length (by omega) (by omega),
      isGDBError_encode, hdecode, length_window, ne_eq, not_true_eq_false, Bool.false_eq_true, if_false, ← window_add]
    exact ih _ (by omega) (by omega) rfl
  next hdone => rw [show n = size by omega]

/-! ## Occurrences -/

/-- The addresses among the `n` from `a` on at which the pattern lies. -/
def occurrences (memory : Nat → UInt8) (pattern : Bytes) (a n : Nat) : List Nat :=
  (range' a n).filter fun x => window memory x pattern.length = pattern

lemma filter_range' (q : Nat → Bool) (i n : Nat) : (range' i n).filter q =
    match (range' i n).find? q with
    | none => []
    | some k => k :: (range' (k + 1) (i + n - (k + 1))).filter q := by
  induction n generalizing i with
  | zero => rfl
  | succ n ih =>
  rw [range'_succ, filter_cons, find?_cons]
  cases q i with
  | true => simp only [if_true, show i + (n + 1) - (i + 1) = n by omega]
  | false =>
    simp only [Bool.false_eq_true, if_false]
    rw [ih (i + 1), show i + 1 + n = i + (n + 1) by omega]

/-- A search in a window is one in the memory behind it. -/
lemma index_window {b w search : Nat} (h : search + pat.length ≤ w) :
    (range' (b + search) (w + 1 - pat.length - search)).find? (fun x => window memory x pat.length = pat) =
      (index ((window memory b w).drop search) pat).map (b + search + ·) := by
  rw [index, drop_window _ _ (by omega), length_window, range'_eq_map_range, find?_map,
    show w - search + 1 - pat.length = w + 1 - pat.length - search by omega]
  congr 1
  refine find?_congr fun i hi => ?_
  rw [mem_range] at hi
  rw [drop_window _ _ (by omega), take_window _ _ (by omega)]
  rfl

/-- The rest of a window is searched up to the limit. -/
lemma searchWindow_eq {start b w : Nat} (hstart : start ≤ b) (hbound : b + w < 2 ^ 64) (hpat : 0 < pat.length)
    (limit search : Nat) (res : List Nat) :
    searchWindow start b (window memory b w) pat limit search res =
      res ++ (occurrences memory pat (b + search) (w + 1 - pat.length - search)).take
        (limit - res.length) := by
  induction hk : w + 1 - search using Nat.strong_induction_on generalizing search res with
  | _ k ih =>
  subst hk
  rw [searchWindow, length_window]
  split
  next hmore =>
    rw [occurrences, filter_range', index_window hmore.1]
    cases hidx : index ((window memory b w).drop search) pat with
    | none => simp
    | some found =>
    have hmem := mem_of_find?_eq_some hidx
    rw [mem_range, length_drop, length_window] at hmem
    have haddr : (b + (search + found)) % 2 ^ 64 = b + search + found := by
      rw [Nat.mod_eq_of_lt (by omega), Nat.add_assoc]
    have hrest : b + search + (w + 1 - pat.length - search) - (b + search + found + 1) =
        w + 1 - pat.length - (search + found + 1) := by omega
    have hlim : limit - res.length = limit - (res.length + 1) + 1 := by omega
    simp only [haddr, if_pos (show b + search + found ≥ start by omega), Option.map_some, hrest]
    rw [ih _ (by omega) _ _ rfl, hlim, take_succ_cons, length_append, length_singleton, append_assoc,
      singleton_append]
    simp only [Nat.add_assoc]
    rfl
  next hdone =>
    by_cases hroom : res.length < limit
    · rw [show w + 1 - pat.length - search = 0 by omega]
      simp [occurrences]
    · rw [show limit - res.length = 0 by omega, take_zero, append_nil]

/-- The first `b` places have been searched, and what is carried over begins behind them. -/
lemma searchMemory_eq (h : Shows execute packetSize memory) {start size : Nat} (hbound : start + size < 2 ^ 64)
    (hpat : 0 < pat.length) (limit : Nat) {off b : Nat} (hoff : off ≤ size)
    (hb : b = off + 1 - pat.length) :
    searchMemory execute packetSize start size pat limit off (window memory (start + b) (off - b))
        ((occurrences memory pat start b).take limit) =
      .ok ((occurrences memory pat start (size + 1 - pat.length)).take limit) := by
  have hsplit : ∀ m n, occurrences memory pat start (m + n) =
      occurrences memory pat start m ++ occurrences memory pat (start + m) n := by
    intro m n
    unfold occurrences
    rw [← range'_append_1, filter_append]
  induction hk : size - off using Nat.strong_induction_on generalizing off b with
  | _ k ih =>
  subst hk
  rw [searchMemory]
  split
  next hmore =>
    have hchunk : 1 ≤ chunkSize := by decide
    generalize hlength : min (size - off) chunkSize = length
    have hread : readMemory execute packetSize (start + off) length [] = .ok (window memory (start + off) length) :=
      readMemory_shows (n := 0) h (by omega) (Nat.zero_le _)
    have hwin := window_add memory (start + b) (off - b) length
    rw [show start + b + (off - b) = start + off by omega] at hwin
    simp only [Nat.mod_eq_of_lt (show start + off < 2 ^ 64 by omega), hread, ← hwin, length_window,
      show off - (off - b) = b by omega, Nat.mod_eq_of_lt (show start + b < 2 ^ 64 by omega)]
    generalize hw : off - b + length = w
    generalize hkeep : min (pat.length - 1) w = keep
    have hnext := ih (size - (off + length)) (by omega) (show off + length ≤ size by omega)
      (show b + (w + 1 - pat.length) = off + length + 1 - pat.length by omega) rfl
    rw [searchWindow_eq (by omega) (by omega) hpat, drop_window _ _ (by omega), ← hnext, hsplit, take_append,
      length_take, show limit - min limit (occurrences memory pat start b).length =
        limit - (occurrences memory pat start b).length by omega,
      show start + b + (w - keep) = start + (b + (w + 1 - pat.length)) by omega,
      show w - (w - keep) = off + length - (b + (w + 1 - pat.length)) by omega]
    rfl
  next hdone =>
  by_cases hroom : ((occurrences memory pat start b).take limit).length < limit
  · rw [show size + 1 - pat.length = b by omega]
  · rw [length_take] at hroom
    rw [show size + 1 - pat.length = b + (size + 1 - pat.length - b) by omega, hsplit,
      take_append_of_le_length (by omega)]

end

/-- **Memory search.**  The result is the first `limit` of the addresses at which the pattern lies inside
the range, in their order; a call with a larger size, pattern or limit is refused. -/
theorem searchMemory_complete {execute : Nat → Nat → Except MemoryError Bytes} {packetSize : Nat}
    {memory : Nat → UInt8} (h : Shows execute packetSize memory) {memoryLimit start size limit : Nat}
    {pattern : Bytes} (hbound : start + size < 2 ^ 64) (hpattern : pattern ≠ []) :
    (size ≤ memoryLimit → pattern.length ≤ 2 ^ 20 → limit ≤ 2 ^ 20 → ∃ l : List Nat,
      searchMemoryBuiltin execute packetSize memoryLimit start size pattern limit = .ok (l.take limit) ∧
      l.Pairwise (· < ·) ∧ ∀ a, a ∈ l ↔ start ≤ a ∧ a + pattern.length ≤ start + size ∧
        window memory a pattern.length = pattern) ∧
    (memoryLimit < size ∨ 2 ^ 20 < pattern.length ∨ 2 ^ 20 < limit →
      searchMemoryBuiltin execute packetSize memoryLimit start size pattern limit = .error .invalidArgument) := by
  have hpos := length_pos_iff.mpr hpattern
  refine ⟨fun hsize hlength hlimit => ?_, fun hlarge => ?_⟩
  case refine_2 =>
    rw [searchMemoryBuiltin, if_pos]
    rcases hlarge with hsize | hlength | hlimit
    · exact .inr (.inr (.inr (.inl (by omega))))
    · exact .inl hlength
    · exact .inr (.inr (.inr (.inr (.inr (by omega)))))
  refine ⟨occurrences memory pattern start (size + 1 - pattern.length), ?_, Pairwise.filter _ pairwise_lt_range', ?_⟩
  · have hsearch := searchMemory_eq h hbound hpos limit (Nat.zero_le size) rfl
    rw [show 0 + 1 - pattern.length = 0 by omega] at hsearch
    unfold searchMemoryBuiltin
    rw [if_neg]
    · simpa [occurrences, window] using hsearch
    · rintro (h | h | h | h | h | h)
      · omega
      · exact hpattern h
      all_goals omega
  · intro a
    simp only [occurrences, mem_filter, mem_range'_1, decide_eq_true_eq, ← and_assoc]
    refine and_congr_left fun _ => ?_
    omega

/-- Overlapping hits in a memory of zeros, and a size above the limit of the session. -/
theorem searchMemory_complete_zeros :
    (∃ l : List Nat,
      searchMemoryBuiltin (fun a n => .ok (Hex.encode (window (fun _ => 0) a n))) 16384 4 0 4 [0, 0] 2 =
        .ok (l.take 2) ∧ l.Pairwise (· < ·) ∧
          ∀ a, a ∈ l ↔ 0 ≤ a ∧ a + 2 ≤ 0 + 4 ∧ window (fun _ => (0 : UInt8)) a 2 = [0, 0]) ∧
    searchMemoryBuiltin (fun a n => .ok (Hex.encode (window (fun _ => 0) a n))) 16384 4 0 5 [0, 0] 2 =
      .error .invalidArgument :=
  ⟨(searchMemory_complete (fun _ _ _ _ => rfl) (by decide) (by decide)).1 le_rfl (by decide) (by decide),
    (searchMemory_complete (fun _ _ _ _ => rfl) (by decide) (by decide)).2 (.inl (by decide))⟩

/-- A limit above 2^20 is refused. -/
theorem searchMemory_limit_refused :
    searchMemoryBuiltin (fun a n => .ok (Hex.encode (window (fun _ => 0) a n))) 16384 4 0 4 [0, 0] (2 ^ 20 + 1) =
      .error .invalidArgument := by
  rw [searchMemoryBuiltin, if_pos (by decide)]

end Trex.Gdb
