import Trex.Lib.Checked
import Trex.Sqlite.Record

/-!
# Records are read back

Field by field, then the header, then the row: `decodeRecord_encodeRecord`.
-/

namespace Trex.Sqlite

open List

open Slice

/-! ## Integers -/

lemma toInt_cases (v : Int64) : v.toInt = v.toUInt64.toNat ∧ v.toUInt64.toNat < 2 ^ 63 ∨
      v.toInt = (v.toUInt64.toNat : Int) - 2 ^ 64 ∧ 2 ^ 63 ≤ v.toUInt64.toNat ∧ v.toUInt64.toNat < 2 ^ 64 := by
  have hbits : v.toUInt64.toNat = v.toBitVec.toNat := rfl
  have hint : v.toInt = v.toBitVec.toInt := rfl
  rw [hint, hbits, BitVec.toInt_eq_toNat_cond]
  split <;> omega

/-- A field of `size` bytes whose range contains the value is read back as it. -/
lemma signedBigEndian_put (v : Int64) (size : Nat) (hsize : size ∈ [1, 2, 3, 4, 6, 8])
    (hlo : -2 ^ (8 * size - 1) ≤ v.toInt) (hhi : v.toInt < 2 ^ (8 * size - 1)) :
    signedBigEndian (BigEndian.put size v.toUInt64.toNat) = v := by
  have hcases := toInt_cases v
  have hof : ∀ i : Int, i = v.toInt → Int64.ofInt i = v := by
    rintro i rfl
    exact Int64.ofInt_toInt v
  unfold signedBigEndian
  simp only [BigEndian.get_put, BigEndian.length_put, Nat.testBit_eq_decide_div_mod_eq, decide_eq_true_eq]
  simp only [mem_cons, not_mem_nil, or_false] at hsize
  rcases hsize with rfl | rfl | rfl | rfl | rfl | rfl
  all_goals
    simp only [Nat.reducePow, Nat.reduceMul, Nat.reduceSub, Int.reducePow, Nat.reduceLT,
      true_and, false_and, if_false] at hlo hhi ⊢
  case inr.inr.inr.inr.inr =>
    -- eight bytes hold the two's complement itself
    rw [Int64.ofInt_eq_iff_bmod_eq_toInt, Nat.mod_eq_of_lt (by omega)]
    rcases hcases with ⟨hv, hu⟩ | ⟨hv, hu, hu'⟩
    · rw [Int.bmod_eq_of_le (by omega) (by omega), hv]
    · rw [hv, ← Int.sub_bmod_right, Int.bmod_eq_of_le (by omega) (by omega)]
      omega
  all_goals
    split
    next hbit => exact hof _ (by omega)
    next hbit => exact hof _ (by omega)

/-- What is promised of a field: its serial type gives its size, and it is read
back as `value`. -/
structure FieldOk (encoding : Nat) (serial : Nat) (field : Bytes) (value : Value) : Prop where
  size : serialSize serial = .ok field.length
  value : decodeField serial field encoding = .ok value
  serial_lt : serial < 2 ^ 64

variable {serial enc : Nat} {field : Bytes} {values : List Value} {fields : List (Nat × Bytes)}

/-- An integer reads back. -/
lemma encodeInteger_ok {v : Int64} (enc : Nat)
    (h : encodeInteger v = .ok (serial, field)) : FieldOk enc serial field (.int64 v) := by
  unfold encodeInteger at h
  split at h
  next hv =>
    obtain ⟨rfl, rfl⟩ := Checked.ok_pair h
    exact ⟨rfl, by rw [hv]; rfl, by omega⟩
  split at h
  next hv =>
    obtain ⟨rfl, rfl⟩ := Checked.ok_pair h
    exact ⟨rfl, by rw [hv]; rfl, by omega⟩
  split at h
  next s size lo hi hfind =>
    obtain ⟨rfl, rfl⟩ := Checked.ok_pair h
    have hrange := List.find?_some hfind
    have hmem := mem_of_find?_eq_some hfind
    simp only [decide_eq_true_eq] at hrange
    simp only [integerSizes, mem_cons, Prod.mk.injEq, not_mem_nil, or_false] at hmem
    rcases hmem with ⟨rfl, rfl, rfl, rfl⟩ | ⟨rfl, rfl, rfl, rfl⟩ | ⟨rfl, rfl, rfl, rfl⟩ |
      ⟨rfl, rfl, rfl, rfl⟩ | ⟨rfl, rfl, rfl, rfl⟩ | ⟨rfl, rfl, rfl, rfl⟩
    all_goals
      refine ⟨by rw [BigEndian.length_put]; rfl, ?_, by omega⟩
      unfold decodeField
      rw [if_neg (by omega), if_pos (by omega), signedBigEndian_put v _ (by simp) (by omega)
        (by omega)]
  · simp at h

/-! ## Text -/

lemma getUnits_putUnits (enc : Nat) (units : List Nat) (h : ∀ u ∈ units, u < 0x10000) :
    getUnits enc (units.flatMap (putUnit enc)) = units := by
  induction units with
  | nil => rfl
  | cons u units ih =>
  have hu := h u mem_cons_self
  have hhigh : (UInt8.ofNat (u / 256)).toNat = u / 256 := by simp; omega
  have hlow : (UInt8.ofNat (u % 256)).toNat = u % 256 := by simp
  have hrest := ih fun v hv => h v (mem_cons_of_mem _ hv)
  rw [flatMap_cons]
  unfold putUnit at hrest ⊢
  split at hrest
  next henc =>
    simp only [henc, if_true, cons_append, nil_append, getUnits, hhigh, hlow] at hrest ⊢
    rw [hrest, Nat.div_add_mod']
  next henc =>
    simp only [henc, if_false, cons_append, nil_append, getUnits, hhigh, hlow] at hrest ⊢
    rw [hrest, Nat.div_add_mod']

lemma length_putUnits (enc : Nat) (units : List Nat) :
    (units.flatMap (putUnit enc)).length = 2 * units.length := by
  induction units with
  | nil => rfl
  | cons u units ih =>
  rw [flatMap_cons, length_append, ih, length_cons]
  have : (putUnit enc u).length = 2 := by unfold putUnit; split <;> rfl
  omega

/-- Surrogate pairs are put together again, and nothing else looks like one. -/
lemma utf16Decode_encode16 (rs : List Nat) (h : ∀ r ∈ rs, Utf.Scalar r) : utf16Decode (Utf.encode16 rs) = rs := by
  induction rs with
  | nil => rfl
  | cons r rs ih =>
  have hr := h r mem_cons_self
  have hrest := ih fun v hv => h v (mem_cons_of_mem _ hv)
  have hcons : Utf.encode16 (r :: rs) = Utf.encodeRune16 r ++ Utf.encode16 rs := rfl
  unfold Utf.Scalar at hr
  rw [hcons]
  by_cases hsmall : r < 0x10000
  · have hunit : Utf.encodeRune16 r = [r] := by
      unfold Utf.encodeRune16
      rw [if_pos (by omega)]
    rw [hunit, singleton_append]
    cases hnext : Utf.encode16 rs with
    | nil =>
      rw [hnext] at hrest
      rw [utf16Decode, ← hrest]
      rfl
    | cons next rest => rw [utf16Decode, if_neg (by omega), ← hnext, hrest]
  have hunit : Utf.encodeRune16 r = [0xD800 + (r - 0x10000) / 1024, 0xDC00 + (r - 0x10000) % 1024] := by
    unfold Utf.encodeRune16
    rw [if_neg (by omega), if_pos (by omega)]
  have hback : 0x10000 + (0xD800 + (r - 0x10000) / 1024 - 0xD800) * 1024 +
      (0xDC00 + (r - 0x10000) % 1024 - 0xDC00) = r := by omega
  rw [hunit, cons_append, singleton_append, utf16Decode, if_pos (by omega), hrest, hback]

/-- A text reads back in each encoding. -/
lemma decodeText_encodeText (v : Bytes) (enc : Nat) (hv : Utf.Valid v)
    (henc : 1 ≤ enc ∧ enc ≤ 3) : decodeText (encodeText v enc) enc = .ok v := by
  obtain ⟨rs, hscalar, rfl⟩ := hv
  unfold decodeText encodeText
  by_cases hone : enc = 1
  · rw [if_pos hone, if_pos hone]
  · rw [if_neg hone, if_neg hone, if_pos (by omega), Utf.runes_encode rs hscalar,
      length_putUnits, if_neg (by omega), getUnits_putUnits _ _ (Utf.encode16_lt rs),
      utf16Decode_encode16 rs hscalar]

/-! ## Fields -/

lemma serialSize_large (hser : 12 ≤ serial)
    (hsize : (serial - 12) / 2 ≤ 2 ^ 30) : serialSize serial = .ok ((serial - 12) / 2) := by
  unfold serialSize
  split <;> first | omega | skip
  rw [if_neg (by omega)]

lemma decodeField_bytes (field : Bytes) (enc : Nat) (hser : 12 ≤ serial)
    (heven : serial % 2 = 0) : decodeField serial field enc = .ok (.bytes field) := by
  unfold decodeField
  rw [if_neg (by omega), if_neg (by omega), if_neg (by omega), if_neg (by omega),
    if_neg (by omega), if_pos (by omega)]

lemma decodeField_text (field : Bytes) (enc : Nat) (hser : 13 ≤ serial) (hodd : serial % 2 = 1) :
    decodeField serial field enc = (decodeText field enc).map Value.text := by
  unfold decodeField
  rw [if_neg (by omega), if_neg (by omega), if_neg (by omega), if_neg (by omega),
    if_neg (by omega), if_neg (by omega), if_pos (by omega)]

/-- A value reads back. -/
lemma encodeField_ok {val : Value} (h : encodeField val enc = .ok (serial, field))
    (hval : val.ValidText) (henc : 1 ≤ enc ∧ enc ≤ 3) (hfield : field.length ≤ 2 ^ 30) :
    FieldOk enc serial field val.readBack := by
  unfold encodeField at h
  cases val with
  | null =>
    obtain ⟨rfl, rfl⟩ := Checked.ok_pair h
    exact ⟨rfl, rfl, by omega⟩
  | bool b =>
    obtain ⟨rfl, rfl⟩ := Checked.ok_pair h
    cases b
    · exact ⟨rfl, rfl, by simp⟩
    · exact ⟨rfl, rfl, by simp⟩
  | int v => exact encodeInteger_ok enc h
  | int64 v => exact encodeInteger_ok enc h
  | uint64 v =>
    dsimp only at h
    split at h
    · simp at h
    · exact encodeInteger_ok enc h
  | float64 bits =>
    obtain ⟨rfl, rfl⟩ := Checked.ok_pair h
    refine ⟨by rw [BigEndian.length_put]; rfl, ?_, by omega⟩
    unfold decodeField
    rw [if_neg (by omega), if_neg (by omega), if_pos rfl,
      BigEndian.get_put_of_lt 8 _ (by have := bits.toNat_lt; omega), UInt64.ofNat_toNat]
    rfl
  | bytes v =>
    obtain ⟨rfl, rfl⟩ := Checked.ok_pair h
    refine ⟨?_, decodeField_bytes _ _ (by omega) (by omega), by omega⟩
    rw [serialSize_large (by omega) (by omega)]
    congr 1
    omega
  | text v =>
    obtain ⟨rfl, rfl⟩ := Checked.ok_pair h
    refine ⟨?_, ?_, by omega⟩
    · rw [serialSize_large (by omega) (by omega)]
      congr 1
      omega
    · rw [decodeField_text _ _ (by omega) (by omega), decodeText_encodeText v enc hval henc]
      rfl
  | other => simp at h

/-! ## Rows of values -/

abbrev FieldsOk (encoding : Nat) (values : List Value) (fields : List (Nat × Bytes)) : Prop :=
  List.Forall₂ (fun value field => FieldOk encoding field.1 field.2 value) values fields

/-- All values of a record read back. -/
lemma encodeFields_ok {enc idx : Nat} (h : encodeFields enc idx values = .ok fields)
    (henc : 1 ≤ enc ∧ enc ≤ 3) (hval : ∀ val ∈ values, val.ValidText)
    (hbody : (fields.flatMap Prod.snd).length ≤ 2 ^ 30) : FieldsOk enc (values.map Value.readBack) fields := by
  induction values generalizing idx fields with
  | nil =>
    simp only [encodeFields, Except.ok.injEq] at h
    subst h
    exact .nil
  | cons val values ih =>
  unfold encodeFields at h
  split at h
  · simp at h
  next field hfield =>
  split at h
  · simp at h
  next rest hrest =>
  simp only [Except.ok.injEq] at h
  subst h
  rw [flatMap_cons, length_append] at hbody
  have hhead := encodeField_ok hfield (hval val mem_cons_self) henc (by omega)
  exact .cons hhead (ih hrest (fun v hv => hval v (mem_cons_of_mem _ hv)) (by omega))

lemma FieldsOk.serial_lt (h : FieldsOk enc values fields) : ∀ field ∈ fields, field.1 < 2 ^ 64 := by
  induction h with
  | nil => simp
  | cons hfield _ ih =>
  intro field hmem
  rcases mem_cons.mp hmem with rfl | hmem
  · exact hfield.serial_lt
  · exact ih field hmem

/-- The header size is found: it counts its own bytes and those of the serial types. -/
lemma headerSizeLoop_fixed (serials turns l : Nat) (hl : l ≤ varintSize (l + serials))
    (hturns : 9 ≤ l + turns) : varintSize (headerSizeLoop serials turns (l + serials)) + serials =
      headerSizeLoop serials turns (l + serials) := by
  induction turns generalizing l with
  | zero =>
    have := (varintSize_bounds (l + serials)).2
    simp only [headerSizeLoop]
    omega
  | succ turns ih =>
  unfold headerSizeLoop
  rw [length_encodeVarint]
  split
  next hne =>
    -- a larger header never has a smaller size field
    have hmono := varintSize_mono (a := l + serials) (b := varintSize (l + serials) + serials)
      (by omega)
    exact ih (varintSize (l + serials)) hmono (by omega)
  next heq => omega

def serialBytes (fields : List (Nat × Bytes)) : Bytes :=
  fields.flatMap fun field => encodeVarint field.1

lemma decodeSerials_serialBytes (data : Bytes) (headerSize : Nat) (fields : List (Nat × Bytes))
    (turns pos : Nat) (hser : ∀ field ∈ fields, field.1 < 2 ^ 64)
    (hslice : slice data pos (serialBytes fields).length = serialBytes fields)
    (hend : pos + (serialBytes fields).length = headerSize) (hdata : headerSize ≤ data.length)
    (hturns : (serialBytes fields).length ≤ turns) :
    decodeSerials data headerSize turns pos = .ok (fields.map Prod.fst) := by
  induction fields generalizing turns pos with
  | nil =>
    have hstop : ¬ pos < headerSize := by simp [serialBytes] at hend; omega
    cases turns with
    | zero => rfl
    | succ turns =>
    unfold decodeSerials
    rw [if_neg hstop]
    rfl
  | cons field fields ih =>
  have hcons : serialBytes (field :: fields) = encodeVarint field.1 ++ serialBytes fields := rfl
  have hpos := (varintSize_bounds field.1).1
  rw [hcons] at hslice hend hturns
  rw [length_append, length_encodeVarint] at hend hturns
  obtain ⟨hfirst, hrest⟩ := slice_append _ _ _ _ hslice
  rw [length_encodeVarint] at hfirst hrest
  obtain ⟨turns, rfl⟩ : ∃ k, turns = k + 1 := ⟨turns - 1, by omega⟩
  have hvarint := decodeVarint_of_slice data pos headerSize field.1
    (hser field mem_cons_self) hfirst (by omega) hdata
  have htail := ih turns (pos + varintSize field.1)
    (fun f hf => hser f (mem_cons_of_mem _ hf)) hrest (by omega) (by omega)
  unfold decodeSerials
  rw [if_pos (by omega), hvarint]
  simp only [htail, map_cons]

lemma decodeFields_ok (data : Bytes) (enc : Nat) (values : List Value)
    (fields : List (Nat × Bytes)) (body : Nat) (hok : FieldsOk enc values fields)
    (hslice : slice data body (fields.flatMap Prod.snd).length = fields.flatMap Prod.snd)
    (hend : body + (fields.flatMap Prod.snd).length ≤ data.length) :
    decodeFields data enc (fields.map Prod.fst) body = .ok values := by
  induction hok generalizing body with
  | nil => rfl
  | @cons value field values fields hfield _ ih =>
  rw [flatMap_cons] at hslice hend
  rw [length_append] at hend
  obtain ⟨hfirst, hrest⟩ := slice_append _ _ _ _ hslice
  have htail := ih (body + field.2.length) hrest (by omega)
  simp only [map_cons, decodeFields, hfield.size]
  rw [if_neg (by omega), hfirst, hfield.value]
  simp only [htail]

/-- Every record the writer accepts is read back, up to the reader's size limit. -/
lemma decodeRecord_encodeRecord {pay : Bytes} (h : encodeRecord values enc = .ok pay)
    (henc : 1 ≤ enc ∧ enc ≤ 3) (hval : ∀ val ∈ values, val.ValidText)
    (hsize : pay.length ≤ 2 ^ 30) : decodeRecord pay enc = .ok (values.map Value.readBack) := by
  unfold encodeRecord at h
  split at h
  · simp at h
  next fields hfields =>
  simp only [Except.ok.injEq] at h
  change encodeVarint (headerSizeLoop (serialBytes fields).length 9
    ((serialBytes fields).length + 1)) ++ serialBytes fields ++ fields.flatMap Prod.snd =
    pay at h
  have hfixed := headerSizeLoop_fixed (serialBytes fields).length 9 1
    (varintSize_bounds _).1 (by omega)
  rw [add_comm 1] at hfixed
  generalize hheader : headerSizeLoop (serialBytes fields).length 9
    ((serialBytes fields).length + 1) = headerSize at h hfixed
  have hlen : pay.length =
      varintSize headerSize + (serialBytes fields).length + (fields.flatMap Prod.snd).length := by
    rw [← h, length_append, length_append, length_encodeVarint]
  have hok := encodeFields_ok hfields henc hval (by omega)
  have hheaderSlice : slice pay 0 (varintSize headerSize) = encodeVarint headerSize := by
    rw [← h, append_assoc, ← length_encodeVarint, slice, drop_zero, take_left]
  have hserials : slice pay (varintSize headerSize) (serialBytes fields).length = serialBytes fields := by
    rw [← h, ← length_encodeVarint, slice_append_left]
  have hbody : slice pay headerSize (fields.flatMap Prod.snd).length = fields.flatMap Prod.snd := by
    have hstart : (encodeVarint headerSize ++ serialBytes fields).length = headerSize := by
      rw [length_append, length_encodeVarint, hfixed]
    have hdrop : (encodeVarint headerSize ++ serialBytes fields ++ fields.flatMap Prod.snd).drop
        (encodeVarint headerSize ++ serialBytes fields).length = fields.flatMap Prod.snd :=
      drop_left
    rw [hstart, h] at hdrop
    rw [slice, hdrop, take_length]
  unfold decodeRecord
  rw [decodeVarint_of_slice pay 0 pay.length headerSize (by omega) hheaderSlice
    (by omega) le_rfl]
  dsimp only
  rw [if_neg (by omega), decodeSerials_serialBytes pay headerSize fields _ _ hok.serial_lt
    hserials (by omega) (by omega) (by omega)]
  exact decodeFields_ok pay enc _ fields headerSize hok hbody (by omega)

end Trex.Sqlite
