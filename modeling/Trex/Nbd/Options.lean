import Trex.Lib.BigEndian

/-!
# Option payloads

`parseNBDInfoRequest` and `parseNBDMetaContextRequest` of `block/nbd/server.go`, and the
encodings they read.  `rest` stands for `data[off:]`, an error for its text.
-/

namespace Trex.Nbd

open List hiding get

open BigEndian

def nbdMaxExportName : Nat := 4096

/-- What both parsers do: a name, then a count of `width` bytes and the items. -/
def parseNamed {α : Type} (width : Nat) (short invalid : String)
    (items : Nat → List UInt8 → Except String α) (data : List UInt8) :
    Except String (List UInt8 × α) :=
  if data.length < 4 + width then .error short
  else
    let nameLength := get (data.take 4)
    if nameLength > nbdMaxExportName ∨ nameLength > data.length - (4 + width) then .error invalid
    else
      let rest := (data.drop 4).drop nameLength
      match items (get (rest.take width)) (rest.drop width) with
      | .error err => .error err
      | .ok found => .ok ((data.drop 4).take nameLength, found)

def infoLoop : Nat → List UInt8 → List Nat
  | 0, _ => []
  | count + 1, rest => get (rest.take 2) :: infoLoop count (rest.drop 2)

/-- The information types of a request. -/
def infoItems (count : Nat) (rest : List UInt8) : Except String (List Nat) :=
  if count > rest.length / 2 ∨ count * 2 ≠ rest.length then .error "invalid info request count"
  else .ok (infoLoop count rest)

/-- The name and the types of an info request. -/
def parseNBDInfoRequest (data : List UInt8) : Except String (List UInt8 × List Nat) :=
  parseNamed 2 "short info request" "invalid export name length" infoItems data

def queryLoop : Nat → List UInt8 → Except String (List (List UInt8) × List UInt8)
  | 0, rest => .ok ([], rest)
  | count + 1, rest =>
      if rest.length < 4 then .error "short metadata query"
      else
        let length := get (rest.take 4)
        let rest := rest.drop 4
        if length > rest.length then .error "invalid metadata query length"
        else
          match queryLoop count (rest.drop length) with
          | .error err => .error err
          | .ok (queries, behind) => .ok (rest.take length :: queries, behind)

/-- The queries of a metadata request. -/
def queryItems (count : Nat) (rest : List UInt8) : Except String (List (List UInt8)) :=
  if count > 1024 then .error "too many metadata queries"
  else
    match queryLoop count rest with
    | .error err => .error err
    | .ok (queries, behind) =>
        if behind ≠ [] then .error "trailing metadata request data" else .ok queries

/-- The queries and the name of a metadata request. -/
def parseNBDMetaContextRequest (data : List UInt8) :
    Except String (List (List UInt8) × List UInt8) :=
  (parseNamed 4 "short metadata request" "invalid metadata export name" queryItems data).map
    Prod.swap

/-! ## The encodings -/

/-- A string with its length in front. -/
def nbdString (s : List UInt8) : List UInt8 := put 4 s.length ++ s

/-- An info request as a client sends it. -/
def encodeInfoRequest (name : List UInt8) (types : List Nat) : List UInt8 :=
  nbdString name ++ (put 2 types.length ++ types.flatMap (put 2))

/-- A metadata request as a client sends it. -/
def encodeMetaContextRequest (name : List UInt8) (queries : List (List UInt8)) : List UInt8 :=
  nbdString name ++ (put 4 queries.length ++ queries.flatMap nbdString)

section

variable {data name rest behind : List UInt8} {types : List Nat} {queries : List (List UInt8)}
  {count : Nat}

lemma eq_nbdString_append (data : List UInt8) (h : 4 ≤ data.length)
    (hfits : get (data.take 4) ≤ (data.drop 4).length) :
    data = nbdString ((data.drop 4).take (get (data.take 4))) ++ (data.drop 4).drop (get (data.take 4)) ∧
      ((data.drop 4).take (get (data.take 4))).length = get (data.take 4) ∧ get (data.take 4) < 2 ^ 32 := by
  obtain ⟨hdata, hlt⟩ := eq_put_append 4 data h
  have hlength := length_take_of_le hfits
  refine ⟨?_, hlength, hlt⟩
  rw [nbdString, hlength, append_assoc, take_append_drop]
  exact hdata

lemma get_nbdString (h : name.length < 2 ^ 32) : get ((nbdString name ++ rest).take 4) = name.length := by
  rw [nbdString, append_assoc, take_put_append, get_put_of_lt 4 _ h]

lemma drop_nbdString : (nbdString name ++ rest).drop 4 = name ++ rest := by
  rw [nbdString, append_assoc, drop_put_append]

lemma length_nbdString : (nbdString name).length = name.length + 4 := by
  simp [nbdString, Nat.add_comm]

/-- A request is accepted exactly if it is a name and the announced items. -/
lemma parseNamed_iff {α : Type} {width : Nat} {short invalid : String}
    {items : Nat → List UInt8 → Except String α} {found : α} :
    parseNamed width short invalid items data = .ok (name, found) ↔ name.length ≤ nbdMaxExportName ∧
      ∃ count rest, data = nbdString name ++ (put width count ++ rest) ∧ count < 256 ^ width ∧
        items count rest = .ok found := by
  constructor
  · intro h
    rw [parseNamed] at h
    split at h
    · cases h
    next hshort =>
    dsimp only at h
    split at h
    · cases h
    next hname =>
    split at h
    · cases h
    next hitems =>
    cases h
    obtain ⟨hdata, hlength, -⟩ := eq_nbdString_append data (by omega) (by simp; omega)
    obtain ⟨hrest, hlt⟩ := eq_put_append width
      ((data.drop 4).drop (get (data.take 4))) (by simp; omega)
    refine ⟨by omega, _, _, ?_, hlt, hitems⟩
    rw [← hrest]
    exact hdata
  rintro ⟨hname, count, rest, rfl, hcount, hitems⟩
  have hlt : name.length < 2 ^ 32 := by unfold nbdMaxExportName at hname; omega
  have hlength : (nbdString name ++ (put width count ++ rest)).length =
      name.length + 4 + (width + rest.length) := by
    rw [length_append, length_append, length_nbdString, length_put]
  rw [parseNamed, get_nbdString hlt, drop_nbdString, hlength, if_neg (by omega)]
  dsimp only
  rw [if_neg (by omega), drop_left, take_left, take_put_append, drop_put_append,
    get_put_of_lt width _ hcount, hitems]

lemma parseNBDMetaContextRequest_iff : parseNBDMetaContextRequest data = .ok (queries, name) ↔
    parseNamed 4 "short metadata request" "invalid metadata export name" queryItems data = .ok (name, queries) := by
  rw [parseNBDMetaContextRequest]
  rcases parseNamed 4 _ _ queryItems data with err | ⟨found, items⟩ <;> simp [Except.map, and_comm]

/-- What is read are the types that stand there. -/
lemma infoLoop_sound (count : Nat) (rest : List UInt8) (h : count * 2 = rest.length) :
    rest = (infoLoop count rest).flatMap (put 2) ∧ (infoLoop count rest).length = count ∧
      ∀ t ∈ infoLoop count rest, t < 2 ^ 16 := by
  induction count generalizing rest with
  | zero => simp_all [infoLoop, eq_comm]
  | succ count ih =>
  obtain ⟨hrest, hlt⟩ := eq_put_append 2 rest (by omega)
  obtain ⟨hoths, hlength, hall⟩ := ih (rest.drop 2) (by simp; omega)
  rw [infoLoop, flatMap_cons, ← hoths, forall_mem_cons]
  exact ⟨hrest, by simp [hlength], hlt, hall⟩

lemma infoLoop_complete (hall : ∀ t ∈ types, t < 2 ^ 16) : infoLoop types.length (types.flatMap (put 2)) = types := by
  induction types with
  | nil => rfl
  | cons t types ih =>
    obtain ⟨ht, hall⟩ := forall_mem_cons.mp hall
    rw [length_cons, infoLoop, flatMap_cons, take_put_append, drop_put_append, get_put_of_lt 2 t ht, ih hall]

/-- What is read are the queries that stand there. -/
lemma queryLoop_sound (h : queryLoop count rest = .ok (queries, behind)) :
    rest = queries.flatMap nbdString ++ behind ∧ queries.length = count ∧ ∀ q ∈ queries, q.length < 2 ^ 32 := by
  induction count generalizing rest queries with
  | zero =>
    cases h
    simp
  | succ count ih =>
  rw [queryLoop] at h
  split at h
  · cases h
  next hshort =>
  dsimp only at h
  split at h
  · cases h
  next hfits =>
  split at h
  · cases h
  next others _ hoths =>
  cases h
  obtain ⟨hrest, hlength, hlt⟩ := eq_nbdString_append rest (by omega) (by omega)
  obtain ⟨hbeh, rfl, hall⟩ := ih hoths
  rw [flatMap_cons, append_assoc, ← hbeh, forall_mem_cons, hlength]
  exact ⟨hrest, rfl, hlt, hall⟩

/-- All queries are read. -/
lemma queryLoop_complete (hall : ∀ q ∈ queries, q.length < 2 ^ 32) :
    queryLoop queries.length (queries.flatMap nbdString) = .ok (queries, []) := by
  induction queries with
  | nil => rfl
  | cons q queries ih =>
  obtain ⟨hq, hall⟩ := forall_mem_cons.mp hall
  rw [length_cons, queryLoop, flatMap_cons, get_nbdString hq, drop_nbdString,
    if_neg (by rw [length_append, length_nbdString]; omega)]
  rw [if_neg (by simp), drop_left, take_left, ih hall]

end

/-- Both parsers accept the encodings of what they return, and nothing else. -/
theorem option_parsers_exact :
    (∀ data name types, parseNBDInfoRequest data = .ok (name, types) ↔
      data = encodeInfoRequest name types ∧ name.length ≤ nbdMaxExportName ∧
        types.length < 2 ^ 16 ∧ ∀ t ∈ types, t < 2 ^ 16) ∧
    ∀ data name queries, parseNBDMetaContextRequest data = .ok (queries, name) ↔
      data = encodeMetaContextRequest name queries ∧ name.length ≤ nbdMaxExportName ∧
        queries.length ≤ 1024 ∧ ∀ q ∈ queries, q.length < 2 ^ 32 := by
  refine ⟨fun data name types => parseNamed_iff.trans ⟨?_, ?_⟩,
    fun data name queries => (parseNBDMetaContextRequest_iff.trans parseNamed_iff).trans ⟨?_, ?_⟩⟩
  · rintro ⟨hname, count, rest, rfl, hcount, hitems⟩
    rw [infoItems] at hitems
    split at hitems
    · cases hitems
    next hlength =>
    cases hitems
    obtain ⟨htypes, hnum, hall⟩ := infoLoop_sound count rest (by omega)
    rw [encodeInfoRequest, hnum, ← htypes]
    exact ⟨rfl, hname, hcount, hall⟩
  · rintro ⟨rfl, hname, hcount, hall⟩
    refine ⟨hname, types.length, types.flatMap (put 2), rfl, hcount, ?_⟩
    have hlength : (types.flatMap (put 2)).length = types.length * 2 := by simp [Function.const_def]
    rw [infoItems, if_neg (by omega), infoLoop_complete hall]
  · rintro ⟨hname, count, rest, rfl, -, hitems⟩
    rw [queryItems] at hitems
    split at hitems
    · cases hitems
    next hcount =>
    split at hitems
    · cases hitems
    next found behind hloop =>
    split at hitems
    · cases hitems
    next hbeh =>
    cases hitems
    obtain ⟨hqueries, rfl, hall⟩ := queryLoop_sound hloop
    rw [not_not.mp hbeh, List.append_nil] at hqueries
    rw [encodeMetaContextRequest, ← hqueries]
    exact ⟨rfl, hname, by omega, hall⟩
  · rintro ⟨rfl, hname, hcount, hall⟩
    refine ⟨hname, queries.length, queries.flatMap nbdString, rfl, by omega, ?_⟩
    rw [queryItems, if_neg (by omega), queryLoop_complete hall]
    rfl

/-- Metadata requests are refused for a long name, too. -/
theorem metaContext_long_name : ∃ name : List UInt8, name.length = 4097 ∧
    parseNBDMetaContextRequest (encodeMetaContextRequest name []) = .error "invalid metadata export name" := by
  refine ⟨List.replicate 4097 0, List.length_replicate, ?_⟩
  rw [parseNBDMetaContextRequest, encodeMetaContextRequest, parseNamed,
    get_nbdString (by rw [List.length_replicate]; decide), List.length_replicate,
    if_neg (by rw [List.length_append, length_nbdString, List.length_replicate]; omega)]
  exact congrArg (Except.map Prod.swap) (if_pos (.inl (by decide)))

end Trex.Nbd
