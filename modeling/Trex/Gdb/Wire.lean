import Mathlib.Data.FinEnum
import Mathlib.Data.Set.Card
import Mathlib.Data.Set.Finite.List
import Trex.Gdb.Interrupt
import Trex.Lib.Hex
import Trex.Lib.Op

/-!
# The wire of a GDB session (`debug/gdb_wire.go`)

`send` and `read` frame payloads; `targetDescription` reads the registers of the target from XML
documents that include others.  `peer` is what the other side sends when a packet has been written.
-/

namespace Trex.Gdb

open List Op Interrupt
open Bytes (ascii)

structure GdbWire where
  noAck : Bool
  packetSize : Nat

def newGDBWire : GdbWire := ⟨false, 4096⟩

/-- The errors of the wire. -/
inductive WireError where
  | eof
  | packetSize (size limit : Nat)
  | acknowledgement (value : UInt8)
  | replySize
  | invalidChecksum
  | checksum (got want : UInt8)
  | truncatedEscape
  | annex (annex reply : Bytes)
  | xmlSize
  | parse (annex : Bytes)
  | register (name : Bytes)
  /-- not an error of the source: the model has no turns left -/
  | turns
deriving DecidableEq, Repr

/-- What is still to be read and what was written. -/
structure Channel where
  input : Bytes := []
  /-- what was written, by calls of `writeAll` -/
  output : List Bytes := []

/-! ## Packets -/

/-- The loops of `read` over the leader and the escaped bytes, and the checksum. -/
def readFrame (limit : Nat) : Op Bytes WireError (Bytes × UInt8) := fun input =>
  let input := (input.dropWhile (· ≠ 0x24)).drop 1
  let encoded := input.takeWhile (· ≠ 0x23)
  if encoded.length > limit then (.error .replySize, input.drop (limit + 1))
  else match input.drop encoded.length with
    | _ :: high :: low :: rest =>
      match Hex.decode [high, low] with
      | some [want] => (.ok (encoded, want), rest)
      | _ => (.error .invalidChecksum, rest)
    | _ => (.error .eof, [])

/-- Undoes the escapes; none at the end of a packet. -/
def unescape : Bytes → Option Bytes
  | [] => some []
  | [b] => if b = 0x7d then none else some [b]
  | b :: c :: rest =>
    if b = 0x7d then (unescape rest).map ((c ^^^ 0x20) :: ·) else (unescape (c :: rest)).map (b :: ·)

/-- Reads the acknowledgement of a packet. -/
def readAck : Op Channel WireError Unit := fun c =>
  match c.input with
  | [] => (.error .eof, c)
  | ack :: rest => (if ack = 0x2b then .ok () else .error (.acknowledgement ack), { c with input := rest })

section

variable (w : GdbWire) (peer : List Bytes → Bytes)

/-- Writes a packet and waits for its acknowledgement. -/
def GdbWire.send (payload : Bytes) : Op Channel WireError Unit := do
  failIf (payload.length > w.packetSize) (.packetSize payload.length w.packetSize)
  modify fun c =>
    let output := c.output ++ [packetBytes payload]
    { input := c.input ++ peer output, output }
  when (w.noAck = false) readAck

/-- Writes an acknowledgement, unless they are off. -/
def GdbWire.acknowledge (value : UInt8) : Op Channel WireError Unit :=
  modify fun c => if w.noAck then c else { c with output := c.output ++ [[value]] }

/-- Reads a packet and acknowledges it. -/
def GdbWire.read : Op Channel WireError Bytes := do
  let (encoded, want) ← zoom Channel.input (fun input c => { c with input }) (readFrame (w.packetSize + 1024))
  if byteSum encoded ≠ want then do
    w.acknowledge 0x2d
    Op.throw (.checksum (byteSum encoded) want)
  else do
    w.acknowledge 0x2b
    ofExcept ((unescape encoded).elim (.error .truncatedEscape) .ok)

/-- A packet and its reply. -/
def GdbWire.exchange (payload : Bytes) : Op Channel WireError Bytes := do
  w.send peer payload
  w.read

end

/-! ## Framing -/

/-- The packet around escaped bytes. -/
def frame (encoded : Bytes) : Bytes :=
  0x24 :: encoded ++ [0x23, hexDigit (byteSum encoded >>> 4), hexDigit (byteSum encoded &&& 15)]

variable {w : GdbWire} {peer : List Bytes → Bytes} {c : Channel} {encoded payload noise rest : Bytes}

lemma decode_hexDigit : ∀ sum : UInt8, Hex.decode [hexDigit (sum >>> 4), hexDigit (sum &&& 15)] = some [sum] := by
  decide +kernel

lemma unescape_cons {b : UInt8} (h : b ≠ 0x7d) : unescape (b :: rest) = (unescape rest).map (b :: ·) := by
  cases rest with
  | nil => simp [unescape, h]
  | cons c rest => rw [unescape, if_neg h]

/-- Escaping is undone. -/
lemma unescape_escape (payload : Bytes) : unescape (payload.flatMap escapeByte) = some payload := by
  induction payload with
  | nil => rfl
  | cons b payload ih =>
  rw [flatMap_cons, escapeByte]
  split
  · rw [cons_append, singleton_append, unescape, if_pos rfl, ih, Option.map_some, UInt8.xor_assoc, UInt8.xor_self,
      UInt8.xor_zero]
  next hplain => rw [singleton_append, unescape_cons (fun h => hplain (by simp [h])), ih, Option.map_some]

/-- The end of a packet does not occur in escaped data. -/
lemma hash_notMem_escape (payload : Bytes) : 0x23 ∉ payload.flatMap escapeByte := by
  intro h
  obtain ⟨value, -, hval⟩ := mem_flatMap.mp h
  exact escapeByte_ne value _ hval rfl

lemma forall_ne {b : UInt8} (h : b ∉ rest) : ∀ x ∈ rest, decide (x ≠ b) = true :=
  fun _ hx => decide_eq_true (ne_of_mem_of_not_mem hx h)

/-- A packet behind anything but a leader is taken from the input, unless it is too large. -/
lemma readFrame_frame (limit : Nat) (rest : Bytes) (hnoise : 0x24 ∉ noise) (hhash : 0x23 ∉ encoded) :
    ∃ input, readFrame limit (noise ++ frame encoded ++ rest) =
      if encoded.length > limit then (.error .replySize, input) else (.ok (encoded, byteSum encoded), rest) := by
  have hleader : (noise ++ frame encoded ++ rest).dropWhile (· ≠ 0x24) = frame encoded ++ rest := by
    rw [append_assoc, dropWhile_append_of_pos (forall_ne hnoise)]
    rfl
  have hbody : ∀ l, (encoded ++ 0x23 :: l).takeWhile (· ≠ 0x23) = encoded := fun l => by
    rw [takeWhile_append_of_pos (forall_ne hhash), takeWhile_cons_of_neg (by decide), append_nil]
  unfold readFrame
  simp only [hleader]
  simp only [frame, cons_append, append_assoc, nil_append, drop_succ_cons, drop_zero, hbody, drop_left, decode_hexDigit]
  exact ⟨_, rfl⟩

/-- What `read` makes of a packet behind anything but a leader. -/
lemma read_frame (rest : Bytes) (hnoise : 0x24 ∉ noise) (hhash : 0x23 ∉ encoded)
    (hpay : unescape encoded = some payload) (output : List Bytes) : ∃ input, w.read { input := noise ++ frame encoded ++ rest, output } =
      if encoded.length > w.packetSize + 1024 then (.error .replySize, { input, output })
      else (.ok payload, (w.acknowledge 0x2b { input := rest, output }).2) := by
  obtain ⟨input, hframe⟩ := readFrame_frame (w.packetSize + 1024) rest hnoise hhash
  refine ⟨input, ?_⟩
  unfold GdbWire.read zoom
  split
  next hlarge =>
    rw [if_pos hlarge] at hframe
    exact run_bind_error (by simp only [hframe])
  next hfits =>
    rw [if_neg hfits] at hframe
    refine (run_bind (by simp only [hframe]; rfl)).trans ?_
    simp only [ne_eq, not_true_eq_false, if_false, hpay]
    rfl

lemma send_apply (c : Channel) (h : payload.length ≤ w.packetSize) :
    let output := c.output ++ [packetBytes payload]
    w.send peer payload c = when (w.noAck = false) readAck { input := c.input ++ peer output, output } := by
  unfold GdbWire.send
  rw [run_bind (by rw [failIf_apply, if_neg (by omega)]), run_bind (modify_apply _ _)]

lemma readAck_output (c : Channel) : (when (w.noAck = false) readAck c).2.output = c.output := by
  rw [when]
  split
  · unfold readAck
    split <;> rfl
  · rfl

/-- What `send` writes, `read` takes back exactly if the escaped form is within its limit. -/
theorem read_send (s w : GdbWire) (hsize : s.packetSize = w.packetSize) (payload noise rest : Bytes)
    (h : payload.length ≤ s.packetSize) (hnoise : 0x24 ∉ noise) (peer : List Bytes → Bytes) (c : Channel)
    (output : List Bytes) : ∃ packet, (s.send peer payload c).2.output = c.output ++ [packet] ∧
      ((w.read { input := noise ++ packet ++ rest, output }).1 = .ok payload ↔
        (payload.flatMap escapeByte).length ≤ s.packetSize + 1024) := by
  obtain ⟨input, hread⟩ := read_frame (w := w) rest hnoise (hash_notMem_escape payload) (unescape_escape payload) output
  refine ⟨_, by rw [send_apply c h, readAck_output], ?_⟩
  rw [show packetBytes payload = frame (payload.flatMap escapeByte) from rfl, hread]
  split
  next hlarge => exact iff_of_false (by simp) (by omega)
  next hfits => exact iff_of_true rfl (by omega)

/-- A payload that has to be escaped comes back. -/
theorem read_send_dollar : ∃ packet, (newGDBWire.send (fun _ => [0x2b]) [0x24] {}).2.output = [packet] ∧
    (newGDBWire.read { input := ascii "+-x" ++ packet ++ [0x2b] }).1 = .ok [0x24] := by
  obtain ⟨packet, hsent, hread⟩ := read_send newGDBWire newGDBWire rfl [0x24] (ascii "+-x") [0x2b]
    (by decide) (by decide) (fun _ => [0x2b]) {} []
  exact ⟨packet, hsent, hread.mpr (by decide)⟩

lemma length_dollars (n : Nat) : ((replicate n 0x24).flatMap escapeByte).length = n * 2 := by
  simp [length_flatMap, escapeByte]

/-- A payload within the limit of `send` whose escaped form is over that of `read`. -/
theorem read_send_dollars : ∃ payload : Bytes, payload.length ≤ newGDBWire.packetSize ∧
    newGDBWire.send (fun _ => [0x2b]) payload {} = (.ok (), { output := [packetBytes payload] }) ∧
    (newGDBWire.read { input := packetBytes payload }).1 = .error .replySize := by
  obtain ⟨payload, hlength, hesc⟩ : ∃ payload : Bytes, payload.length = 4096 ∧
      (payload.flatMap escapeByte).length = 8192 := ⟨replicate 4096 0x24, length_replicate, length_dollars 4096⟩
  obtain ⟨input, hread⟩ := read_frame (w := newGDBWire) [] not_mem_nil (hash_notMem_escape payload)
    (unescape_escape _) []
  rw [hesc, if_pos (by decide), nil_append, append_nil] at hread
  refine ⟨payload, hlength.le, ?_, congrArg Prod.fst hread⟩
  rw [send_apply _ hlength.le]
  rfl

/-! ## The target description -/

def maximumGDBXMLSize : Nat := 8 * 2 ^ 20

/-- A register of the description. -/
structure GdbXMLRegister where
  name : Bytes
  bitsize : Int
  regnum : Option Int
  type : Bytes
  group : Bytes

/-- A feature: its registers and the files it includes. -/
structure GdbFeature where
  registers : List GdbXMLRegister
  includes : List Bytes

structure GdbTargetDescription extends GdbFeature where
  architecture : Bytes
  features : List GdbFeature

/-- A register with its number and place. -/
structure GdbRegister where
  name : Bytes
  number : Int
  bits : Int
  offset : Int
  type : Bytes
  group : Bytes

def hexText (n : Nat) : Bytes := (Nat.toDigits 16 n).map fun c => UInt8.ofNat c.toNat

/-- The request for a part of an annex. -/
def featureRequest (w : GdbWire) (annex : Bytes) (offset : Nat) : Bytes :=
  ascii "qXfer:features:read:" ++ annex ++ ascii ":" ++ hexText offset ++ ascii "," ++
    hexText (max 256 (w.packetSize - 128))

/-- The state of `load`: the wire, the annexes seen and what they gave. -/
structure Loading where
  channel : Channel := {}
  seen : List Bytes := []
  architecture : Bytes := []
  registers : List GdbXMLRegister := []

section

variable (w : GdbWire) (peer : List Bytes → Bytes) (unmarshal : Bytes → Option GdbTargetDescription)

/-- The offset of the next chunk is the length of the result so far. -/
def GdbWire.readAnnex (annex : Bytes) : Nat → Bytes → Op Channel WireError Bytes
  | 0, _ => Op.throw .turns
  | turns + 1, result => do
    let reply ← w.exchange peer (featureRequest w annex result.length)
    match reply with
    | [] => Op.throw (.annex annex [])
    | kind :: data =>
      if kind ≠ 0x6d ∧ kind ≠ 0x6c then Op.throw (.annex annex (kind :: data))
      else if result.length + data.length > maximumGDBXMLSize then Op.throw .xmlSize
      else if kind = 0x6c then pure (result ++ data) else readAnnex annex turns (result ++ data)

/-- Reads an annex and the annexes that it includes, each once. -/
def GdbWire.load (turns : Nat) : Nat → Bytes → Op Loading WireError Unit
  | 0, _ => Op.throw .turns
  | depth + 1, annex => do
    let s ← Op.get
    if annex ∈ s.seen then pure () else do
      modify fun s => { s with seen := annex :: s.seen }
      let data ← zoom Loading.channel (fun channel s => { s with channel }) (w.readAnnex peer annex turns [])
      match unmarshal data with
      | none => Op.throw (.parse annex)
      | some target => do
        modify fun s => { s with
          architecture := if target.architecture ≠ [] then target.architecture else s.architecture
          registers := s.registers ++ target.registers }
        each (fun feature : GdbFeature => do
          modify fun s => { s with registers := s.registers ++ feature.registers }
          each (load turns depth) feature.includes) target.features
        each (load turns depth) target.includes

/-- Numbers and places of the registers, in their order. -/
def numberRegisters (number offset : Int) : List GdbXMLRegister → Except Bytes (List GdbRegister)
  | [] => .ok []
  | r :: rest =>
    let number := r.regnum.getD number
    if r.name = [] ∨ r.bitsize ≤ 0 ∨ r.bitsize % 8 ≠ 0 then .error r.name
    else (numberRegisters ((number + 1).bmod (2 ^ 64)) ((offset + r.bitsize / 8).bmod (2 ^ 64)) rest).map
      (⟨r.name, number, r.bitsize, offset, r.type, r.group⟩ :: ·)

/-- The registers of the target. -/
def GdbWire.targetDescription (turns : Nat) : Op Loading WireError (Bytes × List GdbRegister) := do
  w.load peer unmarshal turns turns (ascii "target.xml")
  let s ← Op.get
  let registers ← ofExcept ((numberRegisters 0 0 s.registers).mapError .register)
  pure (s.architecture, registers)

end

/-! ## Termination -/

/-- A well-formed packet. -/
structure Packet where
  encoded : Bytes
  payload : Bytes
  hash : 0x23 ∉ encoded
  unescaped : unescape encoded = some payload

/-- A target that answers with a packet, which may depend on all that it was sent. -/
def answers (w : GdbWire) (t : List Bytes → Packet) (sent : List Bytes) : Bytes :=
  (if w.noAck then [] else [0x2b]) ++ frame (t sent).encoded

variable {t : List Bytes → Packet}

lemma send_answers (hinp : c.input = []) (h : payload.length ≤ w.packetSize) :
    let output := c.output ++ [packetBytes payload]
    w.send (answers w t) payload c = (.ok (), { input := frame (t output).encoded, output }) := by
  rw [send_apply c h, hinp, when]
  unfold answers
  cases w.noAck with
  | true => rfl
  | false => rfl

/-- An exchange gives the payload of the answer, unless that is too large. -/
lemma exchange_answers (hinp : c.input = []) (h : payload.length ≤ w.packetSize) :
    let output := c.output ++ [packetBytes payload]
    ∃ input, w.exchange (answers w t) payload c =
      if (t output).encoded.length > w.packetSize + 1024 then (.error .replySize, { input, output })
      else (.ok (t output).payload, (w.acknowledge 0x2b { output }).2) := by
  intro output
  obtain ⟨input, hread⟩ := read_frame (w := w) [] not_mem_nil (t output).hash (t output).unescaped output
  rw [nil_append, append_nil] at hread
  exact ⟨input, (run_bind (send_answers hinp h)).trans hread⟩

lemma acknowledge_output (w : GdbWire) (output : List Bytes) : (w.acknowledge 0x2b { output }).2.input = [] ∧
    output.length ≤ (w.acknowledge 0x2b { output }).2.output.length ∧
    (w.acknowledge 0x2b { output }).2.output.length ≤ output.length + 1 := by
  unfold GdbWire.acknowledge
  rw [modify_apply]
  split <;> simp

/-- How many of the requests in a log were answered with a chunk that is neither the last nor carries a byte. -/
def emptyChunks (t : List Bytes → Packet) (log : List Bytes) : Nat :=
  (List.range log.length).countP fun i =>
    (log[i]?.bind head?) = some 0x24 && (t (log.take (i + 1))).payload = [0x6d]

/-- The empty parts that the target has sent after one more message. -/
lemma emptyChunks_append (t : List Bytes → Packet) (log : List Bytes) (message : Bytes) :
    emptyChunks t (log ++ [message]) = emptyChunks t log +
      if message.head? = some 0x24 ∧ (t (log ++ [message])).payload = [0x6d] then 1 else 0 := by
  unfold emptyChunks
  rw [length_append, length_singleton, range_succ, countP_append, countP_singleton, getElem?_concat_length,
    take_of_length_le (by simp)]
  congr 1
  · refine countP_congr fun i hi => ?_
    have hlt := mem_range.mp hi
    rw [getElem?_append_left hlt, take_append_of_le_length hlt]
  · simp

lemma emptyChunks_le_length (t : List Bytes → Packet) (log : List Bytes) : emptyChunks t log ≤ log.length :=
  countP_le_length.trans_eq length_range

lemma emptyChunks_acknowledge (w : GdbWire) (t : List Bytes → Packet) (output : List Bytes) :
    emptyChunks t (w.acknowledge 0x2b { output }).2.output = emptyChunks t output := by
  unfold GdbWire.acknowledge
  rw [modify_apply]
  split
  · rfl
  · rw [emptyChunks_append, if_neg (by simp), add_zero]

lemma emptyChunks_request (t : List Bytes → Packet) (output : List Bytes) (payload : Bytes) :
    emptyChunks t (output ++ [packetBytes payload]) = emptyChunks t output +
      if (t (output ++ [packetBytes payload])).payload = [0x6d] then 1 else 0 := by
  rw [emptyChunks_append]
  simp only [show (packetBytes payload).head? = some 0x24 from rfl, true_and]

/-- An exchange writes two messages at most. -/
lemma exchange_ends (hinp : c.input = []) : (w.exchange (answers w t) payload).Ends c
    (fun reply c' => c'.input = [] ∧ c'.output.length ≤ c.output.length + 2 ∧ payload.length ≤ w.packetSize ∧
      emptyChunks t c'.output = emptyChunks t c.output + if reply = [0x6d] then 1 else 0)
    fun e c' => e ≠ .turns ∧ c'.output.length ≤ c.output.length + 2 ∧
      emptyChunks t c.output ≤ emptyChunks t c'.output := by
  have hack := acknowledge_output w (c.output ++ [packetBytes payload])
  by_cases h : payload.length ≤ w.packetSize
  · obtain ⟨input, hrun⟩ := exchange_answers (t := t) hinp h
    rw [Ends, hrun]
    rw [length_append, length_singleton] at hack
    split_ifs
    · exact ⟨nofun, by simp, by simp only [emptyChunks_request]; omega⟩
    · exact ⟨hack.1, hack.2.2, h, by rw [emptyChunks_acknowledge, emptyChunks_request]⟩
  · refine ends_bind.mpr (ends_bind.mpr (ends_failIf.mpr ?_))
    rw [if_pos (by omega)]
    exact ⟨nofun, Nat.le_add_right _ _, le_rfl⟩

/-- The number of annex names that fit into a packet. -/
noncomputable def annexNames (packetSize : Nat) : Nat := Set.ncard { name : Bytes | name.length ≤ packetSize }

/-- There are only so many names that fit in a packet. -/
lemma length_le_annexNames {n : Nat} {seen : List Bytes} (hnodup : seen.Nodup)
    (hshort : ∀ name ∈ seen, name.length ≤ n) : seen.length ≤ annexNames n := by
  classical
  rw [← toFinset_card_of_nodup hnodup, ← Set.ncard_coe_finset]
  exact Set.ncard_le_ncard (fun name hname => hshort name (by simpa using hname)) (List.finite_length_le UInt8 n)

/-- How often the channel is written to for one annex. -/
def annexWrites : Nat := 2 * (maximumGDBXMLSize + 1)

/-- The bound on the number of writes. -/
noncomputable def requestBound (packetSize : Nat) : Nat := (annexNames packetSize + 1) * annexWrites

/-- The writes so far are within the bound, but for two for each empty chunk, and only empty chunks can have
used up the turns. -/
def Stops (w : GdbWire) (t : List Bytes → Packet) (turns : Nat) (e : WireError) (s : Loading) : Prop :=
  (e = .turns → turns ≤ maximumGDBXMLSize + emptyChunks t s.channel.output) ∧
    s.channel.output.length ≤ requestBound w.packetSize + 2 * emptyChunks t s.channel.output

section

variable {unmarshal : Bytes → Option GdbTargetDescription} {annex result : Bytes} {turns offset : Nat}

lemma length_annex_le (h : (featureRequest w annex offset).length ≤ w.packetSize) : annex.length ≤ w.packetSize := by
  simp only [featureRequest, length_append] at h
  omega

/-- A chunk that is not the last brings a byte or is counted as empty, so that the size limit bounds the
number of the others. -/
lemma readAnnex_ends (hinp : c.input = []) (hle : result.length ≤ maximumGDBXMLSize) :
    (w.readAnnex (answers w t) annex turns result).Ends c
      (fun _ c' => c'.input = [] ∧ annex.length ≤ w.packetSize ∧ c'.output.length + 2 * emptyChunks t c.output ≤
        c.output.length + 2 * (maximumGDBXMLSize + 1 - result.length) + 2 * emptyChunks t c'.output)
      fun e c' => (e = .turns →
          turns + result.length + emptyChunks t c.output ≤ maximumGDBXMLSize + emptyChunks t c'.output) ∧
        c'.output.length + 2 * emptyChunks t c.output ≤
          c.output.length + 2 * (maximumGDBXMLSize + 1 - result.length) + 2 * emptyChunks t c'.output := by
  induction turns generalizing result c with
  | zero => exact ⟨fun _ => by omega, by omega⟩
  | succ turns ih =>
  refine ends_bind.mpr ((exchange_ends hinp).imp ?_ fun e c' h => ⟨fun he => absurd he h.1, by omega⟩)
  rintro reply c' ⟨hemp, hout, hreq, hcount⟩
  cases reply with
  | nil => exact ⟨nofun, by omega⟩
  | cons kind data =>
  simp only
  split_ifs with hkind hsize hlast
  · exact ⟨nofun, by split at hcount <;> omega⟩
  · exact ⟨nofun, by split at hcount <;> omega⟩
  · exact ⟨hemp, length_annex_le hreq, by split at hcount <;> omega⟩
  have hm : kind = 0x6d := by tauto
  have hlength : (result ++ data).length = result.length + data.length := length_append
  have hdata : data.length = 0 → emptyChunks t c'.output = emptyChunks t c.output + 1 := by
    intro hzero
    rw [hcount, hm, length_eq_zero_iff.mp hzero, if_pos rfl]
  have hmono : emptyChunks t c.output ≤ emptyChunks t c'.output := by omega
  refine (ih hemp (by omega)).imp (fun _ _ h => ⟨h.1, h.2.1, ?_⟩) fun _ _ h => ⟨fun he => ?_, ?_⟩
  · have := h.2.2
    by_cases hzero : data.length = 0
    · have := hdata hzero
      omega
    · omega
  · have := h.1 he
    by_cases hzero : data.length = 0
    · have := hdata hzero
      omega
    · omega
  · have := h.2
    by_cases hzero : data.length = 0
    · have := hdata hzero
      omega
    · omega

/-- What holds between two annexes. -/
structure Loaded (w : GdbWire) (t : List Bytes → Packet) (s : Loading) : Prop where
  input : s.channel.input = []
  nodup : s.seen.Nodup
  short : ∀ name ∈ s.seen, name.length ≤ w.packetSize
  output : s.channel.output.length ≤ s.seen.length * annexWrites + 2 * emptyChunks t s.channel.output

/-- The writes so far are bounded by the annexes seen and the empty parts sent. -/
lemma Loaded.bound {s : Loading} (h : Loaded w t s) : s.seen.length ≤ annexNames w.packetSize ∧
    s.channel.output.length + annexWrites ≤ requestBound w.packetSize + 2 * emptyChunks t s.channel.output := by
  have hseen := length_le_annexNames h.nodup h.short
  have hmul := Nat.mul_le_mul_right annexWrites hseen
  have hout := h.output
  rw [requestBound, Nat.add_mul]
  omega

/-- Loading keeps the bound on the writes, since every annex is read once; the induction is on the depth. -/
lemma load_ends (depth : Nat) (annex : Bytes) {s : Loading} (h : Loaded w t s)
    (hdepth : annexNames w.packetSize < depth + s.seen.length) :
    (w.load (answers w t) unmarshal turns depth annex).Ends s
      (fun _ s' => Loaded w t s' ∧ s.seen.length ≤ s'.seen.length) (Stops w t turns) := by
  obtain ⟨hseen, hbound⟩ := h.bound
  induction depth generalizing annex s with
  | zero => omega
  | succ depth ih =>
  unfold GdbWire.load
  refine ends_bind.mpr ?_
  show (if annex ∈ s.seen then _ else _ : Op Loading WireError Unit).Ends s _ _
  split
  · exact ⟨h, le_rfl⟩
  next hnew =>
  have hwrites : annexWrites = 2 * (maximumGDBXMLSize + 1 - ([] : Bytes).length) := rfl
  refine ends_bind.mpr (ends_modify.mpr (ends_bind.mpr (ends_zoom.mpr ?_)))
  refine (readAnnex_ends h.input (Nat.zero_le _)).imp ?_ fun e c' he => ⟨fun hturns => ?_, ?_⟩
  case refine_2 =>
    have := he.1 hturns
    show turns ≤ maximumGDBXMLSize + emptyChunks t c'.output
    rw [length_nil] at this
    omega
  case refine_3 =>
    have := he.2
    show c'.output.length ≤ requestBound w.packetSize + 2 * emptyChunks t c'.output
    rw [← hwrites] at this
    omega
  rintro data c' ⟨hemp, hshort, hout⟩
  rw [← hwrites] at hout
  have hload : ∀ name s', Loaded w t s' ∧ s.seen.length < s'.seen.length →
      (w.load (answers w t) unmarshal turns depth name).Ends s'
        (fun _ s'' => Loaded w t s'' ∧ s.seen.length < s''.seen.length) (Stops w t turns) := fun name s' h' =>
    (ih name h'.1 (by omega) h'.1.bound.1 h'.1.bound.2).imp (fun _ _ h'' => ⟨h''.1, by omega⟩) fun _ _ he => he
  have hnext : Loaded w t { s with channel := c', seen := annex :: s.seen } := by
    refine ⟨hemp, nodup_cons.mpr ⟨hnew, h.nodup⟩, forall_mem_cons.mpr ⟨hshort, h.short⟩, ?_⟩
    have := h.output
    rw [length_cons, Nat.add_mul, one_mul]
    show c'.output.length ≤ _ + 2 * emptyChunks t c'.output
    omega
  cases unmarshal data with
  | none =>
    refine ⟨nofun, ?_⟩
    show c'.output.length ≤ requestBound w.packetSize + 2 * emptyChunks t c'.output
    omega
  | some description =>
  refine ends_bind.mpr (ends_modify.mpr (ends_bind.mpr ((ends_each (I := fun s' => Loaded w t s' ∧
    s.seen.length < s'.seen.length) (fun feature s' h' => ?_) _ ?_).imp (fun _ s' h' => ?_) fun _ _ he => he)))
  · exact ends_bind.mpr (ends_modify.mpr (ends_each hload _ ⟨⟨h'.1.input, h'.1.nodup, h'.1.short, h'.1.output⟩, h'.2⟩))
  · exact ⟨⟨hnext.input, hnext.nodup, hnext.short, hnext.output⟩, Nat.lt_succ_self _⟩
  · exact (ends_each hload _ h').imp (fun _ _ h'' => ⟨h''.1, h''.2.le⟩) fun _ _ he => he

/-- The writes of the description are bounded, but for the empty parts that the target sends. -/
lemma targetDescription_stops (hturns : annexNames w.packetSize < turns) :
    (w.targetDescription (answers w t) unmarshal turns).Ends {}
      (fun _ s => s.channel.output.length ≤ requestBound w.packetSize + 2 * emptyChunks t s.channel.output)
      (Stops w t turns) := by
  have hstart : Loaded w t {} := ⟨rfl, nodup_nil, fun _ h => absurd h not_mem_nil, Nat.zero_le _⟩
  refine ends_bind.mpr ((load_ends turns _ hstart hturns).imp ?_ fun _ _ he => he)
  rintro _ s ⟨hs, -⟩
  have hout := (Nat.le_add_right _ annexWrites).trans hs.bound.2
  refine ends_bind.mpr (ends_bind.mpr ?_)
  rw [Ends, ofExcept_apply]
  cases numberRegisters 0 0 s.registers with
  | ok registers => exact hout
  | error name => exact ⟨nofun, hout⟩

end

/-- The messages of the session in a run of `turns` turns. -/
def GdbWire.log (w : GdbWire) (t : List Bytes → Packet) (unmarshal : Bytes → Option GdbTargetDescription)
    (turns : Nat) : List Bytes :=
  (w.targetDescription (answers w t) unmarshal turns {}).2.channel.output

/-- The description ends exactly as far as empty chunks allow.  If the exchange has at most `k` of them, a
bounded number of requests gives the registers or an error; if it ends after `bound` messages, it has no more
than `bound` of them. -/
theorem targetDescription_ends (w : GdbWire) (unmarshal : Bytes → Option GdbTargetDescription)
    (t : List Bytes → Packet) :
    (∀ k, (∀ turns, emptyChunks t (w.log t unmarshal turns) ≤ k) → ∀ turns, requestBound w.packetSize + k ≤ turns →
      (w.targetDescription (answers w t) unmarshal turns).Ends {}
        (fun _ s => s.channel.output.length ≤ requestBound w.packetSize + 2 * k)
        fun e s => e ≠ .turns ∧ s.channel.output.length ≤ requestBound w.packetSize + 2 * k) ∧
    ∀ bound, (∀ turns, (w.log t unmarshal turns).length ≤ bound) →
      ∀ turns, emptyChunks t (w.log t unmarshal turns) ≤ bound := by
  refine ⟨fun k hempty turns hturns => ?_, fun bound hbound turns => (emptyChunks_le_length _ _).trans (hbound turns)⟩
  have hnames : annexNames w.packetSize + 1 ≤ requestBound w.packetSize := Nat.le_mul_of_pos_right _ (by decide)
  have hwrites : maximumGDBXMLSize < annexWrites := by decide
  have hone : annexWrites ≤ requestBound w.packetSize := Nat.le_mul_of_pos_left _ (Nat.succ_pos _)
  have hk := hempty turns
  have hstops : (w.targetDescription (answers w t) unmarshal turns).Ends {}
      (fun _ s => s.channel.output.length ≤ requestBound w.packetSize + 2 * emptyChunks t s.channel.output)
      (Stops w t turns) := targetDescription_stops (by omega)
  unfold GdbWire.log at hk
  unfold Ends at hstops ⊢
  revert hk hstops
  cases w.targetDescription (answers w t) unmarshal turns {} with
  | mk result s =>
  intro hk hstops
  cases result with
  | ok value =>
    have hout : s.channel.output.length ≤ requestBound w.packetSize + 2 * emptyChunks t s.channel.output := hstops
    show s.channel.output.length ≤ _
    simp only at hk
    omega
  | error e =>
    have hout : Stops w t turns e s := hstops
    simp only at hk
    refine ⟨fun he => ?_, ?_⟩
    · have := hout.1 he
      omega
    · have := hout.2
      omega

/-- A target whose first chunk is the last one has no empty chunk. -/
theorem targetDescription_ends_last : ∃ (t : List Bytes → Packet) (turns : Nat),
    (newGDBWire.targetDescription (answers newGDBWire t) (fun _ => none) turns).Ends {}
      (fun _ s => s.channel.output.length ≤ requestBound newGDBWire.packetSize + 2 * 0)
      fun e s => e ≠ .turns ∧ s.channel.output.length ≤ requestBound newGDBWire.packetSize + 2 * 0 := by
  obtain ⟨turns, hturns⟩ : ∃ turns, requestBound newGDBWire.packetSize + 0 ≤ turns := ⟨_, Nat.le_refl _⟩
  refine ⟨fun _ => ⟨[0x6c], [0x6c], by decide, rfl⟩, turns,
    (targetDescription_ends newGDBWire (fun _ => none) _).1 0 (fun _ => ?_) turns hturns⟩
  exact (countP_eq_zero.mpr fun i _ => by simp).le

/-- A target that announces more and sends nothing. -/
def silent : List Bytes → Packet := fun _ => ⟨[0x6d], [0x6d], by decide, rfl⟩

/-- A target that sends empty parts for ever keeps the loop going. -/
lemma readAnnex_silent (turns : Nat) (hinp : c.input = []) :
    ∃ c', newGDBWire.readAnnex (answers newGDBWire silent) (ascii "target.xml") turns [] c = (.error .turns, c') ∧
      c.output.length + turns ≤ c'.output.length := by
  induction turns generalizing c with
  | zero => exact ⟨c, rfl, le_rfl⟩
  | succ turns ih =>
  have hreq : (featureRequest newGDBWire (ascii "target.xml") 0).length ≤ newGDBWire.packetSize := by decide
  obtain ⟨input, hrun⟩ := exchange_answers (t := silent) hinp hreq
  rw [if_neg (by show ¬ 1 > 5120; decide)] at hrun
  have hack := acknowledge_output newGDBWire
    (c.output ++ [packetBytes (featureRequest newGDBWire (ascii "target.xml") 0)])
  rw [length_append, length_singleton] at hack
  obtain ⟨c', hrest, hle⟩ := ih hack.1
  exact ⟨c', (run_bind hrun).trans hrest, by omega⟩

/-- It is asked without end. -/
theorem targetDescription_silent : ∃ t : List Bytes → Packet, ∀ (unmarshal : Bytes → Option GdbTargetDescription)
    (turns : Nat), ∃ s, newGDBWire.targetDescription (answers newGDBWire t) unmarshal turns {} = (.error .turns, s) ∧
      turns ≤ s.channel.output.length := by
  refine ⟨silent, fun unmarshal turns => ?_⟩
  cases turns with
  | zero => exact ⟨{}, rfl, le_rfl⟩
  | succ turns =>
  obtain ⟨c', hrun, hle⟩ := readAnnex_silent (c := {}) (turns + 1) rfl
  refine ⟨{ channel := c', seen := [ascii "target.xml"] }, run_bind_error ?_, by simpa using hle⟩
  unfold GdbWire.load
  rw [run_bind (get_apply _), if_neg not_mem_nil, run_bind (modify_apply _ _)]
  refine run_bind_error ?_
  unfold zoom
  rw [hrun]

/-! ## A stream of packets -/

/-- A packet as it arrives behind noise, with any contents and any checksum. -/
structure Arrival (limit : Nat) where
  noise : Bytes
  encoded : Bytes
  want : UInt8
  leader : 0x24 ∉ noise
  hash : 0x23 ∉ encoded
  short : encoded.length ≤ limit

namespace Arrival

variable {limit : Nat} (a : Arrival limit)

def packet : Bytes := 0x24 :: a.encoded ++ [0x23, hexDigit (a.want >>> 4), hexDigit (a.want &&& 15)]

/-- What `read` returns for a packet. -/
def result : Except WireError Bytes :=
  if byteSum a.encoded ≠ a.want then .error (.checksum (byteSum a.encoded) a.want)
  else (unescape a.encoded).elim (.error .truncatedEscape) .ok

def answer : UInt8 := if byteSum a.encoded ≠ a.want then 0x2d else 0x2b

/-- The reader finds a packet behind noise. -/
lemma readFrame_arrival (rest : Bytes) :
    readFrame limit (a.noise ++ a.packet ++ rest) = (.ok (a.encoded, a.want), rest) := by
  have hbody : ∀ l, (a.encoded ++ 0x23 :: l).takeWhile (· ≠ 0x23) = a.encoded := fun l => by
    rw [takeWhile_append_of_pos (forall_ne a.hash), takeWhile_cons_of_neg (by decide), append_nil]
  have hleader : (a.noise ++ a.packet ++ rest).dropWhile (· ≠ 0x24) = a.packet ++ rest := by
    rw [append_assoc, dropWhile_append_of_pos (forall_ne a.leader)]
    rfl
  unfold readFrame
  simp only [hleader]
  simp only [packet, append_assoc, cons_append, nil_append, drop_succ_cons, drop_zero, hbody, drop_left,
    decode_hexDigit]
  exact if_neg (not_lt.mpr a.short)

end Arrival

/-- `n` reads, one after the other. -/
def GdbWire.reads (w : GdbWire) : Nat → Channel → List (Except WireError Bytes) × Channel
  | 0, c => ([], c)
  | n + 1, c =>
    let (result, c) := w.read c
    let (results, c) := w.reads n c
    (result :: results, c)

/-- A read answers one packet and leaves the rest. -/
lemma read_arrival (w : GdbWire) (a : Arrival (w.packetSize + 1024)) (rest : Bytes) (output : List Bytes) :
    w.read { input := a.noise ++ a.packet ++ rest, output } =
      (a.result, (w.acknowledge a.answer { input := rest, output }).2) := by
  unfold GdbWire.read zoom
  refine (run_bind (by simp only [a.readFrame_arrival]; rfl)).trans ?_
  unfold Arrival.result Arrival.answer
  simp only
  split
  · rfl
  · rfl

/-- **Packets keep their borders.**  Each `read` takes one packet, damaged or not: what fails its checksum is
refused and answered with a minus, and the packets behind it are read all the same. -/
theorem reads_arrivals (w : GdbWire) (l : List (Arrival (w.packetSize + 1024))) (rest : Bytes) (output : List Bytes) :
    w.reads l.length { input := l.flatMap (fun a => a.noise ++ a.packet) ++ rest, output } = (l.map (·.result),
      { input := rest, output := output ++ if w.noAck then [] else l.map fun a => [a.answer] }) := by
  induction l generalizing output with
  | nil => simp [GdbWire.reads]
  | cons a l ih =>
  rw [length_cons, GdbWire.reads, flatMap_cons, append_assoc _ _ rest, read_arrival]
  cases hack : w.noAck with
  | true | false => simp [GdbWire.acknowledge, modify_apply, hack, ih]

/-- `OK` with the checksum of another packet, behind an acknowledgement. -/
def damagedArrival : Arrival (newGDBWire.packetSize + 1024) where
  noise := ascii "+"
  encoded := ascii "OK"
  want := 0
  leader := by decide
  hash := by decide
  short := by decide

/-- `OK` as it was sent, behind two bytes of noise. -/
def intactArrival : Arrival (newGDBWire.packetSize + 1024) where
  noise := ascii "-x"
  encoded := ascii "OK"
  want := 0x9a
  leader := by decide
  hash := by decide
  short := by decide

/-- A damaged packet is refused, and the one behind it is read. -/
theorem reads_arrivals_damaged :
    newGDBWire.reads 2 { input := ascii "+$OK#00-x$OK#9a+", output := [] } =
      ([.error (.checksum 0x9a 0), .ok (ascii "OK")], { input := ascii "+", output := [[0x2d], [0x2b]] }) :=
  reads_arrivals newGDBWire [damagedArrival, intactArrival] (ascii "+") []

end Trex.Gdb
