import Trex.Block.Device
import Trex.Lib.BigEndian

/-!
# The NBD server: requests, replies and `handleRequest`

`block/nbd/server.go` from a parsed request to its reply.  `handleRequest` becomes a `Plan`: its device
calls, each with what the code does with the answer, and a reply.  Commands outside `nbdMutationBarrier`
leave the contents alone (`meets_handleRequest`).
-/

namespace Trex.Nbd

open Trex.Block

/-! ## Block devices -/

/-- A range with the mark whether it is allocated. -/
structure Extent where
  offset : Int
  length : Int
  allocated : Bool
  deriving DecidableEq, Repr

/-- The calls of the device interfaces, each with the type of its answer. -/
inductive Call : Type → Type where
  | readAt (off : Int) (n : Nat) : Call (List UInt8)
  | writeAt (data : List UInt8) (off : Int) : Call Unit
  | zeroAt (off length : Int) : Call Unit
  | trimAt (off length : Int) : Call Unit
  | flush : Call Unit
  | extents (off length : Int) : Call (List Extent)
  | prefetch (off length : Int) : Call Unit

/-- Calls that leave the contents alone: they may only move data between a cache
and its backing store. -/
def Call.observes {α : Type} : Call α → Bool
  | .readAt _ _ | .extents _ _ | .prefetch _ _ => true
  | .writeAt _ _ | .zeroAt _ _ | .trimAt _ _ | .flush => false

/-- A capability flag of the device, and whether it implements the interface that goes with it. -/
structure Feature where
  implemented : Bool
  capability : Bool

/-- `!ok || !s.device.Capabilities().X` is `¬ X.usable`. -/
def Feature.usable (f : Feature) : Bool := f.implemented && f.capability

/-- A block device. `Env` is what happens below it during one request. -/
structure Device where
  State : Type
  Env : Type
  size : Int
  minimumTransfer : UInt32
  writable : Feature
  flush : Feature
  zero : Feature
  trim : Feature
  extents : Feature
  prefetch : Feature
  env_nonempty : Nonempty Env
  exec : {α : Type} → Env → State → Call α → State × Except BlockError α

/-- Devices on which observing calls leave the contents alone, also when they fail: `same` relates states
with the same contents, which decide all answers. -/
class Device.Steady (d : Device) where
  same : d.State → d.State → Prop
  same_equivalence : Equivalence same
  exec_congr : ∀ {α : Type} (env : d.Env) (c : Call α) {s t : d.State}, same s t →
    same (d.exec env s c).1 (d.exec env t c).1 ∧ (d.exec env s c).2 = (d.exec env t c).2
  exec_observes : ∀ {α : Type} (env : d.Env) (c : Call α) (s : d.State), c.observes = true → same (d.exec env s c).1 s

open Device.Steady (same same_equivalence exec_congr exec_observes)

/-! ## Requests and replies -/

def nbdRequestMagic : UInt32 := 0x25609513
def nbdCommandRead : UInt16 := 0
def nbdCommandWrite : UInt16 := 1
def nbdCommandDisconnect : UInt16 := 2
def nbdCommandFlush : UInt16 := 3
def nbdCommandTrim : UInt16 := 4
def nbdCommandCache : UInt16 := 5
def nbdCommandWriteZeroes : UInt16 := 6
def nbdCommandBlockStatus : UInt16 := 7

def nbdCommandFlagFUA : UInt16 := 1
def nbdCommandFlagNoHole : UInt16 := 2
def nbdCommandFlagDF : UInt16 := 4
def nbdCommandFlagReqOne : UInt16 := 8
def nbdCommandFlagFastZero : UInt16 := 16

def nbdStructuredDone : UInt16 := 1
def nbdStructuredOffsetData : UInt16 := 1
def nbdStructuredBlockStatus : UInt16 := 5
def nbdStructuredError : UInt16 := 0x8001

def nbdStateHole : UInt32 := 1
def nbdStateZero : UInt32 := 2

def nbdErrPerm : UInt32 := 1
def nbdErrIO : UInt32 := 5
def nbdErrNoSpace : UInt32 := 28
def nbdErrInvalid : UInt32 := 22
def nbdErrOverflow : UInt32 := 75
def nbdErrNotSup : UInt32 := 95

/-- A parsed request.  A write is only handed on with its whole payload. -/
structure Request where
  flags : UInt16
  kind : UInt16
  cookie : UInt64
  offset : UInt64
  length : UInt32
  data : List UInt8
  payload : kind = nbdCommandWrite → data.length = length.toNat
  deriving DecidableEq

/-- A reply on the wire. -/
inductive Reply where
  | simple (cookie : UInt64) (errno : UInt32) (data : List UInt8)
  | structured (cookie : UInt64) (flags replyType : UInt16) (data : List UInt8)
  deriving DecidableEq, Repr

def Reply.cookie : Reply → UInt64
  | .simple cookie _ _ => cookie
  | .structured cookie _ _ _ => cookie

/-- What the handshake settled for the transmission phase. -/
structure NegotiationState where
  structured : Bool
  allocation : Bool

/-- The server: device, limits and workers. -/
structure NBDServer where
  device : Device
  maxRequest : UInt32
  workers : Nat
  workers_pos : 0 < workers

/-! ## Plans -/

/-- The reply of a command, or the error that ends the connection. -/
abbrev Outcome := Except String Reply

/-- The device calls of one request, in order, and its outcome. -/
inductive Plan : Type 1 where
  | finish (outcome : Outcome)
  | call {α : Type} (c : Call α) (next : Except BlockError α → Plan)

/-- A call that changes the contents, as the device sees it. -/
abbrev Mutation := (α : Type) × Call α

namespace Plan

/-- The plan on a device. -/
def run (d : Device) (env : d.Env) : Plan → d.State → d.State × Outcome
  | finish outcome, s => (s, outcome)
  | call c next, s => run d env (next (d.exec env s c).2) (d.exec env s c).1

/-- The mutating calls the plan makes on the device, in order. -/
def mutations (d : Device) (env : d.Env) : Plan → d.State → List Mutation
  | finish _, _ => []
  | call (α := α) c next, s =>
      (if c.observes then [] else [⟨α, c⟩]) ++ mutations d env (next (d.exec env s c).2) (d.exec env s c).1

/-- Every outcome of the plan satisfies `P`, and if it is to be `observing`, every
call observes. -/
def Meets (observing : Bool) (P : Outcome → Prop) : Plan → Prop
  | finish outcome => P outcome
  | call c next => (observing = true → c.observes = true) ∧ ∀ answer, Meets observing P (next answer)

lemma Meets.ite {observing : Bool} {P : Outcome → Prop} {c : Prop} [Decidable c] {p q : Plan}
    (hp : c → p.Meets observing P) (hq : ¬ c → q.Meets observing P) : (if c then p else q).Meets observing P := by
  by_cases h : c
  · rw [if_pos h]; exact hp h
  · rw [if_neg h]; exact hq h

section

variable (d : Device) (env : d.Env)

/-- On a steady device a plan cannot tell equal contents apart. -/
lemma run_congr [d.Steady] (p : Plan) {s t : d.State} (h : same s t) :
    same (p.run d env s).1 (p.run d env t).1 ∧ (p.run d env s).2 = (p.run d env t).2 := by
  induction p generalizing s t with
  | finish outcome => exact ⟨h, rfl⟩
  | call c next ih =>
  obtain ⟨hstate, hans⟩ := exec_congr env c h
  simp only [run, hans]
  exact ih _ hstate

lemma mutations_congr [d.Steady] (p : Plan) {s t : d.State} (h : same s t) :
    p.mutations d env s = p.mutations d env t := by
  induction p generalizing s t with
  | finish outcome => rfl
  | call c next ih =>
  obtain ⟨hstate, hans⟩ := exec_congr env c h
  simp only [mutations, hans]
  rw [ih _ hstate]

/-- What a plan meets holds of its outcome. -/
lemma Meets.outcome {observing : Bool} {P : Outcome → Prop} {p : Plan}
    (h : p.Meets observing P) (s : d.State) : P (p.run d env s).2 := by
  induction p generalizing s with
  | finish outcome => exact h
  | call c next ih => exact ih _ (h.2 _) _

/-- A plan that observes leaves the contents. -/
lemma Meets.run_same [d.Steady] {P : Outcome → Prop} {p : Plan}
    (h : p.Meets true P) (s : d.State) : same (p.run d env s).1 s := by
  induction p generalizing s with
  | finish outcome => exact same_equivalence.refl s
  | call c next ih => exact same_equivalence.trans (ih _ (h.2 _) _) (exec_observes env c s (h.1 rfl))

/-- A plan that observes makes no mutation. -/
lemma Meets.mutations_eq_nil {P : Outcome → Prop} {p : Plan}
    (h : p.Meets true P) (s : d.State) : p.mutations d env s = [] := by
  induction p generalizing s with
  | finish outcome => rfl
  | call c next ih => simp [mutations, h.1 rfl, ih _ (h.2 _)]

end

end Plan

/-! ## `handleRequest` -/

/-- Ends with a simple reply. -/
def simpleReply (cookie : UInt64) (errno : UInt32) (data : List UInt8) : Plan :=
  .finish (.ok (.simple cookie errno data))

/-- Ends with a structured reply. -/
def structuredReply (cookie : UInt64) (flags replyType : UInt16) (data : List UInt8) : Plan :=
  .finish (.ok (.structured cookie flags replyType data))

/-- The reply of a command without data. -/
def commandDone (request : Request) (state : NegotiationState) : Plan :=
  if state.structured then structuredReply request.cookie nbdStructuredDone 0 []
  else simpleReply request.cookie 0 []

/-- The reply of a command that fails. -/
def commandError (request : Request) (state : NegotiationState) (errno : UInt32)
    (message : String) : Plan :=
  if state.structured then
    let message := message.toUTF8.data.toList.take 4096
    structuredReply request.cookie nbdStructuredDone nbdStructuredError
      (BigEndian.put 4 errno.toNat ++ BigEndian.put 2 message.length ++ message)
  else simpleReply request.cookie errno []

/-- The error number of a device error. -/
def nbdErrorCode : BlockError → UInt32
  | .readOnly => nbdErrPerm
  | .unsupported => nbdErrNotSup
  | .outOfRange => nbdErrInvalid
  | .capacity _ _ _ => nbdErrNoSpace
  | _ => nbdErrIO

/-- The error branch that follows every device call. -/
def deviceError (request : Request) (state : NegotiationState) (err : BlockError) : Plan :=
  commandError request state (nbdErrorCode err) err.error

/-- Offset and length are multiples of the minimum transfer. -/
def aligned (s : NBDServer) (offset : UInt64) (length : UInt32) : Bool :=
  let minimum := s.device.minimumTransfer.toNat
  minimum != 0 && offset.toNat % minimum == 0 && length.toNat % minimum == 0

/-- Flushes the device and goes on. -/
def flush (s : NBDServer) (request : Request) (state : NegotiationState) (next : Plan) : Plan :=
  if ¬ s.device.flush.usable then deviceError request state .unsupported
  else .call .flush fun
    | .error err => deviceError request state err
    | .ok () => next

/-- The end of a mutation: flush first when the request asks for FUA. -/
def commandDoneFUA (s : NBDServer) (request : Request) (state : NegotiationState) : Plan :=
  if request.flags &&& nbdCommandFlagFUA ≠ 0 then flush s request state (commandDone request state)
  else commandDone request state

/-- `READ`. -/
def handleRead (request : Request) (state : NegotiationState) : Plan :=
  if request.flags &&& ~~~nbdCommandFlagDF ≠ 0 ∨ (request.flags &&& nbdCommandFlagDF ≠ 0 ∧ ¬ state.structured) then
    commandError request state nbdErrInvalid "invalid read flags"
  else .call (.readAt request.offset.toNat request.length.toNat) fun
    | .error err => deviceError request state err
    | .ok data =>
      if state.structured then
        structuredReply request.cookie nbdStructuredDone nbdStructuredOffsetData
          (BigEndian.put 8 request.offset.toNat ++ data)
      else simpleReply request.cookie 0 data

/-- `WRITE`, with `FUA`. -/
def handleWrite (s : NBDServer) (request : Request) (state : NegotiationState) : Plan :=
  if request.data.length ≠ request.length.toNat then .finish (.error "nbd: missing write payload")
  else if request.flags &&& ~~~nbdCommandFlagFUA ≠ 0 then
    commandError request state nbdErrInvalid "invalid write flags"
  else if ¬ s.device.writable.usable then
    commandError request state nbdErrPerm BlockError.readOnly.error
  else .call (.writeAt request.data request.offset.toNat) fun
    | .error err => deviceError request state err
    | .ok () => commandDoneFUA s request state

/-- `FLUSH`. -/
def handleFlush (s : NBDServer) (request : Request) (state : NegotiationState) : Plan :=
  if request.flags ≠ 0 ∨ request.offset ≠ 0 ∨ request.length ≠ 0 then
    commandError request state nbdErrInvalid "invalid flush request"
  else flush s request state (commandDone request state)

/-- `WRITE_ZEROES`, which a device without zeroing refuses. -/
def handleWriteZeroes (s : NBDServer) (request : Request) (state : NegotiationState) : Plan :=
  if request.flags &&&
      ~~~(nbdCommandFlagFUA ||| nbdCommandFlagNoHole ||| nbdCommandFlagFastZero) ≠ 0 then
    commandError request state nbdErrInvalid "invalid write-zeroes flags"
  else if ¬ s.device.zero.usable then
    commandError request state nbdErrNotSup BlockError.unsupported.error
  else .call (.zeroAt request.offset.toNat request.length.toNat) fun
    | .error err => deviceError request state err
    | .ok () => commandDoneFUA s request state

/-- `TRIM`. -/
def handleTrim (s : NBDServer) (request : Request) (state : NegotiationState) : Plan :=
  if request.flags &&& ~~~nbdCommandFlagFUA ≠ 0 then
    commandError request state nbdErrInvalid "invalid trim flags"
  else if ¬ s.device.trim.usable then
    commandError request state nbdErrNotSup BlockError.unsupported.error
  else .call (.trimAt request.offset.toNat request.length.toNat) fun
    | .error err => deviceError request state err
    | .ok () => commandDoneFUA s request state

/-- The descriptors of a block-status payload, or nothing when one is too large. -/
def extentDescriptors : List Extent → Option (List UInt8)
  | [] => some []
  | extent :: extents =>
      if extent.length ≤ 0 ∨ extent.length > 2 ^ 32 - 1 then none
      else
        let status := if extent.allocated then 0 else nbdStateHole ||| nbdStateZero
        (extentDescriptors extents).map fun rest =>
          BigEndian.put 4 extent.length.toNat ++ BigEndian.put 4 status.toNat ++ rest

/-- The ranges in a reply, one with `REQ_ONE`. -/
def blockStatusReply (request : Request) (state : NegotiationState) (extents : List Extent) :
    Plan :=
  let extents :=
    if request.flags &&& nbdCommandFlagReqOne ≠ 0 then extents.take 1 else extents
  match extentDescriptors extents with
  | none => commandError request state nbdErrOverflow "extent is too large"
  | some payload =>
      structuredReply request.cookie nbdStructuredDone nbdStructuredBlockStatus
        (BigEndian.put 4 1 ++ payload)

/-- `BLOCK_STATUS` of the allocation context. -/
def handleBlockStatus (s : NBDServer) (request : Request) (state : NegotiationState) : Plan :=
  if ¬ state.structured ∨ ¬ state.allocation ∨ request.flags &&& ~~~nbdCommandFlagReqOne ≠ 0 then
    commandError request state nbdErrNotSup "allocation metadata is not negotiated"
  else if s.device.extents.usable then
    .call (.extents request.offset.toNat request.length.toNat) fun
      | .error err => deviceError request state err
      | .ok extents => blockStatusReply request state extents
  else
    blockStatusReply request state [⟨request.offset.toNat, request.length.toNat, true⟩]

/-- `CACHE`, a prefetch of the device. -/
def handleCache (s : NBDServer) (request : Request) (state : NegotiationState) : Plan :=
  if request.flags ≠ 0 then commandError request state nbdErrInvalid "invalid cache flags"
  else if ¬ s.device.prefetch.usable then
    commandError request state nbdErrNotSup BlockError.unsupported.error
  else .call (.prefetch request.offset.toNat request.length.toNat) fun
    | .error err => deviceError request state err
    | .ok () => commandDone request state

/-- The command of a request. -/
def handleRequest (s : NBDServer) (state : NegotiationState) (request : Request) : Plan :=
  if request.length > s.maxRequest then
    commandError request state nbdErrOverflow "request exceeds maximum transfer"
  else if request.kind ≠ nbdCommandFlush ∧ (request.length = 0 ∨ ¬ aligned s request.offset request.length) then
    commandError request state nbdErrInvalid "unaligned or empty request"
  else if request.kind ≠ nbdCommandFlush ∧ (request.offset.toNat > 2 ^ 63 - 1 ∨
      validateRange s.device.size request.offset.toNat request.length.toNat ≠ .ok ()) then
    commandError request state nbdErrInvalid "request exceeds export"
  else if request.kind = nbdCommandRead then handleRead request state
  else if request.kind = nbdCommandWrite then handleWrite s request state
  else if request.kind = nbdCommandFlush then handleFlush s request state
  else if request.kind = nbdCommandWriteZeroes then handleWriteZeroes s request state
  else if request.kind = nbdCommandTrim then handleTrim s request state
  else if request.kind = nbdCommandBlockStatus then handleBlockStatus s request state
  else if request.kind = nbdCommandCache then handleCache s request state
  else commandError request state nbdErrNotSup "unknown command"

/-- The commands that wait for all jobs before them. -/
def nbdMutationBarrier (kind : UInt16) : Bool :=
  kind == nbdCommandWrite || kind == nbdCommandFlush || kind == nbdCommandTrim ||
    kind == nbdCommandWriteZeroes

/-! ## What every request does -/

/-- The outcome is a reply to the request. -/
def Answers (request : Request) (outcome : Outcome) : Prop :=
  ∃ reply, outcome = .ok reply ∧ reply.cookie = request.cookie

section

variable {observing : Bool} (s : NBDServer) (request : Request) (state : NegotiationState)

lemma meets_commandDone : (commandDone request state).Meets observing (Answers request) := by
  unfold commandDone
  split <;> exact ⟨_, rfl, rfl⟩

lemma meets_commandError (errno : UInt32) (msg : String) :
    (commandError request state errno msg).Meets observing (Answers request) := by
  unfold commandError
  split <;> exact ⟨_, rfl, rfl⟩

lemma meets_flush : (flush s request state (commandDone request state)).Meets false (Answers request) := by
  unfold flush
  split
  · exact meets_commandError ..
  · refine ⟨nofun, fun ans => ?_⟩
    cases ans with
    | error err => exact meets_commandError ..
    | ok done => exact meets_commandDone ..

lemma meets_commandDoneFUA : (commandDoneFUA s request state).Meets false (Answers request) := by
  unfold commandDoneFUA
  split
  · exact meets_flush ..
  · exact meets_commandDone ..

lemma meets_handleRead : (handleRead request state).Meets observing (Answers request) := by
  unfold handleRead
  split
  · exact meets_commandError ..
  · refine ⟨fun _ => rfl, fun ans => ?_⟩
    cases ans with
    | error err => exact meets_commandError ..
    | ok data => dsimp only; split <;> exact ⟨_, rfl, rfl⟩

/-- Only here the payload matters: `nbd: missing write payload` cannot happen. -/
lemma meets_handleWrite (h : request.kind = nbdCommandWrite) :
    (handleWrite s request state).Meets false (Answers request) := by
  unfold handleWrite
  rw [if_neg (not_not_intro (request.payload h))]
  split
  · exact meets_commandError ..
  split
  · exact meets_commandError ..
  · refine ⟨nofun, fun ans => ?_⟩
    cases ans with
    | error err => exact meets_commandError ..
    | ok done => exact meets_commandDoneFUA ..

lemma meets_handleFlush : (handleFlush s request state).Meets false (Answers request) := by
  unfold handleFlush
  split
  · exact meets_commandError ..
  · exact meets_flush ..

lemma meets_handleWriteZeroes : (handleWriteZeroes s request state).Meets false (Answers request) := by
  unfold handleWriteZeroes
  split
  · exact meets_commandError ..
  split
  · exact meets_commandError ..
  · refine ⟨nofun, fun ans => ?_⟩
    cases ans with
    | error err => exact meets_commandError ..
    | ok done => exact meets_commandDoneFUA ..

lemma meets_handleTrim : (handleTrim s request state).Meets false (Answers request) := by
  unfold handleTrim
  split
  · exact meets_commandError ..
  split
  · exact meets_commandError ..
  · refine ⟨nofun, fun ans => ?_⟩
    cases ans with
    | error err => exact meets_commandError ..
    | ok done => exact meets_commandDoneFUA ..

lemma meets_blockStatusReply (exts : List Extent) :
    (blockStatusReply request state exts).Meets observing (Answers request) := by
  unfold blockStatusReply
  dsimp only
  split
  · exact meets_commandError ..
  · exact ⟨_, rfl, rfl⟩

lemma meets_handleBlockStatus : (handleBlockStatus s request state).Meets observing (Answers request) := by
  unfold handleBlockStatus
  split
  · exact meets_commandError ..
  split
  · refine ⟨fun _ => rfl, fun ans => ?_⟩
    cases ans with
    | error err => exact meets_commandError ..
    | ok extents => exact meets_blockStatusReply ..
  · exact meets_blockStatusReply ..

lemma meets_handleCache : (handleCache s request state).Meets observing (Answers request) := by
  unfold handleCache
  split
  · exact meets_commandError ..
  split
  · exact meets_commandError ..
  · refine ⟨fun _ => rfl, fun ans => ?_⟩
    cases ans with
    | error err => exact meets_commandError ..
    | ok done => exact meets_commandDone ..

/-- Every request ends in one reply chunk with its cookie, and a command outside the barrier only
observes. -/
lemma meets_handleRequest : (handleRequest s state request).Meets (!nbdMutationBarrier request.kind)
      (Answers request) := by
  unfold handleRequest
  refine .ite (fun _ => meets_commandError ..) fun _ => ?_
  refine .ite (fun _ => meets_commandError ..) fun _ => ?_
  refine .ite (fun _ => meets_commandError ..) fun _ => ?_
  refine .ite (fun _ => meets_handleRead ..) fun _ => ?_
  refine .ite (fun hwrite => ?_) fun _ => ?_
  · rw [hwrite]
    exact meets_handleWrite s request state hwrite
  refine .ite (fun hflush => ?_) fun _ => ?_
  · rw [hflush]
    exact meets_handleFlush ..
  refine .ite (fun hzero => ?_) fun _ => ?_
  · rw [hzero]
    exact meets_handleWriteZeroes ..
  refine .ite (fun htrim => ?_) fun _ => ?_
  · rw [htrim]
    exact meets_handleTrim ..
  refine .ite (fun _ => meets_handleBlockStatus ..) fun _ => ?_
  exact .ite (fun _ => meets_handleCache ..) fun _ => meets_commandError ..

end

end Trex.Nbd
