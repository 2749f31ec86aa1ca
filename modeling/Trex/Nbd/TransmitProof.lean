import Trex.Nbd.Transmit

/-!
# Transmission is sequentially consistent

* `contents`, `log`: the device holds, and has been told, what the accepted requests in order give;
* `queued`, `pool`: an observing request that has to run has seen no mutation since its place;
* `jobs`: the wait group counts what is queued or in a worker's hands;
* `copies`: each accepted request is in one place only, and is lost only after a failure.
-/

namespace Trex.Nbd

open List Option Worker State

open Slice Tally

open Device.Steady (same same_equivalence)

variable {srv : NBDServer} {neg : NegotiationState}

/-! ## Sequential execution, one request more -/

section

variable (device : srv.device.State) (tasks : List (Task srv)) (task : Task srv)

lemma contentsAfter_concat :
    contentsAfter srv neg device (tasks ++ [task]) = (perform srv neg (contentsAfter srv neg device tasks) task).1 := by
  simp [contentsAfter, foldl_append]

lemma mutationsOf_concat : mutationsOf srv neg device (tasks ++ [task]) = mutationsOf srv neg device tasks ++
        mutationsOne srv neg (contentsAfter srv neg device tasks) task := by
  induction tasks generalizing device with
  | nil => simp [mutationsOf, contentsAfter]
  | cons first tasks ih =>
    simp only [cons_append, mutationsOf, ih, append_assoc]
    rfl

end

section

variable (device : srv.device.State) (task : Task srv) (h : nbdMutationBarrier task.request.kind = false)

include h

lemma perform_same [srv.device.Steady] : same (perform srv neg device task).1 device := by
  have hplan := meets_handleRequest srv task.request neg
  rw [h] at hplan
  exact hplan.run_same srv.device task.env device

lemma mutationsOne_observing : mutationsOne srv neg device task = [] := by
  have hplan := meets_handleRequest srv task.request neg
  rw [h] at hplan
  exact hplan.mutations_eq_nil srv.device task.env device

end

/-- Tasks that observe leave the contents. -/
lemma contentsAfter_same [srv.device.Steady] (neg : NegotiationState) (device : srv.device.State)
    (tasks : List (Task srv)) (h : ∀ task ∈ tasks, nbdMutationBarrier task.request.kind = false) :
    same (contentsAfter srv neg device tasks) device := by
  induction tasks generalizing device with
  | nil => exact same_equivalence.refl device
  | cons task tasks ih =>
  have hrest := ih (perform srv neg device task).1 fun t ht => h t (mem_cons_of_mem _ ht)
  exact same_equivalence.trans hrest
    (perform_same device task (h task mem_cons_self))

lemma perform_answers (device : srv.device.State) (task : Task srv) :
    Answers task.request (perform srv neg device task).2 :=
  (meets_handleRequest srv task.request neg).outcome srv.device task.env device

/-- An accepted request never ends in an error of the server. -/
lemma expected_ne_error {device : srv.device.State} (tasks : List (Task srv)) (i : Nat)
    (text : String) : expected srv neg device tasks i ≠ some (.error text) := by
  intro h
  simp only [expected, map_eq_some_iff] at h
  obtain ⟨task, -, hrun⟩ := h
  obtain ⟨reply, hok, -⟩ := perform_answers (contentsAfter srv neg device (tasks.take i)) task
  rw [hrun] at hok
  simp at hok

/-- An expected reply has the cookie of its request. -/
lemma expected_cookie {device : srv.device.State} {tasks : List (Task srv)} {i : Nat}
    {reply : Reply} (h : expected srv neg device tasks i = some (.ok reply)) :
    ∃ task, tasks[i]? = some task ∧ reply.cookie = task.request.cookie := by
  simp only [expected, map_eq_some_iff] at h
  obtain ⟨task, hget, hrun⟩ := h
  obtain ⟨ans, hok, hcookie⟩ := perform_answers (contentsAfter srv neg device (tasks.take i)) task
  rw [hrun] at hok
  cases hok
  exact ⟨task, hget, hcookie⟩

/-! ## The invariant -/

/-- An observing job that still has to run: no mutation has been accepted since. -/
def Pending (accepted : List (Task srv)) (job : Job srv) : Prop :=
  accepted[job.index]? = some job.task ∧
    ∀ task ∈ accepted.drop job.index, nbdMutationBarrier task.request.kind = false

variable {accepted : List (Task srv)} {job : Job srv}

section

variable (h : Pending accepted job)

include h

lemma Pending.observing : nbdMutationBarrier job.task.request.kind = false := by
  apply h.2
  rw [mem_iff_getElem?]
  exact ⟨0, by simpa using h.1⟩

lemma Pending.concat {task : Task srv}
    (htask : nbdMutationBarrier task.request.kind = false) : Pending (accepted ++ [task]) job := by
  have hlt : job.index < accepted.length := (List.getElem?_eq_some_iff.mp h.1).1
  constructor
  · rw [getElem?_append_left hlt]
    exact h.1
  intro t hmem
  rw [drop_append_of_le_length (by omega)] at hmem
  rcases mem_append.mp hmem with hmem | hmem
  · exact h.2 t hmem
  · rw [mem_singleton.mp hmem]
    exact htask

/-- Running a pending job now gives what running it at its place would have given. -/
lemma Pending.outcome [srv.device.Steady] (device now : srv.device.State)
    (hnow : same now (contentsAfter srv neg device accepted)) :
    expected srv neg device accepted job.index = some (perform srv neg now job.task).2 := by
  have hsame : same now
      (contentsAfter srv neg device (accepted.take job.index)) := by
    apply same_equivalence.trans hnow
    have := contentsAfter_same neg
      (contentsAfter srv neg device (accepted.take job.index)) (accepted.drop job.index) h.2
    rwa [contentsAfter, contentsAfter, ← foldl_append, take_append_drop] at this
  unfold expected
  rw [h.1]
  exact congrArg some (Plan.run_congr srv.device _ _ hsame).2.symm

end

/-- What is known of a worker in each of its states. -/
def WorkerOk (neg : NegotiationState) (device : srv.device.State) (s : State srv) : Worker srv → Prop
  | .idle failed => failed = true → s.wireDown = true
  | .discarding => s.wireDown = true
  | .started job => Pending s.accepted job
  | .replying job outcome => expected srv neg device s.accepted job.index = some outcome
  | .finishing failed => failed = true → s.wireDown = true
  | .reporting => s.wireDown = true

/-- The worker counts among the open jobs. -/
def Worker.busy : Worker srv → Nat
  | .idle _ | .reporting => 0
  | .discarding | .started _ | .replying _ _ | .finishing _ => 1

/-- The reader is counted by `jobs` between `jobs.Add(1)` and the end of the `select`. -/
def Reader.busy : Reader srv → Nat
  | .sending _ => 1
  | _ => 0

/-- The request that the reader holds back. -/
def Reader.held : Reader srv → List Request
  | .waiting request | .mutating request => [request]
  | _ => []

def Job.hits (i : Nat) (job : Job srv) : Nat := if job.index = i then 1 else 0

def Worker.hits (i : Nat) : Worker srv → Nat
  | .started job | .replying job _ => job.hits i
  | _ => 0

def Reader.hits (i : Nat) : Reader srv → Nat
  | .sending job | .replying job _ => job.hits i
  | _ => 0

/-- In how many places the request at place `i` is: replied to, queued, or in the
hands of the reader or of a worker. -/
def State.copies (s : State srv) (i : Nat) : Nat :=
  (s.replies.map Prod.fst).count i + (s.queue.map Job.index).count i + s.reader.hits i + tally (Worker.hits i) s.pool

/-- The invariant of a run. -/
structure Inv [srv.device.Steady] (neg : NegotiationState) (input : List UInt8) (device : srv.device.State)
    (s : State srv) : Prop where
  reads : s.reader ≠ .stopped → Reads srv input (s.accepted.map Task.request ++ s.reader.held) s.input
  dropped : ∃ requests, Reads srv input (s.accepted.map Task.request ++ requests) s.input
  ended : s.reader = .stopped → s.clean → s.readFailed = false →
    Reads srv input (s.accepted.map Task.request) s.input ∧ nextRequest srv s.input = none
  contents : same s.device (contentsAfter srv neg device s.accepted)
  log : s.log = mutationsOf srv neg device s.accepted
  size : s.pool.length = srv.workers
  jobs : s.jobs = s.reader.busy + s.queue.length + tally Worker.busy s.pool
  mutating : ∀ request, s.reader = .mutating request → s.jobs = 0
  queued : ∀ job ∈ s.queue, Pending s.accepted job
  sending : ∀ job, s.reader = .sending job → Pending s.accepted job
  replying : ∀ job outcome, s.reader = .replying job outcome →
    expected srv neg device s.accepted job.index = some outcome
  pool : ∀ worker ∈ s.pool, WorkerOk neg device s worker
  sent : ∀ i reply, (i, reply) ∈ s.replies → expected srv neg device s.accepted i = some (.ok reply)
  copies : ∀ i, s.copies i ≤ if i < s.accepted.length then 1 else 0
  exact : s.clean → ∀ i, i < s.accepted.length → s.copies i = 1

/-! ## One step -/

section

variable [srv.device.Steady] {input : List UInt8} {device : srv.device.State} {s s' : State srv}

section

variable (h : Inv neg input device s)

include h

/-- When the wait group is at zero no observing job is outstanding. -/
lemma Inv.quiet (hjobs : s.jobs = 0) : s.queue = [] ∧ ∀ worker ∈ s.pool, worker.busy = 0 := by
  have hcount := h.jobs
  constructor
  · exact length_eq_zero_iff.mp (by omega)
  · intro worker hmem
    have := le_tally busy s.pool worker hmem
    omega

section

variable (hstep : Step srv neg s s')

include hstep

lemma Inv.reads_step :
    s'.reader ≠ .stopped → Reads srv input (s'.accepted.map Task.request ++ s'.reader.held) s'.input := by
  cases hstep with
  | readObserving hr hnext _ | readMutation hr hnext _ =>
    intro _
    have := h.reads (by simp [hr])
    simp only [hr, Reader.held, append_nil] at this
    simpa [Reader.held] using this.snoc hnext
  | send hr _ | waitDone hr _ _ | mutate hr | mutationReplied hr _ =>
    intro _
    simpa [hr, Reader.held] using h.reads (by simp [hr])
  | readEnd | readFails | readCancelled | sendCancelled | waitCancelled | mutationReplyFails
  | mutationError => exact fun hne => absurd rfl hne
  | _ => exact h.reads

lemma Inv.dropped_step : ∃ requests, Reads srv input (s'.accepted.map Task.request ++ requests) s'.input := by
  by_cases hstop : s'.reader = .stopped
  · -- the reader accepts nothing in the step in which it stops, or once it has stopped
    have hkeep : s'.accepted = s.accepted ∧ s'.input = s.input := by
      cases hstep <;> first | exact ⟨rfl, rfl⟩ | simp at hstop
    rw [hkeep.1, hkeep.2]
    exact h.dropped
  · exact ⟨_, h.reads_step hstep hstop⟩

lemma Inv.ended_step : s'.reader = .stopped → s'.clean → s'.readFailed = false →
      Reads srv input (s'.accepted.map Task.request) s'.input ∧ nextRequest srv s'.input = none := by
  cases hstep with
  | readEnd hr hnext =>
    intro _ _ _
    have := h.reads (by simp [hr])
    exact ⟨by simpa [hr, Reader.held] using this, hnext⟩
  | mutationError hr => exact absurd (h.replying _ _ hr) (expected_ne_error _ _ _)
  | readFails hr => exact fun _ _ hf => by simp at hf
  | readCancelled hr hc | sendCancelled hr hc | waitCancelled hr _ hc =>
    exact fun _ hclean => absurd hclean.2 (by simp [hc])
  | mutationReplyFails hr | replyFails hr => exact fun _ hclean => absurd hclean.1 (by simp)
  | report hw | cancel hc => exact fun _ hclean => absurd hclean.2 (by simp)
  | readObserving | readMutation | send | waitDone | mutate | mutationReplied => exact fun hstop => by simp at hstop
  | _ => exact h.ended

lemma Inv.contents_step : same s'.device (contentsAfter srv neg device s'.accepted) := by
  cases hstep with
  | readObserving _ _ hk =>
    rw [contentsAfter_concat]
    exact same_equivalence.trans h.contents
      (same_equivalence.symm (perform_same _ _ hk))
  | mutate _ =>
    rw [contentsAfter_concat]
    exact (Plan.run_congr srv.device _ _ h.contents).1
  | observe hw =>
    have hpend : Pending s.accepted _ := h.pool _ (mem_of_getElem? hw)
    exact same_equivalence.trans (perform_same _ _ hpend.observing) h.contents
  | _ => exact h.contents

lemma Inv.log_step : s'.log = mutationsOf srv neg device s'.accepted := by
  cases hstep with
  | readObserving _ _ hk =>
    rw [mutationsOf_concat, mutationsOne_observing _ _ hk, append_nil]
    exact h.log
  | mutate _ =>
    rw [mutationsOf_concat, ← h.log]
    exact congrArg _ (Plan.mutations_congr srv.device _ _ h.contents)
  | observe hw =>
    have hpend : Pending s.accepted _ := h.pool _ (mem_of_getElem? hw)
    simp only [mutationsOne_observing _ _ hpend.observing, append_nil]
    exact h.log
  | _ => exact h.log

lemma Inv.jobs_step : s'.jobs = s'.reader.busy + s'.queue.length + tally busy s'.pool := by
  have hjobs := h.jobs
  cases hstep with
  | take hw hq | discard hw hq =>
    rw [hq, length_cons] at hjobs
    rw [tally_set_eq hw]
    simp only [busy]
    omega
  | discarded hw | observe hw | replied hw _ | replyFails hw | replyError hw | report hw =>
    have hle := le_tally busy s.pool _ (mem_of_getElem? hw)
    rw [tally_set_eq hw]
    simp only [busy] at hle ⊢
    omega
  | @done w failed hw =>
    have hle := le_tally busy s.pool _ (mem_of_getElem? hw)
    rw [tally_set_eq hw]
    cases failed <;> simp only [busy] at hle ⊢ <;> simp <;> omega
  | send hr hq =>
    rw [hr] at hjobs
    simp only [Reader.busy, length_append, length_singleton] at hjobs ⊢
    omega
  | cancel => exact hjobs
  | readObserving hr | readMutation hr | readEnd hr | readFails hr | readCancelled hr
  | sendCancelled hr | waitDone hr | waitCancelled hr | mutate hr | mutationReplied hr
  | mutationReplyFails hr | mutationError hr =>
  rw [hr] at hjobs
  simp only [Reader.busy] at hjobs ⊢
  omega

lemma Inv.mutating_step : ∀ req, s'.reader = .mutating req → s'.jobs = 0 := by
  cases hstep with
  | waitDone _ hj _ => exact fun _ _ => hj
  | discarded hw | done hw => exact fun req hr => by simp [h.mutating req hr]
  | readObserving | readMutation | readEnd | readFails | readCancelled | send | sendCancelled
  | waitCancelled | mutate | mutationReplied | mutationReplyFails | mutationError => exact fun _ hr => by simp at hr
  | _ => exact h.mutating

end

end

/-! The facts about the jobs themselves.  `accepted` grows in two steps only: by an
observing request, which no pending job minds, and by a mutation, when none is
pending. -/

variable {tasks : List (Task srv)} {i : Nat} {outcome : Outcome}

omit [srv.device.Steady] in
lemma expected_lt (h : expected srv neg device tasks i = some outcome) : i < tasks.length := by
  simp only [expected, map_eq_some_iff] at h
  obtain ⟨task, hget, -⟩ := h
  exact (List.getElem?_eq_some_iff.mp hget).1

omit [srv.device.Steady] in
/-- Later tasks do not change an expected reply. -/
lemma expected_keep (task : Task srv) (h : expected srv neg device tasks i = some outcome) :
    expected srv neg device (tasks ++ [task]) i = some outcome := by
  rw [expected, getElem?_append_left (expected_lt h), take_append_of_le_length (expected_lt h).le]
  exact h

section

variable (h : Inv neg input device s) (hstep : Step srv neg s s')

include h hstep

lemma Inv.queued_step : ∀ job ∈ s'.queue, Pending s'.accepted job := by
  cases hstep with
  | readObserving _ _ hk => exact fun job hjob => (h.queued job hjob).concat hk
  | send hr _ =>
    intro job hjob
    rcases mem_append.mp hjob with hjob | hjob
    · exact h.queued job hjob
    · rw [mem_singleton.mp hjob]
      exact h.sending _ hr
  | mutate hr =>
    have hemp := (h.quiet (h.mutating _ hr)).1
    intro job hjob
    simp [hemp] at hjob
  | take _ hq | discard _ hq => exact fun job hjob => h.queued job (by rw [hq]; exact mem_cons_of_mem _ hjob)
  | _ => exact h.queued

lemma Inv.sending_step : ∀ job, s'.reader = .sending job → Pending s'.accepted job := by
  cases hstep with
  | readObserving hr _ hk =>
    intro job hjob
    cases hjob
    constructor
    · simp
    · intro req hmem
      simp only [drop_left, mem_singleton] at hmem
      rw [hmem]
      exact hk
  | readMutation | readEnd | readFails | readCancelled | send | sendCancelled | waitDone
  | waitCancelled | mutate | mutationReplied | mutationReplyFails | mutationError => exact fun _ hr => by simp at hr
  | _ => exact h.sending

lemma Inv.replying_step : ∀ job outcome, s'.reader = .replying job outcome →
      expected srv neg device s'.accepted job.index = some outcome := by
  cases hstep with
  | mutate hr =>
    intro job outcome hjob
    cases hjob
    simp only [expected, getElem?_concat_length, map_some, take_left]
    exact congrArg some (Plan.run_congr srv.device _ _ h.contents).2.symm
  | readObserving | readMutation | readEnd | readFails | readCancelled | send | sendCancelled
  | waitDone | waitCancelled | mutationReplied | mutationReplyFails | mutationError =>
    exact fun _ _ hr => by simp at hr
  | _ => exact h.replying

end

omit [srv.device.Steady] in
lemma WorkerOk.keep {worker : Worker srv} (h : WorkerOk neg device s worker)
    (hacc : s'.accepted = s.accepted) (hwire : s.wireDown = true → s'.wireDown = true) :
    WorkerOk neg device s' worker := by
  cases worker with
  | idle failed | finishing failed => exact fun hf => hwire (h hf)
  | discarding | reporting => exact hwire h
  | started job | replying job outcome =>
  unfold WorkerOk
  rw [hacc]
  exact h

/-- Replacing one worker: the others keep what they know. -/
lemma Inv.pool_set (h : Inv neg input device s) (hacc : s'.accepted = s.accepted)
    (hwire : s.wireDown = true → s'.wireDown = true) (w : Nat) (new : Worker srv)
    (hpool : s'.pool = s.pool.set w new) (hnew : WorkerOk neg device s' new) :
    ∀ worker ∈ s'.pool, WorkerOk neg device s' worker := by
  intro worker hmem
  rw [hpool] at hmem
  rcases mem_or_eq_of_mem_set hmem with hmem | rfl
  · exact (h.pool worker hmem).keep hacc hwire
  · exact hnew

section

variable (h : Inv neg input device s) (hstep : Step srv neg s s')

include h hstep

lemma Inv.pool_step : ∀ worker ∈ s'.pool, WorkerOk neg device s' worker := by
  -- a worker in hand is one of the pool, so the invariant speaks about it
  have hmem {w : Nat} {worker : Worker srv} (hw : s.pool[w]? = some worker) :
      WorkerOk neg device s worker := h.pool worker (mem_of_getElem? hw)
  cases hstep with
  | readObserving _ _ hk =>
    intro worker hworkers
    have hok := h.pool worker hworkers
    cases worker with
    | started job => exact Pending.concat hok hk
    | replying job outcome => exact expected_keep _ hok
    | _ => exact hok
  | mutate hr =>
    have hquiet := (h.quiet (h.mutating _ hr)).2
    intro worker hworkers
    have hidle := hquiet worker hworkers
    have hok := h.pool worker hworkers
    cases worker with
    | started job | replying job outcome => simp [busy] at hidle
    | _ => exact hok
  | mutationReplyFails hr => exact fun worker hworkers => (h.pool worker hworkers).keep rfl fun _ => rfl
  | take hw hq =>
    refine h.pool_set rfl id _ _ rfl (h.queued _ ?_)
    rw [hq]
    exact mem_cons_self
  | discard hw _ => exact h.pool_set rfl id _ _ rfl (hmem hw rfl)
  | discarded hw => exact h.pool_set rfl id _ _ rfl fun _ => hmem hw
  | observe hw =>
    have hpend : Pending s.accepted _ := hmem hw
    exact h.pool_set rfl id _ _ rfl (hpend.outcome device s.device h.contents)
  | replied hw _ => exact h.pool_set rfl id _ _ rfl nofun
  | replyFails hw => exact h.pool_set rfl (fun _ => rfl) _ _ rfl fun _ => rfl
  | replyError hw => exact absurd (hmem hw) (expected_ne_error _ _ _)
  | @done w failed hw =>
    refine h.pool_set rfl id _ _ rfl ?_
    cases failed with
    | false => exact nofun
    | true => exact hmem hw rfl
  | report hw => exact h.pool_set rfl id _ _ rfl fun _ => hmem hw
  | _ => exact h.pool

lemma Inv.sent_step : ∀ i reply, (i, reply) ∈ s'.replies →
      expected srv neg device s'.accepted i = some (.ok reply) := by
  cases hstep with
  | readObserving | mutate => exact fun i reply hmem => expected_keep _ (h.sent i reply hmem)
  | mutationReplied hr _ =>
    intro i reply hmem
    rcases mem_append.mp hmem with hmem | hmem
    · exact h.sent i reply hmem
    · cases mem_singleton.mp hmem
      exact h.replying _ _ hr
  | replied hw _ =>
    intro i reply hmem
    rcases mem_append.mp hmem with hmem | hmem
    · exact h.sent i reply hmem
    · cases mem_singleton.mp hmem
      exact h.pool _ (mem_of_getElem? hw)
  | _ => exact h.sent

/-- What a step does to the places of the requests: it moves them around, or loses
one after a failure, or takes on a new one. -/
lemma Inv.copies_cases : (s'.accepted = s.accepted ∧ ∀ i, s'.copies i = s.copies i) ∨
    (s'.accepted = s.accepted ∧ ¬ s'.clean ∧ ∀ i, s'.copies i ≤ s.copies i) ∨
    (∃ task, s'.accepted = s.accepted ++ [task] ∧
      ∀ i, s'.copies i = s.copies i + if s.accepted.length = i then 1 else 0) := by
  cases hstep with
  | readObserving hr _ _ | mutate hr =>
    refine .inr (.inr ⟨_, rfl, fun i => ?_⟩)
    simp only [State.copies, hr, Reader.hits, Job.hits]
    omega
  | readMutation hr | readEnd hr | readFails hr | readCancelled hr | waitDone hr
  | waitCancelled hr =>
    refine .inl ⟨rfl, fun i => ?_⟩
    simp only [State.copies, hr, Reader.hits]
  | send hr _ | mutationReplied hr _ =>
    refine .inl ⟨rfl, fun i => ?_⟩
    simp only [State.copies, hr, Reader.hits, Job.hits, map_append, count_append,
      map_cons, map_nil, count_singleton, beq_iff_eq]
    omega
  | sendCancelled hr hc =>
    refine .inr (.inl ⟨rfl, fun hclean => by simp [clean, hc] at hclean, fun i => ?_⟩)
    simp only [State.copies, hr, Reader.hits]
    omega
  | mutationReplyFails hr =>
    refine .inr (.inl ⟨rfl, fun hclean => by simp [clean] at hclean, fun i => ?_⟩)
    simp only [State.copies, hr, Reader.hits]
    omega
  | mutationError hr => exact absurd (h.replying _ _ hr) (expected_ne_error _ _ _)
  | take hw hq =>
    refine .inl ⟨rfl, fun i => ?_⟩
    simp only [State.copies, hq, map_cons, count_cons, beq_iff_eq, tally_set_eq hw, hits, Job.hits]
    omega
  | discard hw hq =>
    have hdown : s.wireDown = true := h.pool _ (mem_of_getElem? hw) rfl
    refine .inr (.inl ⟨rfl, fun hclean => by simp [clean, hdown] at hclean, fun i => ?_⟩)
    simp only [State.copies, hq, map_cons, count_cons, tally_set_eq hw, hits]
    omega
  | discarded hw | report hw =>
    refine .inl ⟨rfl, fun i => ?_⟩
    simp only [State.copies, tally_set_eq hw, hits]
    omega
  | observe hw =>
    refine .inl ⟨rfl, fun i => ?_⟩
    have hle := le_tally (hits i) s.pool _ (mem_of_getElem? hw)
    simp only [State.copies, tally_set_eq hw, hits] at hle ⊢
    omega
  | replied hw _ =>
    refine .inl ⟨rfl, fun i => ?_⟩
    have hle := le_tally (hits i) s.pool _ (mem_of_getElem? hw)
    simp only [State.copies, tally_set_eq hw, hits, Job.hits, map_append,
      count_append, map_cons, map_nil, count_singleton, beq_iff_eq] at hle ⊢
    omega
  | replyFails hw =>
    refine .inr (.inl ⟨rfl, fun hclean => by simp [State.clean] at hclean, fun i => ?_⟩)
    simp only [State.copies, tally_set_eq hw, hits]
    omega
  | replyError hw => exact absurd (h.pool _ (mem_of_getElem? hw)) (expected_ne_error _ _ _)
  | @done w failed hw =>
    refine .inl ⟨rfl, fun i => ?_⟩
    cases failed <;> simp [State.copies, tally_set_eq hw, hits]
  | cancel => exact .inl ⟨rfl, fun i => rfl⟩

end

omit [srv.device.Steady] in
lemma Step.clean_of_clean (hstep : Step srv neg s s') (hclean : s'.clean) : s.clean := by
  obtain ⟨hwire, hcanc⟩ := hclean
  cases hstep with
  | mutationReplyFails | replyFails => simp at hwire
  | report | cancel => simp at hcanc
  | _ => exact ⟨hwire, hcanc⟩

section

variable (h : Inv neg input device s) (hstep : Step srv neg s s')

include h hstep

/-- No job is in two places. -/
lemma Inv.copies_step : ∀ i, s'.copies i ≤ if i < s'.accepted.length then 1 else 0 := by
  intro i
  have hi := h.copies i
  rcases h.copies_cases hstep with ⟨hacc, hcopies⟩ | ⟨hacc, -, hcopies⟩ | ⟨task, hacc, hcopies⟩
  · rw [hacc, hcopies]
    exact hi
  · rw [hacc]
    exact Nat.le_trans (hcopies i) hi
  · rw [hacc, hcopies, length_append, length_singleton]
    split at hi <;> split <;> split <;> omega

/-- On a clean wire no job is lost. -/
lemma Inv.exact_step : s'.clean → ∀ i, i < s'.accepted.length → s'.copies i = 1 := by
  intro hclean i hi
  have hone := h.exact (hstep.clean_of_clean hclean) i
  have hzero := h.copies i
  rcases h.copies_cases hstep with ⟨hacc, hcopies⟩ | ⟨-, hlost, -⟩ | ⟨task, hacc, hcopies⟩
  · rw [hacc] at hi
    rw [hcopies, hone hi]
  · exact absurd hclean hlost
  rw [hacc, length_append, length_singleton] at hi
  rw [hcopies]
  by_cases hlast : s.accepted.length = i
  · rw [if_pos hlast]
    rw [if_neg (by omega)] at hzero
    omega
  · rw [if_neg hlast, hone (by omega)]

/-- Every step keeps the invariant. -/
lemma Inv.step : Inv neg input device s' where
  reads := h.reads_step hstep
  dropped := h.dropped_step hstep
  ended := h.ended_step hstep
  contents := h.contents_step hstep
  log := h.log_step hstep
  size := by cases hstep <;> simpa using h.size
  jobs := h.jobs_step hstep
  mutating := h.mutating_step hstep
  queued := h.queued_step hstep
  sending := h.sending_step hstep
  replying := h.replying_step hstep
  pool := h.pool_step hstep
  sent := h.sent_step hstep
  copies := h.copies_step hstep
  exact := h.exact_step hstep

end

end

/-! ## Whole runs -/

section

variable [srv.device.Steady] {input : List UInt8} {device : srv.device.State} {s : State srv}

lemma inv_init : Inv neg input device (init srv input device) := by
  have hidle : ∀ worker ∈ (init srv input device).pool, worker = .idle false :=
    fun worker hmem => eq_of_mem_replicate hmem
  have hzero : ∀ f : Worker srv → Nat, f (.idle false) = 0 → tally f (init srv input device).pool = 0 := by
    intro f hf
    apply tally_eq_zero
    intro worker hmem
    rw [hidle worker hmem, hf]
  constructor
  case reads => exact fun _ => .nil input
  case dropped => exact ⟨[], .nil input⟩
  case ended => exact fun hstop => by simp [init] at hstop
  case contents => exact same_equivalence.refl device
  case log => rfl
  case size => simp [init]
  case jobs => rw [hzero busy rfl]; rfl
  case mutating => exact fun req hr => by simp [init] at hr
  case queued => exact fun job hjob => by simp [init] at hjob
  case sending => exact fun job hr => by simp [init] at hr
  case replying => exact fun job outcome hr => by simp [init] at hr
  case pool =>
    intro worker hmem
    rw [hidle worker hmem]
    exact nofun
  case sent => exact fun i reply hmem => by simp [init] at hmem
  case copies => exact fun i => by simp [copies, hzero (hits i) rfl]; rfl
  case exact => exact fun _ i hi => by simp [init] at hi

/-- The invariant holds in every reachable state. -/
lemma inv_reachable (h : Reachable srv neg input device s) : Inv neg input device s := by
  induction h with
  | init => exact inv_init
  | step _ hstep ih => exact ih.step hstep

end

end Trex.Nbd
