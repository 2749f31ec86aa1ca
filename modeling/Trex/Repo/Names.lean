import Trex.Repo.Run

/-!
# No lost update on the named roots

A name is changed by compare-and-swap.  `no_lost_update`: over any interleaving of clients, with any
calls failing, a publication that replaces a root replaces the one its workspace last checked out or
published under that name.
-/

namespace Trex.Repo

open Bytes (ascii)

open Op

/-! ## Histories -/

/-- A workspace has checked out or published a name with a root. -/
structure Event where
  state : Nat
  name : Bytes
  root : ID
  deriving DecidableEq, Repr

abbrev History := List Event

/-- What a call adds to the history. -/
def Action.events (world : World) : Action → Reply → List Event
  | .checkout name, .workspace w => [⟨w.state, name, world.roots.root name⟩]
  | .publish w name, .id id => [⟨w.state, name, id⟩]
  | _, _ => []

/-- One call, with the history. -/
def step (env : Env) (t : World × History) (a : Action) : World × History :=
  match a.run env t.1 with
  | (.ok reply, world) => (world, a.events t.1 reply ++ t.2)
  | (.error _, world) => (world, t.2)

/-- A sequence of calls. -/
def runFrom (env : Env) (start : World) (actions : List Action) : World × History :=
  actions.foldl (step env) (start, [])

/-- The root that a workspace last checked out or published under a name. -/
def lastRoot (history : History) (state : Nat) (name : Bytes) : Option ID :=
  (history.find? fun e => e.state = state ∧ e.name = name).map Event.root

/-- The name and the root that a workspace took last. -/
def lastTag (history : History) (state : Nat) : Tag :=
  match history.find? fun e => e.state = state with
  | none => {}
  | some e => ⟨e.name, e.root⟩

lemma lastTag_cons (e : Event) (history : History) (state : Nat) :
    lastTag (e :: history) state = if state = e.state then ⟨e.name, e.root⟩ else lastTag history state := by
  unfold lastTag
  rw [List.find?_cons]
  by_cases h : e.state = state
  · simp [h]
  · simp [h, Ne.symm h]

variable {history : History} {name : Bytes} {root : ID} {t : World × History} {world : World}
  {env : Env} {a : Action}

/-- The last of all events of a workspace is the last one under its name. -/
lemma lastRoot_of_lastTag {state : Nat} (hname : name ≠ []) (h : lastTag history state = ⟨name, root⟩) :
    lastRoot history state name = some root := by
  induction history with
  | nil =>
    obtain rfl : [] = name := congrArg Tag.name h
    exact absurd rfl hname
  | cons e history ih =>
  rw [lastTag_cons] at h
  unfold lastRoot
  rw [List.find?_cons]
  split at h
  next hstate =>
    obtain ⟨rfl, rfl⟩ := Tag.mk.inj h
    simp [hstate]
  next hstate =>
    simp only [Ne.symm hstate, false_and, decide_false]
    exact ih h

/-! ## What an operation can do to the names -/

/-- The error with which `ready` refuses every call: the repository is closed or poisoned. -/
def refusal (s : Storage) : Option Err :=
  match (ready s).1 with
  | .error e => some e
  | .ok _ => none

lemma ready_eq (s : Storage) : ready s = ((refusal s).elim (.ok ()) .error, s) := by
  unfold refusal ready
  by_cases hclosed : s.closed = true
  · simp [bind_apply, hclosed]
  · by_cases hpoisoned : s.poisoned.isSome = true
    · simp [bind_apply, hclosed, hpoisoned]
    · simp [bind_apply, hclosed, hpoisoned]

section

variable {env : Env} {α : Type} {world : World} {m : WorkM α}

/-- The names and tags are unchanged. -/
def SameNames (world world' : World) : Prop := ∃ x, world' = { world with shared := x }

lemma SameNames.shared (world : World) (x : Shared) : SameNames world { world with shared := x } :=
  ⟨x, rfl⟩

variable {world world' : World} {β : Type}

lemma SameNames.roots (h : SameNames world world') : world'.roots = world.roots := by
  obtain ⟨x, rfl⟩ := h
  rfl

lemma SameNames.tags (h : SameNames world world') : world'.tags = world.tags := by
  obtain ⟨x, rfl⟩ := h
  rfl

/-- What runs on the shared part leaves names and tags. -/
lemma sameNames_onShared : (onShared m).Ends world (fun _ w => SameNames world w) fun _ w => SameNames world w :=
  ends_onShared.mpr (ends_of_forall (fun _ x => .shared _ x) fun _ x => .shared _ x)

/-! ## Publications, drops and checkouts -/

lemma appendEncoded_id (kind : UInt8) (id : ID) (data : Bytes) (logical depth : Nat) (s : Storage) :
    (appendEncoded env kind id data logical depth).Ends s (fun i _ => i = id) fun _ _ => True := by
  unfold appendEncoded
  iterate 7 refine ends_bind_of_forall (fun _ _ => ?_) fun _ _ => trivial
  exact ends_bind_of_forall (fun _ _ => ends_pure.mpr rfl) fun _ _ => trivial

section

variable (kind : UInt8) (data : Bytes)

/-- An append returns the hash of the record. -/
lemma append_id (s : Storage) :
    (append env kind data).Ends s (fun id _ => id = digest env kind data) fun _ _ => True := by
  unfold append
  iterate 2 refine ends_bind_of_forall (fun _ _ => ?_) fun _ _ => trivial
  refine ends_bind_of_forall (fun found _ => ?_) fun _ _ => trivial
  split
  · exact ends_pure.mpr rfl
  · exact appendEncoded_id ..

lemma length_digestKey : (digestKey env kind data).length = 32 :=
  env.length_sha256 _

lemma digest_ne_nil : digest env kind data ≠ [] := by
  intro h
  have hlen := congrArg List.length h
  rw [digest, Hex.length_encode, length_digestKey, List.length_nil] at hlen
  omega

end

/-- A snapshot has an identity. -/
lemma snapshotLocked_ne_nil (roots : Roots) (w : Workspace) (x : Shared) :
    (snapshotLocked env roots w).Ends x (fun id _ => id ≠ []) fun _ _ => True := by
  unfold snapshotLocked save
  refine ends_bind_of_forall (fun _ _ => ?_) fun _ _ => trivial
  refine ends_bind_of_forall (fun st _ => ?_) fun _ _ => trivial
  split
  next hstart => exact ends_pure.mpr hstart
  next =>
  rw [ends_bind, ends_bind]
  refine ends_of_forall (fun st _ => ?_) fun _ _ => trivial
  -- the identity is the memoized one or that of the record just written
  have hsave : ∀ id : ID, id ≠ [] → ∀ x : Shared,
      (onRepo (sync env roots) >>= fun _ => setState w (fun st => { st with snapshot := id }) >>=
        fun _ => (pure id : WorkM ID)).Ends x (fun id _ => id ≠ []) fun _ _ => True := by
    intro id hid x
    refine ends_bind_of_forall (fun _ _ => ?_) fun _ _ => trivial
    exact ends_bind_of_forall (fun _ _ => ends_pure.mpr hid) fun _ _ => trivial
  split
  · exact trivial
  split
  next hmemo => exact ends_pure.mpr (hsave _ hmemo _)
  next =>
  refine ends_bind_of_forall (fun root _ => ?_) fun _ _ => trivial
  refine ends_onRepo.mpr ((append_id _ _ _).imp ?_ fun _ _ _ => trivial)
  rintro id x rfl
  exact hsave _ (digest_ne_nil _ _) _

def World.tagged (world : World) (w : Workspace) (tag : Tag) : World :=
  { world with tags := fun i => if i = w.state then tag else world.tags i }

/-- A commit of the names changes all of them at once, or none. -/
lemma commitRefs_ends (refs : Refs) : (commitRefs env refs).Ends world
    (fun _ w => ∃ x, w = { world with shared := x, roots := { world.roots with refs } })
    fun _ w => SameNames world w := by
  unfold commitRefs
  rw [ends_bind, ends_gets, ends_bind, ends_onShared]
  exact ends_of_forall (fun _ x => ends_modify.mpr ⟨x, rfl⟩) fun _ x => .shared _ x

/-- What `publish` does when it succeeds and when it fails. -/
lemma publish_ends (w : Workspace) (name : Bytes) : (publish env w name).Ends world
    (fun id world' => validName name = true ∧ id ≠ [] ∧
      ¬ conflicts (world.tags w.state) name (world.roots.root name) ∧ ∃ x, world' = World.tagged { world with
        shared := x, roots := { world.roots with refs := world.roots.refs.insert name id } } w ⟨name, id⟩)
    fun _ w => SameNames world w := by
  unfold publish
  rw [ends_bind]
  refine sameNames_onShared.imp ?_ fun _ _ h => h
  rintro _ _ ⟨x, rfl⟩
  rw [ends_bind, ends_failIf]
  split
  · exact .shared _ x
  next hname =>
  rw [ends_bind, ends_onShared]
  refine ends_of_forall (fun _ x => ?_) fun _ x => .shared _ x
  rw [ends_bind, ends_gets, ends_bind, ends_gets, ends_bind, ends_failIf]
  split
  · exact .shared _ x
  next hconf =>
  rw [ends_bind, ends_onShared]
  refine (snapshotLocked_ne_nil _ w x).imp ?_ fun _ x _ => .shared _ x
  intro id x hid
  rw [ends_bind]
  refine (commitRefs_ends _).imp ?_ ?_
  · rintro _ _ ⟨x, rfl⟩
    rw [ends_bind]
    exact ends_modify.mpr (ends_pure.mpr ⟨by simpa using hname, hid, hconf, x, rfl⟩)
  · rintro _ _ ⟨x, rfl⟩
    exact .shared _ x

/-- What `drop` does when it succeeds and when it fails. -/
lemma drop_ends (name : Bytes) (expected : ID) : (drop env name expected).Ends world
    (fun _ w => world.roots.refs.find name = some expected ∧ ∃ x, w = { world with
      shared := x, roots := { world.roots with refs := world.roots.refs.erase name } })
    fun _ w => SameNames world w := by
  unfold drop
  rw [ends_bind, ends_onShared]
  refine ends_of_forall (fun _ x => ?_) fun _ x => .shared _ x
  rw [ends_bind, ends_gets]
  dsimp only
  split
  · exact .shared _ x
  next cur hfind =>
  rw [ends_bind, ends_failIf]
  split
  · exact .shared _ x
  next hcur =>
  refine (commitRefs_ends _).imp ?_ ?_
  · rintro _ _ ⟨x, rfl⟩
    exact ⟨by rw [hfind, not_not.mp hcur], x, rfl⟩
  · rintro _ _ ⟨x, rfl⟩
    exact .shared _ x

/-- What `checkout` does when it succeeds and when it fails. -/
lemma checkout_ends (name : Bytes) : (checkout env name).Ends world
    (fun w world' => ∃ x id, world.roots.refs.find name = some id ∧
      world' = World.tagged { world with shared := x } w ⟨name, id⟩) fun _ w => SameNames world w := by
  unfold checkout
  rw [ends_bind, ends_onShared]
  refine ends_of_forall (fun _ x => ?_) fun _ x => .shared _ x
  rw [ends_bind, ends_gets]
  split
  · exact .shared _ x
  next id hfind =>
  rw [ends_bind, ends_onShared]
  refine ends_of_forall (fun w x => ?_) fun _ x => .shared _ x
  rw [ends_bind]
  exact ends_modify.mpr (ends_pure.mpr ⟨x, id, hfind, rfl⟩)

/-- A catalogue of Git references leaves the names. -/
lemma publishGit_ends (c : GitCatalog) : (publishGit env c).Ends world (fun _ w => ∃ x catalogs, w = { world with
      shared := x, roots := { world.roots with gitCatalogs := catalogs } }) fun _ w => SameNames world w := by
  unfold publishGit
  rw [ends_bind, ends_gets, ends_bind, ends_onShared]
  exact ends_of_forall (fun _ x => ends_modify.mpr ⟨x, _, rfl⟩) fun _ x => .shared _ x

end

/-! ## Every operation keeps the history -/

/-- The tags are those of the history, and every name has a root. -/
structure Tracked (t : World × History) : Prop where
  tags : ∀ i, t.1.tags i = lastTag t.2 i
  roots : ∀ name root, t.1.roots.refs.find name = some root → validName name = true ∧ root ≠ []

lemma Tracked.same (h : Tracked t) (hsame : SameNames t.1 world) : Tracked (world, t.2) :=
  ⟨fun i => by rw [hsame.tags]; exact h.tags i, fun name root => by rw [hsame.roots]; exact h.roots name root⟩

/-- The calls that read or change names. -/
def Action.naming : Action → Bool
  | .checkout _ | .publish _ _ | .drop _ _ | .publishGit _ => true
  | _ => false

/-- The other calls leave names and tags. -/
lemma quiet_run (h : a.naming = false) (world : World) :
    (a.run env).Ends world (fun _ w => SameNames world w) fun _ w => SameNames world w := by
  cases a with
  | checkout | publish | drop | publishGit => simp [Action.naming] at h
  | fork | snapshot | checkpoint | close => exact ends_bind.mpr (ends_bind.mpr (ends_gets.mpr sameNames_onShared))
  | _ => exact ends_bind.mpr sameNames_onShared

/-- A call comes back with a reply that adds its events, or fails and adds none. -/
lemma tracked_step {Q : Reply → World → Prop}
    (hends : (a.run env).Ends t.1 Q fun _ w => SameNames t.1 w) (h : Tracked t)
    (hQ : ∀ reply world, Q reply world → Tracked (world, a.events t.1 reply ++ t.2)) : Tracked (step env t a) := by
  unfold step
  split
  next reply world heq => exact hQ reply world (hends.ok heq)
  next e world heq => exact h.same (hends.error heq)

/-- A workspace that takes a name is tracked. -/
lemma Tracked.tagged (h : Tracked (world, history)) (w : Workspace) (name : Bytes) (root : ID) :
    Tracked (world.tagged w ⟨name, root⟩, ⟨w.state, name, root⟩ :: history) := by
  refine ⟨fun i => ?_, h.roots⟩
  rw [lastTag_cons]
  show (if i = w.state then _ else world.tags i) = if i = w.state then _ else _
  rw [h.tags i]

/-- One call keeps tags and history in step. -/
lemma Tracked.step (h : Tracked t) (a : Action) : Tracked (step env t a) := by
  by_cases hnaming : a.naming = true
  · cases a with
    | checkout name =>
      refine tracked_step (ends_bind.mpr ((checkout_ends name).imp (fun w world hw => ?_)
        fun _ _ hw => hw)) h fun reply world hw => hw
      obtain ⟨x, id, hfind, rfl⟩ := hw
      have hroot : t.1.roots.root name = id := by rw [Roots.root, hfind]; rfl
      show Tracked (_, [(⟨w.state, name, t.1.roots.root name⟩ : Event)] ++ t.2)
      rw [hroot]
      exact (h.same (.shared _ x)).tagged w name id
    | publish w name =>
      refine tracked_step (ends_bind.mpr ((publish_ends w name).imp (fun id world hw => ?_)
        fun _ _ hw => hw)) h fun reply world hw => hw
      obtain ⟨hname, hid, -, x, rfl⟩ := hw
      have hroots : ∀ name' root, (t.1.roots.refs.insert name id).find name' = some root →
          validName name' = true ∧ root ≠ [] := by
        intro name' root hfind
        rw [SortedMap.find_insert] at hfind
        split at hfind
        next heq =>
          obtain rfl := Option.some.inj hfind
          exact ⟨heq ▸ hname, hid⟩
        next => exact h.roots name' root hfind
      have hnew : Tracked ({ t.1 with
          shared := x, roots := { t.1.roots with refs := t.1.roots.refs.insert name id } }, t.2) :=
        ⟨h.tags, hroots⟩
      exact hnew.tagged w name id
    | drop name expected =>
      refine tracked_step (ends_bind.mpr ((drop_ends name expected).imp (fun _ world hw => ?_)
        fun _ _ hw => hw)) h fun reply world hw => hw
      obtain ⟨-, x, rfl⟩ := hw
      refine ⟨h.tags, fun name' root hfind => ?_⟩
      rw [SortedMap.find_erase] at hfind
      split at hfind
      · simp at hfind
      · exact h.roots name' root hfind
    | publishGit c =>
      refine tracked_step (ends_bind.mpr ((publishGit_ends c).imp (fun _ world hw => ?_)
        fun _ _ hw => hw)) h fun reply world hw => hw
      obtain ⟨x, catalogs, rfl⟩ := hw
      exact ⟨h.tags, h.roots⟩
    | _ => simp [Action.naming] at hnaming
  · have hfalse : a.naming = false := by simpa using hnaming
    refine tracked_step (quiet_run hfalse t.1) h fun reply world hw => ?_
    have hevents : a.events t.1 reply = [] := by cases a <;> first | rfl | simp [Action.naming] at hfalse
    rw [hevents]
    exact h.same hw

/-- What `Open` and `create` guarantee of the names: no workspace has taken one yet, and each root that was
loaded stands under a valid name.  An empty root would have to name an object with the digest zero. -/
structure Opened (world : World) : Prop where
  tags : ∀ state, world.tags state = {}
  roots : ∀ name root, world.roots.refs.find name = some root → validName name = true ∧ root ≠ []

lemma opened_create {start : World} {optimized : Bool} {fails : Nat → Bool} {short : Nat → Nat}
    (h : create optimized fails short = .ok start) : Opened start := by
  unfold create at h
  dsimp only at h
  split at h
  · simp at h
  next store _ =>
    obtain rfl := Except.ok.inj h
    exact ⟨fun _ => rfl, fun name root hfind => by simp at hfind⟩

/-- Every sequence of calls keeps tags and history in step. -/
lemma tracked_run {start : World} (hstart : Opened start) (acts : List Action) :
    Tracked (runFrom env start acts) := by
  have hinit : Tracked (start, []) := ⟨hstart.tags, hstart.roots⟩
  have hrun : ∀ (t : World × History), Tracked t → Tracked (acts.foldl (step env) t) := by
    induction acts with
    | nil => exact fun _ h => h
    | cons a acts ih => exact fun t h => ih _ (h.step a)
  exact hrun _ hinit

/-! ## The comparison -/

lemma root_eq_some {roots : Roots} (h : roots.refs.find name = some root) : roots.root name = root := by
  rw [Roots.root, h]
  rfl

lemma onShared_ready (world : World) : onShared (onRepo ready) world =
    ((refusal world.shared.live.store).elim (.ok ()) .error, world) := by
  simp [onShared, onRepo, onTree, onStore, zoom, ready_eq]

section

variable {w : Workspace}

lemma publish_readOnly (hw : w.readonly = true) (name : Bytes) : publish env w name world = (.error .readOnly, world) :=
  run_bind_error (by simp [onShared, zoom, writable, hw])

/-- A repository that is closed or poisoned refuses to publish. -/
lemma publish_refused (hw : w.readonly = false) (hname : validName name = true) {e : Err}
    (he : refusal world.shared.live.store = some e) : publish env w name world = (.error e, world) := by
  have hwritable : onShared (writable w) world = (.ok (), world) := by simp [onShared, zoom, writable, hw]
  unfold publish
  rw [run_bind hwritable, run_bind (show failIf _ _ world = (.ok (), world) by simp [hname])]
  exact run_bind_error (by rw [onShared_ready, he]; rfl)

/-- A conflict shows before anything is written. -/
lemma publish_conflict (hw : w.readonly = false) (hname : validName name = true)
    (hready : refusal world.shared.live.store = none)
    (hconf : conflicts (world.tags w.state) name (world.roots.root name)) :
    publish env w name world = (.error .conflict, world) := by
  have hwritable : onShared (writable w) world = (.ok (), world) := by simp [onShared, zoom, writable, hw]
  have hchecked : onShared (onRepo ready) world = (.ok (), world) := by rw [onShared_ready, hready]; rfl
  unfold publish
  rw [run_bind hwritable, run_bind (show failIf _ _ world = (.ok (), world) by simp [hname]),
    run_bind hchecked, run_bind (gets_apply ..), run_bind (gets_apply ..)]
  exact run_bind_error (by simp [hconf])

end

section

variable {expected : ID}

lemma drop_refused {e : Err} (he : refusal world.shared.live.store = some e) :
    drop env name expected world = (.error e, world) :=
  run_bind_error (by rw [onShared_ready, he]; rfl)

/-- A name with another root is not dropped. -/
lemma drop_conflict (hready : refusal world.shared.live.store = none)
    (hstale : world.roots.refs.find name ≠ some expected) : drop env name expected world =
      (.error (if (world.roots.refs.find name).isSome then .conflict else .unknownWorkspace), world) := by
  have hchecked : onShared (onRepo ready) world = (.ok (), world) := by rw [onShared_ready, hready]; rfl
  unfold drop
  rw [run_bind hchecked, run_bind (gets_apply ..)]
  cases hfind : world.roots.refs.find name with
  | none => rfl
  | some current =>
    rw [hfind] at hstale
    exact run_bind_error (by simp [show current ≠ expected from fun h => hstale (h ▸ rfl)])

end

/-- Publishing over a name conflicts unless the workspace has its present root. -/
lemma conflicts_iff {tag : Tag} (hroot : root ≠ []) : conflicts tag name root ↔ tag ≠ ⟨name, root⟩ := by
  obtain ⟨tagName, base⟩ := tag
  unfold conflicts
  simp only [ne_eq, Tag.mk.injEq, not_and]
  split
  next h => exact ⟨fun hne _ heq => hne heq.symm, fun hne heq => hne h.symm heq.symm⟩
  next h => exact ⟨fun _ heq => absurd heq.symm h, fun _ => hroot⟩

/-- Over any run of any number of clients on a new or an opened repository, with any calls of the store
failing, a publication replaces only the root that its workspace last took under the name, and a failure
leaves the roots alone. -/
theorem no_lost_update (env : Env) {start : World}
    (hstart : (∃ optimized fails short, create optimized fails short = .ok start) ∨ Opened start)
    (actions : List Action) :
    let world := (runFrom env start actions).1
    let history := (runFrom env start actions).2
    let refused := refusal world.shared.live.store
    (∀ w name root id world', world.roots.refs.find name = some root →
      publish env w name world = (.ok id, world') →
        lastRoot history w.state name = some root ∧ world'.roots.refs = world.roots.refs.insert name id) ∧
    (∀ w name root, world.roots.refs.find name = some root → lastTag history w.state ≠ ⟨name, root⟩ →
      publish env w name world =
        (.error (if w.readonly then .readOnly else refused.getD .conflict), world)) ∧
    (∀ name expected, world.roots.refs.find name ≠ some expected → drop env name expected world =
      (.error (refused.getD (if (world.roots.refs.find name).isSome then .conflict else .unknownWorkspace)), world)) ∧
    (∀ w name, w.readonly = true → publish env w name world = (.error .readOnly, world)) ∧
    (∀ e, refused = some e → (∀ name expected, drop env name expected world = (.error e, world)) ∧
      ∀ w name, w.readonly = false → validName name = true → publish env w name world = (.error e, world)) ∧
    (∀ w name e world', publish env w name world = (.error e, world') → world'.roots = world.roots) ∧
    (∀ name expected e world', drop env name expected world = (.error e, world') → world'.roots = world.roots) := by
  intro world history refused
  have hopened : Opened start := hstart.elim (fun ⟨_, _, _, h⟩ => opened_create h) id
  have htracked : Tracked (world, history) := tracked_run hopened actions
  refine ⟨?_, ?_, ?_, ?_, ?_, ?_, ?_⟩
  · intro w name root id world' hfind hpub
    obtain ⟨hname, -, hno, x, rfl⟩ := (publish_ends w name).ok hpub
    rw [root_eq_some hfind, conflicts_iff (htracked.roots name root hfind).2, not_not, htracked.tags w.state] at hno
    exact ⟨lastRoot_of_lastTag (fun h => by simp [h, validName] at hname) hno, rfl⟩
  · intro w name root hfind htag
    obtain ⟨hname, hroot⟩ := htracked.roots name root hfind
    have hconf : conflicts (world.tags w.state) name (world.roots.root name) := by
      rw [root_eq_some hfind, conflicts_iff hroot, htracked.tags w.state]
      exact htag
    cases hw : w.readonly with
    | true => exact publish_readOnly hw name
    | false =>
    cases hrefused : refused with
    | some e => exact publish_refused hw hname hrefused
    | none => exact publish_conflict hw hname hrefused hconf
  · intro name expected hstale
    cases hrefused : refused with
    | some e => exact drop_refused hrefused
    | none => exact drop_conflict hrefused hstale
  · exact fun w name hw => publish_readOnly hw name
  · exact fun e he => ⟨fun name expected => drop_refused he, fun w name hw hname => publish_refused hw hname he⟩
  · intro w name e world' hrun
    exact ((publish_ends w name).error hrun).roots
  · intro name expected e world' hrun
    exact ((drop_ends name expected).error hrun).roots

/-! ## Samples -/

/-- One client publishes twice; a second one checked out the first version. -/
def publishedTwice : List Action :=
  [.empty, .publish ⟨0, false⟩ (ascii "a"), .checkout (ascii "a"), .mkdir ⟨0, false⟩ (ascii "d"),
    .publish ⟨0, false⟩ (ascii "a")]

/-- The second client cannot overwrite what it has not seen. -/
theorem no_lost_update_publishedTwice :
    let t := runFrom sampleEnv (sampleWorld true) publishedTwice
    ∃ root, t.1.roots.refs.find (ascii "a") = some root ∧ lastTag t.2 1 ≠ ⟨ascii "a", root⟩ ∧
      publish sampleEnv ⟨1, false⟩ (ascii "a") t.1 = (.error .conflict, t.1) := by
  have hrules := no_lost_update sampleEnv (.inl ⟨true, _, _, create_sample true⟩) publishedTwice
  obtain ⟨t, ht⟩ : ∃ t, runFrom sampleEnv (sampleWorld true) publishedTwice = t := ⟨_, rfl⟩
  have hfind : t.1.roots.refs.find (ascii "a") = some (t.1.roots.root (ascii "a")) := by
    rw [← ht]
    decide +kernel
  have htag : lastTag t.2 1 ≠ ⟨ascii "a", t.1.roots.root (ascii "a")⟩ := by
    rw [← ht]
    decide +kernel
  have hready : (refusal t.1.shared.live.store).isNone = true := by
    rw [← ht]
    decide +kernel
  rw [ht] at hrules ⊢
  obtain ⟨-, hstale, -⟩ := hrules
  have hpublish := hstale ⟨1, false⟩ _ _ hfind htag
  rw [Option.isNone_iff_eq_none.mp hready] at hpublish
  exact ⟨_, hfind, htag, hpublish⟩

def sampleRoot : ID :=
  digest sampleEnv snapshotKind
    (Snapshot.marshal ⟨digest sampleEnv treeKind (Tree.marshal ⟨.zero, []⟩), []⟩)

def droppedOnce : List Action :=
  [.empty, .publish ⟨0, false⟩ (ascii "a"), .drop (ascii "a") sampleRoot]

/-- A stale drop or publication need not fail with the conflict error: the name may be gone, and a
read-only view never compares. -/
theorem stale_drop_unknown :
    let t := runFrom sampleEnv (sampleWorld true) droppedOnce
    let t' := runFrom sampleEnv (sampleWorld true) publishedTwice
    (lastRoot t.2 0 (ascii "a") = some sampleRoot ∧ t.1.roots.refs.find (ascii "a") = none ∧
      ∃ world', drop sampleEnv (ascii "a") sampleRoot t.1 = (.error .unknownWorkspace, world')) ∧
    ((t'.1.roots.refs.find (ascii "a")).isSome = true ∧
      ∃ world', publish sampleEnv ⟨1, true⟩ (ascii "a") t'.1 = (.error .readOnly, world')) := by
  intro t t'
  have hgone : t.1.roots.refs.find (ascii "a") = none := by decide +kernel
  have hready : (refusal t.1.shared.live.store).isNone = true := by decide +kernel
  have hdrop : drop sampleEnv (ascii "a") sampleRoot t.1 = _ :=
    drop_conflict (Option.isNone_iff_eq_none.mp hready) (by rw [hgone]; simp)
  rw [hgone] at hdrop
  have hview : publish sampleEnv ⟨1, true⟩ (ascii "a") t'.1 = (.error .readOnly, t'.1) := publish_readOnly rfl _
  exact ⟨⟨by decide +kernel, hgone, _, hdrop⟩, by decide +kernel, _, hview⟩

end Trex.Repo
