import Jyth.Lib.Run

/-!
# The host's request dispatcher

`guest-client/src/transport.rs`.  Requests queue up and are started on two lanes of
permits; each runs as a task of its own, which calls the transport, replies and then
gives its permit back.

The dispatcher is sequential between its await points, but tasks end on other threads
while it looks through its queue, so every look at a queued request is a step of its
own (`look`), and a permit may come back between two of them.
-/

namespace Jyth.GuestClient

open List Option Function

/-- `Command`, as far as the dispatcher looks at it. -/
inductive Kind
  | ordinary | processWait | vmShutdown
deriving DecidableEq

/-- The two lanes of permits. -/
inductive Lane
  | ordinary | wait
deriving DecidableEq

/-- A request; `id` tells requests apart. -/
structure Request where
  id : Nat
  kind : Kind
  deadline : Option Nat
deriving DecidableEq

def Request.lane (request : Request) : Lane :=
  if request.kind = .processWait then .wait else .ordinary

def Request.inLane (lane : Lane) (request : Request) : Bool :=
  request.kind ≠ .vmShutdown && request.lane = lane

/-- How far a task has come. -/
inductive Stage
  /-- Spawned, not polled yet. -/
  | spawned
  /-- The transport was called. -/
  | called
  /-- The reply was sent. -/
  | replied
deriving DecidableEq

/-- The future of `execute_request`. -/
structure Task where
  request : Request
  permit : Bool
  stage : Stage
deriving DecidableEq

def Task.holds (lane : Lane) (task : Task) : Bool := task.permit && task.request.lane = lane

/-- Where the loop of the dispatcher stands. -/
inductive Mode
  /-- About to call `start_ready`. -/
  | ready
  /-- In `next_start_index`, at this position. -/
  | scanning (index : Nat)
  /-- This position was chosen. -/
  | found (index : Nat)
  /-- In the `select!`. -/
  | selecting
  | stopped
deriving DecidableEq

/-- The dispatcher and, from `arrived` on, what has happened so far. -/
structure State where
  mode : Mode
  clock : Nat
  pending : List Request
  tasks : List Task
  available : Lane → Nat
  arrived : List Request
  started : List Request
  called : List Nat
  timedOut : List Nat
  shutDown : List Nat
  answered : List Nat

def maxInFlightHostRequests : Nat := 32

def maxInFlightProcessWaits : Nat := 32

def permitsOf : Lane → Nat
  | .ordinary => maxInFlightHostRequests
  | .wait => maxInFlightProcessWaits

def State.new : State where
  mode := .ready
  clock := 0
  pending := []
  tasks := []
  available := permitsOf
  arrived := []
  started := []
  called := []
  timedOut := []
  shutDown := []
  answered := []

/-! ## Steps -/

namespace State

variable (s : State)

def isExpired (now : Nat) (request : Request) : Bool := request.deadline.any (· ≤ now)

def expirePending (now : Nat) : State :=
  { s with
    clock := now
    pending := s.pending.filter fun request => !isExpired now request
    timedOut := s.timedOut ++ (s.pending.filter (isExpired now)).map (·.id) }

/-- The condition of `next_start_index`. -/
def startable (request : Request) : Bool :=
  0 < s.available request.lane || request.kind = .vmShutdown

/-- A request leaves the queue and its task is spawned. -/
def spawn (index : Nat) (request : Request) (permit : Bool) : State :=
  { s with
    mode := .scanning 0
    pending := s.pending.eraseIdx index
    tasks := s.tasks ++ [⟨request, permit, .spawned⟩]
    available := if permit then Function.update s.available request.lane
      (s.available request.lane - 1) else s.available
    started := s.started ++ [request] }

def tryStart (index : Nat) (request : Request) : State :=
  if 0 < s.available request.lane then s.spawn index request true
  else if request.kind = .vmShutdown then s.spawn index request false
  else { s with mode := .selecting, pending := request :: s.pending.eraseIdx index }

def setStage (k : Nat) (task : Task) (stage : Stage) : List Task :=
  s.tasks.set k { task with stage := stage }

def dropTask (k : Nat) (task : Task) : State :=
  { s with
    tasks := s.tasks.eraseIdx k
    available := if task.permit then Function.update s.available task.request.lane
      (s.available task.request.lane + 1) else s.available }

/-- The queue part of `stop`. -/
def drain : State :=
  { s with
    mode := .stopped
    pending := []
    shutDown := s.shutDown ++ s.pending.map (·.id) }

end State

/-- Tasks are named by their position. -/
inductive Event
  | startReady (now : Nat)
  | look
  | acquire
  | arrive (request : Request)
  | join
  | sleep (now : Nat)
  | stop
  | call (k : Nat)
  | reply (k : Nat)
  | release (k : Nat)
  /-- `JoinSet::shutdown` takes a task down. -/
  | abort (k : Nat)
deriving DecidableEq

def State.step (s : State) : Event → Option State
  | .startReady now =>
    if s.mode = .ready ∧ s.clock ≤ now then some { s.expirePending now with mode := .scanning 0 }
    else none
  | .look =>
    match s.mode with
    | .scanning index =>
      match s.pending[index]? with
      | some request =>
        some { s with mode := if s.startable request then .found index else .scanning (index + 1) }
      | none => some { s with mode := .selecting }
    | _ => none
  | .acquire =>
    match s.mode with
    | .found index => (s.pending[index]?).map (s.tryStart index)
    | _ => none
  | .arrive request =>
    if s.mode = .selecting ∧ request.id ∉ s.arrived.map (·.id) then
      some { s with
        mode := .ready
        pending := s.pending ++ [request]
        arrived := s.arrived ++ [request] }
    else none
  | .join => if s.mode = .selecting then some { s with mode := .ready } else none
  | .sleep now =>
    if s.mode = .selecting ∧ s.clock ≤ now then some { s.expirePending now with mode := .ready }
    else none
  | .stop => if s.mode = .selecting then some s.drain else none
  | .call k =>
    (s.tasks[k]?).bind fun task =>
      if task.stage = .spawned then
        some { s with tasks := s.setStage k task .called, called := s.called ++ [task.request.id] }
      else none
  | .reply k =>
    (s.tasks[k]?).bind fun task =>
      if task.stage = .called then
        some { s with
          tasks := s.setStage k task .replied
          answered := s.answered ++ [task.request.id] }
      else none
  | .release k =>
    (s.tasks[k]?).bind fun task =>
      if task.stage = .replied then some (s.dropTask k task) else none
  | .abort k =>
    (s.tasks[k]?).bind fun task =>
      if s.mode = .stopped then some (s.dropTask k task) else none

/-- The dispatcher takes the event. -/
def Next (s : State) (event : Event) (s' : State) : Prop := s.step event = some s'

/-! ## What a step can do -/

/-- The steps, with what they rest on. -/
inductive Change (s : State) : Event → State → Prop
  /-- `expire_pending`, from `start_ready` or the `select!`. -/
  | expire {event : Event} {mode : Mode} (now : Nat)
      (hbefore : s.mode = .ready ∨ s.mode = .selecting)
      (hafter : mode = .scanning 0 ∨ mode = .ready) :
      Change s event { s.expirePending now with mode := mode }
  | pass {index : Nat} {request : Request} (hmode : s.mode = .scanning index)
      (hget : s.pending[index]? = some request) (hnot : s.startable request = false) :
      Change s .look { s with mode := .scanning (index + 1) }
  | choose {index : Nat} {request : Request} (hmode : s.mode = .scanning index)
      (hget : s.pending[index]? = some request) (hstart : s.startable request = true) :
      Change s .look { s with mode := .found index }
  /-- The dispatcher goes to, or leaves, the `select!`. -/
  | move {event : Event} {mode : Mode} (hbefore : s.mode ≠ .stopped)
      (hafter : mode = .selecting ∨ mode = .ready) :
      Change s event { s with mode := mode }
  | start {index : Nat} {request : Request} (hmode : s.mode = .found index)
      (hget : s.pending[index]? = some request) :
      Change s .acquire (s.tryStart index request)
  | arrive {request : Request} (hmode : s.mode = .selecting)
      (hfresh : request.id ∉ s.arrived.map (·.id)) :
      Change s (.arrive request) { s with
        mode := .ready
        pending := s.pending ++ [request]
        arrived := s.arrived ++ [request] }
  | stop (hmode : s.mode = .selecting) : Change s .stop s.drain
  | call {k : Nat} {task : Task} (hget : s.tasks[k]? = some task) (hstage : task.stage = .spawned) :
      Change s (.call k) { s with
        tasks := s.setStage k task .called
        called := s.called ++ [task.request.id] }
  | reply {k : Nat} {task : Task} (hget : s.tasks[k]? = some task) (hstage : task.stage = .called) :
      Change s (.reply k) { s with
        tasks := s.setStage k task .replied
        answered := s.answered ++ [task.request.id] }
  | release {k : Nat} {task : Task} (hget : s.tasks[k]? = some task) :
      Change s (.release k) (s.dropTask k task)
  | abort {k : Nat} {task : Task} (hget : s.tasks[k]? = some task) (hmode : s.mode = .stopped) :
      Change s (.abort k) (s.dropTask k task)

variable {event : Event}

theorem change_of_next {s s' : State} (h : Next s event s') : Change s event s' := by
  cases event with
  | startReady now =>
    obtain ⟨hguard, heq⟩ := ite_none_right_eq_some.1 h
    cases heq
    exact .expire now (.inl hguard.1) (.inl rfl)
  | look =>
    unfold Next State.step at h
    cases hmode : s.mode with
    | scanning index =>
      simp only [hmode] at h
      cases hget : s.pending[index]? with
      | none =>
        rw [hget] at h
        cases h
        exact .move (by simp [hmode]) (.inl rfl)
      | some request =>
        rw [hget] at h
        cases h
        cases hstart : s.startable request with
        | true => exact .choose hmode hget hstart
        | false => exact .pass hmode hget hstart
    | _ => simp [hmode] at h
  | acquire =>
    unfold Next State.step at h
    cases hmode : s.mode with
    | found index =>
      simp only [hmode] at h
      obtain ⟨request, hget, rfl⟩ := map_eq_some_iff.1 h
      exact .start hmode hget
    | _ => simp [hmode] at h
  | arrive request =>
    obtain ⟨hguard, heq⟩ := ite_none_right_eq_some.1 h
    cases heq
    exact .arrive hguard.1 hguard.2
  | join =>
    obtain ⟨hguard, heq⟩ := ite_none_right_eq_some.1 h
    cases heq
    exact .move (by simp [hguard]) (.inr rfl)
  | sleep now =>
    obtain ⟨hguard, heq⟩ := ite_none_right_eq_some.1 h
    cases heq
    exact .expire now (.inr hguard.1) (.inr rfl)
  | stop =>
    obtain ⟨hguard, heq⟩ := ite_none_right_eq_some.1 h
    cases heq
    exact .stop hguard
  | call k =>
    obtain ⟨task, hget, hrest⟩ := bind_eq_some_iff.1 h
    obtain ⟨hguard, heq⟩ := ite_none_right_eq_some.1 hrest
    cases heq
    exact .call hget hguard
  | reply k =>
    obtain ⟨task, hget, hrest⟩ := bind_eq_some_iff.1 h
    obtain ⟨hguard, heq⟩ := ite_none_right_eq_some.1 hrest
    cases heq
    exact .reply hget hguard
  | release k =>
    obtain ⟨task, hget, hrest⟩ := bind_eq_some_iff.1 h
    obtain ⟨hguard, heq⟩ := ite_none_right_eq_some.1 hrest
    cases heq
    exact .release hget
  | abort k =>
    obtain ⟨task, hget, hrest⟩ := bind_eq_some_iff.1 h
    obtain ⟨hguard, heq⟩ := ite_none_right_eq_some.1 hrest
    cases heq
    exact .abort hget hguard

/-! ## Requests and tasks -/

/-- Every request that arrived is in one place, and is called at most once. -/
structure Tracked (s : State) : Prop where
  fresh : (s.arrived.map (·.id)).Nodup
  whereabouts : (s.pending.map (·.id) ++ s.started.map (·.id) ++ s.timedOut ++ s.shutDown).Perm
    (s.arrived.map (·.id))
  tasks : (s.tasks.map (·.request)).Sublist s.started
  calledOnce : s.called.Nodup
  calledStarted : ∀ i ∈ s.called, i ∈ s.started.map (·.id)
  uncalled : ∀ task ∈ s.tasks, task.stage = .spawned → task.request.id ∉ s.called
  answeredOnce : s.answered.Nodup
  answeredStarted : ∀ i ∈ s.answered, i ∈ s.started.map (·.id)
  unanswered : ∀ task ∈ s.tasks, task.stage ≠ .replied → task.request.id ∉ s.answered
  drained : s.mode = .stopped → s.pending = []

theorem nodup_snoc {α : Type} {l : List α} {a : α} (h : l.Nodup) (ha : a ∉ l) :
    (l ++ [a]).Nodup := by
  rw [← concat_eq_append]
  exact h.concat ha

variable {stage : Stage} {index : Nat} {s' : State}

namespace Tracked

variable {s : State}

theorem nodup (h : Tracked s) :
    (s.pending.map (·.id) ++ s.started.map (·.id) ++ s.timedOut ++ s.shutDown).Nodup :=
  h.whereabouts.nodup_iff.2 h.fresh

theorem started_nodup (h : Tracked s) : (s.started.map (·.id)).Nodup := by
  have hall := h.nodup
  rw [append_assoc, append_assoc] at hall
  exact (nodup_append.1 (nodup_append.1 hall).2.1).1

theorem task_ids_nodup (h : Tracked s) : (s.tasks.map (·.request.id)).Nodup := by
  have hsub := h.tasks.map (·.id)
  rw [List.map_map] at hsub
  exact hsub.nodup h.started_nodup

variable {task : Task} {k : Nat} {request : Request}

section

variable (h : Tracked s)
include h

theorem task_started (hmem : task ∈ s.tasks) : task.request.id ∈ s.started.map (·.id) :=
  mem_map_of_mem (h.tasks.subset (mem_map_of_mem hmem))

theorem mem_setStage {other : Task}
    (hget : s.tasks[k]? = some task) (hmem : other ∈ s.setStage k task stage) :
    other = { task with stage := stage } ∨
      other ∈ s.tasks ∧ other.request.id ≠ task.request.id := by
  obtain ⟨j, hj⟩ := mem_iff_getElem?.1 hmem
  rw [State.setStage, getElem?_set] at hj
  split at hj
  · split at hj
    · exact .inl (some.inj hj).symm
    · cases hj
  · next hne =>
    refine .inr ⟨mem_of_getElem? hj, fun hid => hne ?_⟩
    have hinj := h.task_ids_nodup
    rw [nodup_iff_injective_get] at hinj
    obtain ⟨hklt, hk⟩ := List.getElem?_eq_some_iff.1 hget
    obtain ⟨hjlt, hj'⟩ := List.getElem?_eq_some_iff.1 hj
    have heq := @hinj ⟨k, by simpa using hklt⟩ ⟨j, by simpa using hjlt⟩ (by simp [hk, hj', hid])
    simpa using heq

theorem expire (now : Nat) {mode : Mode} (hmode : mode ≠ .stopped) :
    Tracked { s.expirePending now with mode := mode } where
  fresh := h.fresh
  whereabouts := by
    have hsplit := (filter_append_perm (State.isExpired now) s.pending).map (·.id)
    rw [map_append] at hsplit
    have hold := h.whereabouts
    rw [perm_iff_count] at hsplit hold ⊢
    intro i
    have h₁ := hsplit i
    have h₂ := hold i
    simp only [State.expirePending, count_append] at h₁ h₂ ⊢
    omega
  tasks := h.tasks
  calledOnce := h.calledOnce
  calledStarted := h.calledStarted
  uncalled := h.uncalled
  answeredOnce := h.answeredOnce
  answeredStarted := h.answeredStarted
  unanswered := h.unanswered
  drained hstopped := absurd hstopped hmode

theorem move {mode : Mode} (hmode : mode ≠ .stopped) : Tracked { s with mode := mode } :=
  { h with drained := fun hstopped => absurd hstopped hmode }

theorem spawn (hget : s.pending[index]? = some request) (permit : Bool) :
    Tracked (s.spawn index request permit) := by
  have hperm : s.pending.Perm (request :: s.pending.eraseIdx index) := by
    obtain ⟨hlt, heq⟩ := List.getElem?_eq_some_iff.1 hget
    rw [← heq]
    exact (getElem_cons_eraseIdx_perm hlt).symm
  have hqueued : request.id ∈ s.pending.map (·.id) := mem_map_of_mem (mem_of_getElem? hget)
  have hnew : request.id ∉ s.started.map (·.id) := by
    intro hmem
    have hall := h.nodup
    rw [append_assoc, append_assoc] at hall
    exact (nodup_append.1 hall).2.2 _ hqueued _ (mem_append_left _ hmem) rfl
  have hgrow : ∀ i ∈ s.started.map (·.id), i ∈ (s.started ++ [request]).map (·.id) := by
    intro i hi
    rw [map_append]
    exact mem_append_left _ hi
  refine ⟨h.fresh, ?_, ?_, h.calledOnce, fun i hi => hgrow i (h.calledStarted i hi), ?_,
    h.answeredOnce, fun i hi => hgrow i (h.answeredStarted i hi), ?_, nofun⟩
  · have hold := h.whereabouts
    have hmap := hperm.map (·.id)
    rw [perm_iff_count] at hold hmap ⊢
    intro i
    have h₁ := hold i
    have h₂ := hmap i
    simp only [State.spawn, map_append, map_cons, map_nil, count_append,
      count_cons, count_nil] at h₁ h₂ ⊢
    omega
  · simp only [State.spawn, map_append, map_cons, map_nil]
    exact h.tasks.append (List.Sublist.refl _)
  · intro task hmem hstage
    rcases mem_append.1 hmem with hold | hlast
    · exact h.uncalled task hold hstage
    · rw [mem_singleton.1 hlast]
      exact fun hcalled => hnew (h.calledStarted _ hcalled)
  · intro task hmem hstage
    rcases mem_append.1 hmem with hold | hlast
    · exact h.unanswered task hold hstage
    · rw [mem_singleton.1 hlast]
      exact fun hanswered => hnew (h.answeredStarted _ hanswered)

theorem tryStart
    (hget : s.pending[index]? = some request) : Tracked (s.tryStart index request) := by
  unfold State.tryStart
  split
  · exact h.spawn hget true
  split
  · exact h.spawn hget false
  · obtain ⟨hlt, heq⟩ := List.getElem?_eq_some_iff.1 hget
    have hperm : (request :: s.pending.eraseIdx index).Perm s.pending := by
      rw [← heq]
      exact getElem_cons_eraseIdx_perm hlt
    have hids := hperm.map fun request => request.id
    refine { h with whereabouts := ?_, drained := nofun }
    exact ((hids.append_right _).append_right _ |>.append_right _).trans h.whereabouts

theorem arrive (hfresh : request.id ∉ s.arrived.map (·.id)) : Tracked { s with
      mode := .ready, pending := s.pending ++ [request], arrived := s.arrived ++ [request] } := by
  refine { h with fresh := ?_, whereabouts := ?_, drained := nofun }
  · rw [map_append]
    exact nodup_snoc h.fresh hfresh
  · have hold := h.whereabouts
    rw [perm_iff_count] at hold ⊢
    intro i
    have h₁ := hold i
    simp only [map_append, map_cons, map_nil, count_append] at h₁ ⊢
    omega

theorem drain : Tracked s.drain := by
  refine { h with whereabouts := ?_, drained := fun _ => rfl }
  have hold := h.whereabouts
  rw [perm_iff_count] at hold ⊢
  intro i
  have h₁ := hold i
  simp only [State.drain, map_nil, nil_append, count_append] at h₁ ⊢
  omega

end

theorem requests_setStage (hget : s.tasks[k]? = some task) :
    (s.setStage k task stage).map (·.request) = s.tasks.map (·.request) := by
  have hsame : (s.tasks.map (·.request))[k]? = some task.request := by simp [hget]
  obtain ⟨hlt, heq⟩ := List.getElem?_eq_some_iff.1 hsame
  rw [State.setStage, map_set, ← heq, set_getElem_self]

variable (h : Tracked s)
include h

theorem call (hget : s.tasks[k]? = some task) (hstage : task.stage = .spawned) : Tracked { s with
      tasks := s.setStage k task .called
      called := s.called ++ [task.request.id] } := by
  have hmem := mem_of_getElem? hget
  have hnew := h.uncalled task hmem hstage
  refine { h with tasks := ?_, calledOnce := ?_, calledStarted := ?_, uncalled := ?_,
                  unanswered := ?_ }
  · rw [requests_setStage hget]
    exact h.tasks
  · exact nodup_snoc h.calledOnce hnew
  · intro i hi
    rcases mem_append.1 hi with hold | hlast
    · exact h.calledStarted i hold
    · rw [mem_singleton.1 hlast]
      exact h.task_started hmem
  · intro other hother hspawned
    rcases h.mem_setStage hget hother with rfl | ⟨hold, hne⟩
    · cases hspawned
    · rw [mem_append, mem_singleton, not_or]
      exact ⟨h.uncalled other hold hspawned, hne⟩
  · intro other hother hreplied
    rcases h.mem_setStage hget hother with rfl | ⟨hold, -⟩
    · exact h.unanswered task hmem (by simp [hstage])
    · exact h.unanswered other hold hreplied

theorem reply (hget : s.tasks[k]? = some task) (hstage : task.stage = .called) : Tracked { s with
      tasks := s.setStage k task .replied
      answered := s.answered ++ [task.request.id] } := by
  have hmem := mem_of_getElem? hget
  have hnew := h.unanswered task hmem (by simp [hstage])
  refine { h with tasks := ?_, uncalled := ?_, answeredOnce := ?_, answeredStarted := ?_,
                  unanswered := ?_ }
  · rw [requests_setStage hget]
    exact h.tasks
  · intro other hother hspawned
    rcases h.mem_setStage hget hother with rfl | ⟨hold, -⟩
    · cases hspawned
    · exact h.uncalled other hold hspawned
  · exact nodup_snoc h.answeredOnce hnew
  · intro i hi
    rcases mem_append.1 hi with hold | hlast
    · exact h.answeredStarted i hold
    · rw [mem_singleton.1 hlast]
      exact h.task_started hmem
  · intro other hother hreplied
    rcases h.mem_setStage hget hother with rfl | ⟨hold, hne⟩
    · exact absurd rfl hreplied
    · rw [mem_append, mem_singleton, not_or]
      exact ⟨h.unanswered other hold hreplied, hne⟩

theorem dropTask (k : Nat) (task : Task) : Tracked (s.dropTask k task) := by
  have hsub : (s.tasks.eraseIdx k).Sublist s.tasks := eraseIdx_sublist _ _
  exact { h with
    tasks := (hsub.map _).trans h.tasks
    uncalled := fun other hother => h.uncalled other (hsub.subset hother)
    unanswered := fun other hother => h.unanswered other (hsub.subset hother) }

theorem step (hstep : Next s event s') : Tracked s' := by
  cases change_of_next hstep with
  | expire now _ hafter => exact h.expire now (by rcases hafter with rfl | rfl <;> nofun)
  | pass | choose => exact h.move nofun
  | move _ hafter => exact h.move (by rcases hafter with rfl | rfl <;> nofun)
  | start _ hget => exact h.tryStart hget
  | arrive _ hfresh => exact h.arrive hfresh
  | stop => exact h.drain
  | call hget hstage => exact h.call hget hstage
  | reply hget hstage => exact h.reply hget hstage
  | release | abort => exact h.dropTask _ _

end Tracked

/-! ## Permits -/

/-- Every permit of a lane is free or held by a task, and only `VMShutdown` runs
without one. -/
structure Metered (s : State) : Prop where
  permits : ∀ lane, s.available lane + s.tasks.countP (·.holds lane) = permitsOf lane
  exempt : ∀ task ∈ s.tasks, task.permit = false → task.request.kind = .vmShutdown

variable {request : Request} {task : Task} {k : Nat}

namespace Metered

variable {s : State}

variable (h : Metered s)
include h

theorem spawn {permit : Bool} (hfree : permit = true → 0 < s.available request.lane)
    (hexempt : permit = false → request.kind = .vmShutdown) :
    Metered (s.spawn index request permit) where
  permits lane := by
    have hold := h.permits lane
    simp only [State.spawn, countP_append, countP_singleton, Task.holds]
    cases permit with
    | false => simpa [Task.holds] using hold
    | true =>
      have hpos := hfree rfl
      by_cases hlane : request.lane = lane
      · subst hlane
        simp only [Task.holds] at hold
        simp
        omega
      · simp [update_of_ne (Ne.symm hlane), hlane]
        simpa [Task.holds] using hold
  exempt task hmem hpermit := by
    rcases mem_append.1 hmem with hold | hlast
    · exact h.exempt task hold hpermit
    · cases mem_singleton.1 hlast
      exact hexempt hpermit

theorem setStage
    (hget : s.tasks[k]? = some task) : Metered { s with tasks := s.setStage k task stage } := by
  obtain ⟨hlt, heq⟩ := List.getElem?_eq_some_iff.1 hget
  refine ⟨fun lane => ?_, fun other hmem hpermit => ?_⟩
  · have hold := h.permits lane
    have hpos : s.tasks[k].holds lane = true → 0 < s.tasks.countP (·.holds lane) := fun hholds =>
      countP_pos_iff.2 ⟨_, getElem_mem hlt, hholds⟩
    rw [heq] at hpos
    simp only [State.setStage, countP_set hlt, heq]
    have hsame : Task.holds lane { task with stage := stage } = task.holds lane := rfl
    rw [hsame]
    by_cases hholds : task.holds lane = true
    · have hsome := hpos hholds
      simp only [if_pos hholds]
      omega
    · simp only [if_neg hholds]
      exact hold
  · rcases mem_or_eq_of_mem_set hmem with hold | rfl
    · exact h.exempt other hold hpermit
    · exact h.exempt task (mem_of_getElem? hget) hpermit

theorem dropTask (hget : s.tasks[k]? = some task) : Metered (s.dropTask k task) := by
  obtain ⟨hlt, heq⟩ := List.getElem?_eq_some_iff.1 hget
  have hperm : (task :: s.tasks.eraseIdx k).Perm s.tasks := by
    rw [← heq]
    exact getElem_cons_eraseIdx_perm hlt
  refine ⟨fun lane => ?_, fun other hmem => h.exempt other (mem_of_mem_eraseIdx hmem)⟩
  have hold := h.permits lane
  rw [← hperm.countP_eq, countP_cons] at hold
  simp only [State.dropTask]
  cases hpermit : task.permit with
  | false =>
    simp [Task.holds, hpermit] at hold ⊢
    exact hold
  | true =>
    by_cases hlane : task.request.lane = lane
    · subst hlane
      simp [Task.holds, hpermit] at hold ⊢
      omega
    · simp [Task.holds, hpermit, hlane, update_of_ne (Ne.symm hlane)] at hold ⊢
      exact hold

theorem step (hstep : Next s event s') : Metered s' := by
  cases change_of_next hstep with
  | start _ hget =>
    unfold State.tryStart
    split
    · next hfree => exact h.spawn (fun _ => hfree) nofun
    split
    · next hkind => exact h.spawn nofun fun _ => hkind
    · exact ⟨h.permits, h.exempt⟩
  | call hget | reply hget => exact ⟨(h.setStage hget).permits, (h.setStage hget).exempt⟩
  | release hget | abort hget => exact h.dropTask hget
  | _ => exact ⟨h.permits, h.exempt⟩

end Metered

/-! ## Order within a lane -/

/-- Requests of a lane start in the order of arrival, and what the look through the
queue has found so far still holds. -/
structure Ordered (s : State) : Prop where
  lanes : ∀ lane, ((s.started ++ s.pending).filter (·.inLane lane)).Sublist s.arrived
  passed : ∀ index, s.mode = .scanning index →
    ∀ request ∈ s.pending.take index, s.startable request = false
  chosen : ∀ index, s.mode = .found index → ∀ request, s.pending[index]? = some request →
    request.kind ≠ .vmShutdown → 0 < s.available request.lane ∧
      ∀ other ∈ s.pending.take index, other.inLane request.lane = false

def Mode.passed : Mode → Nat
  | .scanning index => index
  | _ => 0

/-- No permit comes back to a lane while the look through the queue is past a request
of that lane. -/
def Undisturbed (s : State) : Event → Prop
  | .release k => ∀ task ∈ s.tasks[k]?, task.permit = true →
      ∀ request ∈ s.pending.take s.mode.passed, request.inLane task.request.lane = false
  | _ => True

instance (s : State) (event : Event) : Decidable (Undisturbed s event) := by
  cases event <;> unfold Undisturbed <;> infer_instance

theorem State.startable_eq_false {s : State} : s.startable request = false ↔
      s.available request.lane = 0 ∧ request.kind ≠ .vmShutdown := by
  simp [State.startable]

theorem Request.inLane_iff {lane : Lane} :
    request.inLane lane = true ↔ request.kind ≠ .vmShutdown ∧ request.lane = lane := by
  simp [Request.inLane]

namespace Ordered

variable {s : State}

theorem resting {t : State} (hlanes : ∀ lane,
    ((t.started ++ t.pending).filter (·.inLane lane)).Sublist t.arrived)
    (hscan : ∀ index, t.mode = .scanning index → index = 0) (hfound : ∀ index, t.mode ≠ .found index) :
    Ordered t where
  lanes := hlanes
  passed index hmode request hmem := by
    rw [hscan index hmode, take_zero] at hmem
    cases hmem
  chosen index hmode := absurd hmode (hfound index)

theorem shrink (h : Ordered s) {queue : List Request} (hsub : queue.Sublist s.pending)
    (lane : Lane) : ((s.started ++ queue).filter (·.inLane lane)).Sublist s.arrived :=
  (((List.Sublist.refl _).append hsub).filter _).trans (h.lanes lane)

variable {index : Nat} {request : Request}

section

variable (h : Ordered s)
include h

theorem take (hget : s.pending[index]? = some request) (hfirst : request.kind ≠ .vmShutdown →
      ∀ other ∈ s.pending.take index, other.inLane request.lane = false) (lane : Lane) :
    ((s.started ++ [request] ++ s.pending.eraseIdx index).filter (·.inLane lane)).Sublist
      s.arrived := by
  obtain ⟨hlt, heq⟩ := List.getElem?_eq_some_iff.1 hget
  have hsplit : s.pending = s.pending.take index ++ request :: s.pending.drop (index + 1) := by
    rw [← heq, ← drop_eq_getElem_cons hlt, take_append_drop]
  have hold := h.lanes lane
  rw [hsplit] at hold
  rw [eraseIdx_eq_take_drop_succ]
  by_cases hin : request.inLane lane = true
  · obtain ⟨hkind, rfl⟩ := Request.inLane_iff.1 hin
    have hnone : (s.pending.take index).filter (·.inLane request.lane) = [] :=
      filter_eq_nil_iff.2 fun other hother => by simp [hfirst hkind other hother]
    simpa [filter_append, filter_cons, hnone] using hold
  · simpa [filter_append, filter_cons, hin] using hold

theorem tryStart (hmode : s.mode = .found index)
    (hget : s.pending[index]? = some request) : Ordered (s.tryStart index request) := by
  have hfirst := fun hkind => (h.chosen index hmode request hget hkind).2
  unfold State.tryStart
  split
  · exact resting (h.take hget hfirst) (by simp [State.spawn]) (by simp [State.spawn])
  split
  · exact resting (h.take hget hfirst) (by simp [State.spawn]) (by simp [State.spawn])
  · next hnone hkind => exact absurd (h.chosen index hmode request hget hkind).1 hnone

theorem pass (hmode : s.mode = .scanning index)
    (hget : s.pending[index]? = some request) (hnot : s.startable request = false) :
    Ordered { s with mode := .scanning (index + 1) } where
  lanes := h.lanes
  passed next hnext other hother := by
    cases hnext
    rw [take_add_one, hget, mem_append] at hother
    rcases hother with hbefore | hlast
    · exact h.passed index hmode other hbefore
    · cases mem_singleton.1 hlast
      exact hnot
  chosen := nofun

theorem choose (hmode : s.mode = .scanning index) (hget : s.pending[index]? = some request)
    (hstart : s.startable request = true) : Ordered { s with mode := .found index } where
  lanes := h.lanes
  passed := nofun
  chosen found hfound other hother hkind := by
    cases hfound
    cases hget.symm.trans hother
    have hpos : 0 < s.available request.lane := by simpa [State.startable, hkind] using hstart
    refine ⟨hpos, fun other hmem => ?_⟩
    have hnone := State.startable_eq_false.1 (h.passed index hmode other hmem)
    rw [Bool.eq_false_iff]
    intro hin
    rw [(Request.inLane_iff.1 hin).2] at hnone
    omega

theorem arrive (request : Request) : Ordered { s with
      mode := .ready, pending := s.pending ++ [request], arrived := s.arrived ++ [request] } := by
  refine resting (fun lane => ?_) nofun nofun
  show ((s.started ++ (s.pending ++ [request])).filter _).Sublist _
  rw [← append_assoc, filter_append]
  exact (h.lanes lane).append filter_sublist

theorem work {t : State} (hmode : t.mode = s.mode) (hpending : t.pending = s.pending)
    (hstarted : t.started = s.started) (harrived : t.arrived = s.arrived)
    (havailable : t.available = s.available) : Ordered t where
  lanes := by
    rw [hstarted, hpending, harrived]
    exact h.lanes
  passed := by
    unfold State.startable
    rw [hmode, hpending, havailable]
    exact h.passed
  chosen := by
    rw [hmode, hpending, havailable]
    exact h.chosen

theorem dropTask (hcalm : task.permit = true →
      ∀ request ∈ s.pending.take s.mode.passed, request.inLane task.request.lane = false) :
    Ordered (s.dropTask k task) := by
  cases hpermit : task.permit with
  | false => exact h.work rfl rfl rfl rfl (by simp [State.dropTask, hpermit])
  | true =>
    refine ⟨h.lanes, fun index hmode request hmem => ?_, fun index hmode request hget hkind => ?_⟩
    · obtain ⟨hnone, hkind⟩ := State.startable_eq_false.1 (h.passed index hmode request hmem)
      refine State.startable_eq_false.2 ⟨?_, hkind⟩
      have hne : request.lane ≠ task.request.lane := by
        intro heq
        have hpassed : request ∈ s.pending.take s.mode.passed := by
          rw [show s.mode = .scanning index from hmode]
          exact hmem
        have hin := hcalm hpermit request hpassed
        rw [Request.inLane_iff.2 ⟨hkind, heq⟩] at hin
        cases hin
      simpa [State.dropTask, hpermit, update_of_ne hne] using hnone
    · obtain ⟨hpos, hfirst⟩ := h.chosen index hmode request hget hkind
      refine ⟨?_, hfirst⟩
      by_cases heq : request.lane = task.request.lane
      · simp [State.dropTask, hpermit, heq]
      · simpa [State.dropTask, hpermit, update_of_ne heq] using hpos

theorem step (hstep : Next s event s') (hcalm : Undisturbed s event) : Ordered s' := by
  cases change_of_next hstep with
  | expire now _ hafter =>
    refine resting (h.shrink filter_sublist) ?_ ?_ <;> rcases hafter with rfl | rfl <;> simp
  | pass hmode hget hnot => exact h.pass hmode hget hnot
  | choose hmode hget hstart => exact h.choose hmode hget hstart
  | move _ hafter => refine resting h.lanes ?_ ?_ <;> rcases hafter with rfl | rfl <;> simp
  | start hmode hget => exact h.tryStart hmode hget
  | arrive => exact h.arrive _
  | stop => exact resting (h.shrink (nil_sublist _)) nofun nofun
  | call | reply => exact h.work rfl rfl rfl rfl rfl
  | release hget => exact h.dropTask (hcalm _ hget)
  | abort _ hmode => exact h.dropTask fun _ request hmem => by simp [hmode, Mode.passed] at hmem

end

end Ordered

/-! ## Whole runs -/

/-- Every request is handled once and in time, on the permits there are. -/
structure Handled (s : State) : Prop where
  calledOnce : s.called.Nodup
  calledInTime : ∀ i ∈ s.called, i ∉ s.timedOut
  repliedOnce : (s.timedOut ++ s.shutDown ++ s.answered).Nodup
  bounded : ∀ lane, s.tasks.countP (·.holds lane) ≤ permitsOf lane
  exempt : ∀ task ∈ s.tasks, task.permit = false → task.request.kind = .vmShutdown
  /-- After `stop` every request was started, timed out or answered with `Shutdown`. -/
  settled : s.mode = .stopped → s.pending = [] ∧
    (s.started.map (·.id) ++ s.timedOut ++ s.shutDown).Perm (s.arrived.map (·.id))

theorem Tracked.handled {s : State} (h : Tracked s) (h' : Metered s) : Handled s := by
  obtain ⟨hfront, -, hshut⟩ := nodup_append.1 h.nodup
  obtain ⟨hearly, htimed, hlate⟩ := nodup_append.1 hfront
  have hstarted : ∀ i ∈ s.started.map (·.id), i ∉ s.timedOut ∧ i ∉ s.shutDown := by
    intro i hi
    have hmem := mem_append_right (s.pending.map (·.id)) hi
    exact ⟨fun hin => hlate i hmem i hin rfl, fun hin => hshut i (mem_append_left _ hmem) i hin rfl⟩
  refine ⟨h.calledOnce, fun i hi => (hstarted i (h.calledStarted i hi)).1, ?_, fun lane => ?_,
    h'.exempt, fun hstopped => ⟨h.drained hstopped, ?_⟩⟩
  · have hqueue : (s.timedOut ++ s.shutDown).Nodup := by
      have hall := h.nodup
      rw [append_assoc] at hall
      exact (nodup_append.1 hall).2.1
    refine nodup_append.2 ⟨hqueue, h.answeredOnce, fun i hi j hj => ?_⟩
    rintro rfl
    obtain ⟨hnot, hnot'⟩ := hstarted i (h.answeredStarted i hj)
    exact (mem_append.1 hi).elim hnot hnot'
  · have hcount := h'.permits lane
    omega
  · have hall := h.whereabouts
    rwa [h.drained hstopped, map_nil, nil_append] at hall

theorem tracked_new : Tracked State.new where
  fresh := nodup_nil
  whereabouts := List.Perm.refl _
  tasks := List.Sublist.refl _
  calledOnce := nodup_nil
  calledStarted := nofun
  uncalled := nofun
  answeredOnce := nodup_nil
  answeredStarted := nofun
  unanswered := nofun
  drained := nofun

theorem metered_new : Metered State.new := ⟨fun _ => rfl, nofun⟩

theorem ordered_new : Ordered State.new :=
  Ordered.resting (fun _ => List.Sublist.refl _) nofun nofun

theorem Change.stopped {s s' : State} (h : Change s event s')
    (hmode : s.mode = .stopped) : s'.mode = .stopped ∧ s'.started = s.started := by
  cases h with
  | expire now hbefore => rcases hbefore with hready | hselecting <;> simp_all
  | pass hscan | choose hscan | start hfound | arrive hselecting | stop hselecting => simp_all
  | move hbefore => exact absurd hmode hbefore
  | call | reply | release | abort => exact ⟨hmode, rfl⟩

theorem stopped_of_trace {s t : State} {later : List Event} (h : Run.Trace Next s later t)
    (hmode : s.mode = .stopped) : t.mode = .stopped ∧ t.started = s.started := by
  refine h.invariant (I := fun _ t => t.mode = .stopped ∧ t.started = s.started) ⟨hmode, rfl⟩ ?_
  intro _ t event t' ih hstep
  obtain ⟨hstopped, hsame⟩ := (change_of_next hstep).stopped ih.1
  exact ⟨hstopped, hsame.trans ih.2⟩

/-- In every run requests are handled once and in time, and a stopped dispatcher
starts nothing; requests of a lane start in the order of arrival if no permit comes
back to the lane while the look through the queue is past one of its requests. -/
theorem dispatcher_serves {events later : List Event} {s t : State}
    (h : Run.Trace Next State.new events s) (hlater : Run.Trace Next s later t) :
    Handled s ∧ (s.mode = .stopped → t.mode = .stopped ∧ t.started = s.started) ∧
      (Run.Trace (fun s event s' => Next s event s' ∧ Undisturbed s event) State.new events s →
        ∀ lane, (s.started.filter (·.inLane lane)).Sublist s.arrived) := by
  have htracked : Tracked s ∧ Metered s :=
    h.invariant (I := fun _ s => Tracked s ∧ Metered s) ⟨tracked_new, metered_new⟩
      fun _ _ _ _ ih hstep => ⟨ih.1.step hstep, ih.2.step hstep⟩
  refine ⟨htracked.1.handled htracked.2, stopped_of_trace hlater, fun hcalm lane => ?_⟩
  have hordered : Ordered s :=
    hcalm.invariant (I := fun _ s => Ordered s) ordered_new
      fun _ _ _ _ ih hstep => ih.step hstep.1 hstep.2
  exact ((sublist_append_left _ _).filter _).trans (hordered.lanes lane)

def oneRequest : List Event :=
  [.startReady 0, .look, .arrive ⟨0, .ordinary, none⟩, .startReady 1, .look, .acquire, .look,
    .call 0, .reply 0, .release 0, .stop]

theorem oneRequest_served : ∃ s, Run.Trace Next State.new oneRequest s ∧ Handled s ∧
    ∀ lane, (s.started.filter (·.inLane lane)).Sublist s.arrived := by
  have hrun : (oneRequest.foldlM (fun s event => if Undisturbed s event then s.step event else none)
      State.new).isSome = true := by decide
  obtain ⟨s, hs⟩ := isSome_iff_exists.1 hrun
  have hcalm := (Run.Trace.of_foldlM hs).mono fun _ _ _ hstep =>
    (ite_none_right_eq_some.1 hstep).symm
  have htrace : Run.Trace Next State.new oneRequest s := hcalm.mono fun _ _ _ hstep => hstep.1
  obtain ⟨hhandled, -, horder⟩ := dispatcher_serves htrace .nil
  exact ⟨s, htrace, hhandled, horder hcalm⟩

def startAtOnce (id : Nat) : List Event :=
  [.arrive ⟨id, .ordinary, none⟩, .startReady 0, .look, .acquire, .look]

/-- With the lane full, two requests are queued; a permit comes back after the first of
them was looked at and before the second is. -/
def betweenLooks : List Event :=
  [.arrive ⟨32, .ordinary, none⟩, .startReady 0, .look, .look,
    .arrive ⟨33, .ordinary, none⟩, .call 0, .reply 0,
    .startReady 0, .look, .release 0, .look, .acquire, .look, .look,
    .call 0, .reply 0, .release 0, .join, .startReady 0, .look, .acquire]

def overtaking : List Event :=
  .startReady 0 :: .look :: ((List.range 32).flatMap startAtOnce ++ betweenLooks)

theorem later_request_overtakes : ∃ s, Run.Trace Next State.new overtaking s ∧
    ¬ (s.started.filter (·.inLane .ordinary)).Sublist s.arrived := by
  have hrun : (overtaking.foldlM State.step State.new).any (fun s =>
      ! (s.started.filter (·.inLane .ordinary)).isSublist s.arrived) = true := by
    decide +kernel
  obtain ⟨s, hs, hnot⟩ := (any_eq_true _ _).1 hrun
  refine ⟨s, Run.Trace.of_foldlM hs, fun hsub => ?_⟩
  rw [isSublist_iff_sublist.2 hsub] at hnot
  cases hnot

end Jyth.GuestClient
