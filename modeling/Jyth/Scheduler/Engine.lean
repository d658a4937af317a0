import Jyth.Lib.Run

/-!
# The scheduler engine

`scheduler/src/lib.rs`.  Each action is a job: it waits for a permit, then for
its trigger or a cancellation, publishes `Running`, calls the action, and
publishes how that ended.  A job may panic, and after `abort_all` it may be
dropped at any of its await points; its permit comes back in either case, but
nobody publishes a state for it until the coordinator finishes.

A job is a machine of its own (`Phase.next`); the engine interleaves the jobs
with each other, with `cancel`, and with the coordinator (`step`).
-/

namespace Jyth.Scheduler

open Run Tally List

structure ActionResult where
  succeeded : Bool
  message : Option String
deriving DecidableEq

/-- The recorded state of a task. -/
inductive TaskState
  | pending
  | running
  | succeeded (result : ActionResult)
  | failed (result : ActionResult)
  | timedOut
  | cancelled
deriving DecidableEq

namespace TaskState

def terminal : TaskState → Bool
  | pending | running => false
  | _ => true

def isRunning : TaskState → Bool
  | running => true
  | _ => false

end TaskState

/-! ## One job -/

/-- Where the job of a task stands. -/
inductive Phase
  /-- spawned, no permit yet -/
  | queued
  /-- in the `select!` on trigger and cancellation -/
  | waiting
  /-- about to publish `Cancelled` -/
  | skipping
  /-- about to publish `Running` -/
  | triggered
  /-- about to call the action -/
  | calling
  /-- the action's future is polled -/
  | running
  /-- the deadline has passed; the future may have its grace -/
  | expiring
  /-- about to publish the outcome -/
  | returned (result : ActionResult)
  /-- about to publish `TimedOut` -/
  | expired
  /-- everything is published, the permit is still held -/
  | leaving
  /-- joined, or about to be -/
  | gone
deriving DecidableEq

/-- What happens to one job. -/
inductive JobEvent
  | acquire
  | resolve (value : Bool)
  | seeCancel
  | publish
  | invoke
  | complete (result : ActionResult)
  | expire
  | graceOver
  | leave
  | panic
  | abort
deriving DecidableEq

namespace Phase

def holdsPermit : Phase → Bool
  | queued | gone => false
  | _ => true

/-- The task can be dropped here: it is at an `await`. -/
def awaits : Phase → Bool
  | calling | leaving | gone => false
  | _ => true

/-- What `run_action` does next.  Foreign code, which may panic, is polled while
the job waits for its trigger and while its action runs. -/
def next : Phase → JobEvent → Option Phase
  | queued, .acquire => some waiting
  | waiting, .resolve true => some triggered
  | waiting, .resolve false => some skipping
  | waiting, .seeCancel => some skipping
  | skipping, .publish => some leaving
  | triggered, .publish => some calling
  | calling, .invoke => some running
  | running, .complete result => some (returned result)
  | running, .expire => some expiring
  | expiring, .graceOver => some expired
  | returned _, .publish => some leaving
  | expired, .publish => some leaving
  | leaving, .leave => some gone
  | waiting, .panic => some gone
  | running, .panic => some gone
  | expiring, .panic => some gone
  | phase, .abort => if phase.awaits then some gone else none
  | _, _ => none

def outcome : Phase → Option TaskState
  | skipping => some .cancelled
  | triggered => some .running
  | returned result => some (if result.succeeded then .succeeded result else .failed result)
  | expired => some .timedOut
  | _ => none

end Phase

def write (phase : Phase) (event : JobEvent) (task : TaskState) : TaskState :=
  if event = .publish then phase.outcome.getD task else task

/-! ## The engine -/

variable {n : Nat}

/-- The configuration of a run of `n` actions.  Durations only matter by their
presence: a timer may fire at any time. -/
structure Plan (n : Nat) where
  maxConcurrent : Option Nat
  postCancelGrace : Option Nat
  deadline : Fin n → Option Nat

/-- Where `coordinate` is. -/
inductive Coordinator
  | watching
  | grace
  | aborted
  | finished
deriving DecidableEq

/-- The scheduler with its jobs and its coordinator. -/
structure State (n : Nat) where
  tasks : Fin n → TaskState
  finished : Bool
  jobs : Fin n → Phase
  /-- Permits left in the semaphore, if there is one. -/
  permits : Option Nat
  cancelled : Bool
  coordinator : Coordinator

/-- What happens to the scheduler. -/
inductive Event (n : Nat)
  | job (i : Fin n) (event : JobEvent)
  | cancel
  | noticeCancel
  | graceOver
  | finalise
deriving DecidableEq

namespace Plan

def start (plan : Plan n) : State n where
  tasks := fun _ => .pending
  finished := false
  jobs := fun _ => .queued
  permits := plan.maxConcurrent
  cancelled := false
  coordinator := .watching

def enabled (plan : Plan n) (s : State n) (i : Fin n) : JobEvent → Bool
  | .acquire => s.permits ≠ some 0
  | .seeCancel => s.cancelled
  | .expire => (plan.deadline i).isSome
  | .abort => s.coordinator = .aborted
  | _ => true

/-- A permit is taken when a job gets one and comes back when it is dropped. -/
def permitsAfter (permits : Option Nat) (before after : Phase) : Option Nat :=
  permits.map fun k => k + before.holdsPermit.toNat - after.holdsPermit.toNat

def jobStep (plan : Plan n) (s : State n) (i : Fin n) (event : JobEvent) : Option (State n) :=
  match (s.jobs i).next event with
  | none => none
  | some phase =>
    if plan.enabled s i event then
      some { s with
        tasks := Function.update s.tasks i (write (s.jobs i) event (s.tasks i))
        jobs := Function.update s.jobs i phase
        permits := permitsAfter s.permits (s.jobs i) phase }
    else none

/-- The end of `coordinate`: whatever has no terminal state is `Cancelled`. -/
def finalised (task : TaskState) : TaskState := if task.terminal then task else .cancelled

def step (plan : Plan n) (s : State n) : Event n → Option (State n)
  | .job i event => plan.jobStep s i event
  | .cancel => some { s with cancelled := true }
  | .noticeCancel =>
    if s.coordinator = .watching ∧ s.cancelled then
      some { s with coordinator := if plan.postCancelGrace.isSome then .grace else .aborted }
    else none
  | .graceOver => if s.coordinator = .grace then some { s with coordinator := .aborted } else none
  | .finalise =>
    if (s.coordinator = .watching ∨ s.coordinator = .aborted) ∧ ∀ i, s.jobs i = .gone then
      some { s with
        tasks := fun i => finalised (s.tasks i)
        finished := true
        coordinator := .finished }
    else none

/-- What can happen in a run. -/
def Next (plan : Plan n) (s : State n) (event : Event n) (s' : State n) : Prop :=
  plan.step s event = some s'

/-- `events` can lead from the start to `s`. -/
abbrev Runs (plan : Plan n) (events : List (Event n)) (s : State n) : Prop :=
  Trace plan.Next plan.start events s

end Plan

def reportSucceeded (tasks : Fin n → TaskState) : Bool :=
  decide (∀ i, (match tasks i with
    | .succeeded result => result.succeeded
    | _ => false) = true)

def jobLog (i : Fin n) (events : List (Event n)) : List JobEvent :=
  events.filterMap fun
    | .job j event => if j = i then some event else none
    | _ => none

/-! ## What a job does -/

/-- A state stays, starts, or ends. -/
def Moves (task task' : TaskState) : Prop :=
  task' = task ∨ (task = .pending ∧ task' = .running) ∨
    (task.terminal = false ∧ task'.terminal = true)

namespace Phase

def beforeCall : Phase → Bool
  | queued | waiting | skipping | triggered | calling => true
  | _ => false

def afterTrigger : Phase → Bool
  | triggered | calling | running | expiring | returned _ | expired => true
  | _ => false

/-- The recorded state of a job in this phase. -/
def Agrees : Phase → TaskState → Prop
  | queued, task | waiting, task | skipping, task | triggered, task => task = .pending
  | calling, task | running, task | expiring, task | returned _, task | expired, task =>
    task = .running
  | leaving, task => task.terminal = true
  | gone, _ => True

/-- The phases of a job. -/
inductive Step : Phase → JobEvent → Phase → Prop
  | acquire : Step queued .acquire waiting
  | trigger : Step waiting (.resolve true) triggered
  | decline : Step waiting (.resolve false) skipping
  | seeCancel : Step waiting .seeCancel skipping
  | skip : Step skipping .publish leaving
  | start : Step triggered .publish calling
  | invoke : Step calling .invoke running
  | complete (result : ActionResult) : Step running (.complete result) (returned result)
  | expire : Step running .expire expiring
  | graceOver : Step expiring .graceOver expired
  | report (result : ActionResult) : Step (returned result) .publish leaving
  | timeOut : Step expired .publish leaving
  | leave : Step leaving .leave gone
  | lose {phase : Phase} {event : JobEvent} (h : event = .panic ∨ event = .abort)
      (hphase : phase ≠ gone) : Step phase event gone

theorem step_of_next {phase phase' : Phase} {event : JobEvent}
    (h : phase.next event = some phase') : phase.Step event phase' := by
  unfold next at h
  split at h
  case h_17 =>
    split at h
    · cases h
      refine .lose (.inr rfl) ?_
      rintro rfl
      contradiction
    · cases h
  all_goals cases h
  all_goals first | exact .lose (.inl rfl) (by simp) | constructor

end Phase

theorem terminal_outcome (result : ActionResult) :
    (if result.succeeded then TaskState.succeeded result else .failed result).terminal = true := by
  split <;> rfl

variable {event : JobEvent} {phase phase' : Phase} {log : List JobEvent} {task : TaskState}

theorem agrees_next (h : phase.Step event phase') (hagrees : phase.Agrees task) :
    phase'.Agrees (write phase event task) := by
  cases h with
  | report result => exact terminal_outcome result
  | lose | leave => trivial
  | acquire | trigger | decline | seeCancel | invoke | complete | expire | graceOver => exact hagrees
  | skip | start | timeOut => rfl

theorem moves_next (h : phase.Step event phase') (hagrees : phase.Agrees task) :
    Moves task (write phase event task) := by
  cases h with
  | skip =>
    obtain rfl : task = .pending := hagrees
    exact .inr (.inr ⟨rfl, rfl⟩)
  | start => exact .inr (.inl ⟨hagrees, rfl⟩)
  | report result =>
    obtain rfl : task = .running := hagrees
    exact .inr (.inr ⟨rfl, terminal_outcome result⟩)
  | timeOut =>
    obtain rfl : task = .running := hagrees
    exact .inr (.inr ⟨rfl, rfl⟩)
  | lose h =>
    rcases h with rfl | rfl
    · exact .inl rfl
    · exact .inl rfl
  | acquire | trigger | decline | seeCancel | invoke | complete | expire | graceOver | leave =>
    exact .inl rfl

/-- The log of a job agrees with its phase and its recorded state. -/
structure JobInv (log : List JobEvent) (phase : Phase) (task : TaskState) : Prop where
  agrees : phase.Agrees task
  once : log.count .invoke ≤ (!phase.beforeCall).toNat
  triggered : phase.afterTrigger = true → .resolve true ∈ log
  invoked : ∀ front, front ++ [.invoke] <+: log → .resolve true ∈ front
  returned : ∀ result, phase = .returned result → .complete result ∈ log
  succeeded : ∀ result, task = .succeeded result → result.succeeded = true ∧ .complete result ∈ log

theorem jobInv_start : JobInv [] .queued .pending where
  agrees := rfl
  once := Nat.le_refl _
  triggered h := by cases h
  invoked front h := by simp at h
  returned _ h := by cases h
  succeeded _ h := by cases h

theorem invoked_concat (h : ∀ front, front ++ [.invoke] <+: log → .resolve true ∈ front)
    (hevent : event = .invoke → .resolve true ∈ log) (front : List JobEvent)
    (hfront : front ++ [.invoke] <+: log ++ [event]) : .resolve true ∈ front := by
  rcases prefix_concat_iff.1 hfront with heq | hprefix
  · obtain ⟨rfl, hlast⟩ := append_inj' heq rfl
    exact hevent (singleton_inj.1 hlast).symm
  · exact h front hprefix

section

variable (hstep : phase.Step event phase')
include hstep

/-- Only the call counts, and it happens at most once: a job that has called its
action does not come back to where it calls it. -/
theorem once_next (h : log.count .invoke ≤ (!phase.beforeCall).toNat) :
    (log ++ [event]).count .invoke ≤ (!phase'.beforeCall).toNat := by
  rw [count_append]
  cases hstep with
  | invoke => exact Nat.add_le_add_right h 1
  | lose hevent =>
    have hle := Bool.toNat_le (!phase.beforeCall)
    rcases hevent with rfl | rfl
    · exact h.trans hle
    · exact h.trans hle
  | acquire | trigger | decline | seeCancel | start | complete | expire | graceOver | report
  | timeOut | leave => exact h
  | skip => exact h.trans (Nat.zero_le _)

theorem triggered_next (h : phase.afterTrigger = true → .resolve true ∈ log)
    (hphase : phase'.afterTrigger = true) : .resolve true ∈ log ++ [event] := by
  cases hstep with
  | trigger => exact mem_append_right _ mem_cons_self
  | start | invoke | complete | expire | graceOver => exact mem_append_left _ (h rfl)
  | acquire | decline | seeCancel | skip | report | timeOut | leave | lose => cases hphase

theorem succeeded_next (h : JobInv log phase task)
    {result : ActionResult} (htask : write phase event task = .succeeded result) :
    result.succeeded = true ∧ .complete result ∈ log ++ [event] := by
  have hold : task = .succeeded result →
      result.succeeded = true ∧ .complete result ∈ log ++ [event] := fun heq =>
    (h.succeeded result heq).imp_right (mem_append_left _)
  cases hstep with
  | report outcome =>
    have hwrite : (if outcome.succeeded then TaskState.succeeded outcome else .failed outcome) =
        .succeeded result := htask
    split at hwrite
    · cases hwrite
      exact ⟨by assumption, mem_append_left _ (h.returned _ rfl)⟩
    · cases hwrite
  | skip | start | timeOut => cases htask
  | lose hevent =>
    rcases hevent with rfl | rfl
    · exact hold htask
    · exact hold htask
  | acquire | trigger | decline | seeCancel | invoke | complete | expire | graceOver | leave =>
    exact hold htask

end

theorem jobInv_step (h : JobInv log phase task) (hstep : phase.Step event phase') :
    JobInv (log ++ [event]) phase' (write phase event task) where
  agrees := agrees_next hstep h.agrees
  once := once_next hstep h.once
  triggered := triggered_next hstep h.triggered
  invoked := by
    refine invoked_concat h.invoked ?_
    rintro rfl
    cases hstep with
    | invoke => exact h.triggered rfl
    | lose hevent => rcases hevent with hevent | hevent <;> cases hevent
  returned := by
    rintro result rfl
    cases hstep with
    | complete => exact mem_append_right _ mem_cons_self
  succeeded _ htask := succeeded_next hstep h htask

end Jyth.Scheduler
