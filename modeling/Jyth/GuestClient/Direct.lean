import Jyth.GuestClient.Operations

/-!
# Direct runs

`run_direct_process` of `guest-client/src/direct.rs` from a successful spawn on, and
`ProcessLifecycle` of `process.rs`.  Every way a run ends goes through `fail` or through
`finished` (`settle_cases`), once and after one call of `close`.  What the drains captured is
handed to the observer in one of them only.
-/

namespace Jyth.GuestClient

open List

inductive ProcessState
  | pending | starting | running
  | finished (exit : ProcessExit)
  | failed (error : ProcessError)
deriving DecidableEq

def ProcessState.isTerminal : ProcessState → Bool
  | .finished _ | .failed _ => true
  | _ => false

/-- `states`: all that were published, the current one first. -/
structure ProcessLifecycle where
  states : List ProcessState
  captured : OutputStream → Option (List UInt8)

namespace ProcessLifecycle

def set (self : ProcessLifecycle) (next : ProcessState) : ProcessLifecycle :=
  if self.states.head?.any ProcessState.isTerminal then self
  else { self with states := next :: self.states }

def capture (self : ProcessLifecycle) (stream : OutputStream) (bytes : List UInt8) :
    ProcessLifecycle :=
  { self with captured := Function.update self.captured stream (some bytes) }

end ProcessLifecycle

def mergeCleanupErrors : Option String → Option String → Option String
  | none, error | error, none => error
  | some first, some second => some s!"{first}; {second}"

def ProcessError.withCleanup (error : ProcessError) : Option String → ProcessError
  | none => error
  | new =>
    match error with
    | .output stream message previous => .output stream message (mergeCleanupErrors previous new)
    | .outputLimitExceeded stream limit previous =>
      .outputLimitExceeded stream limit (mergeCleanupErrors previous new)
    | .outputAllocationFailed stream requested previous =>
      .outputAllocationFailed stream requested (mergeCleanupErrors previous new)
    | other => other

def combineCleanupErrors (first second : Option String) : Option String :=
  let message := "; ".intercalate (first.toList ++ second.toList)
  if message.isEmpty then none else some message

def errorText {ε α : Type} (text : ε → String) : Except ε α → Option String
  | .ok _ => none
  | .error e => some (text e)

/-- What becomes ready while the process runs, in the order `select!` takes it. -/
inductive Ready
  | waited (result : Except String ProcessExit)
  | joined | timer | cancelled

/-- What the `select!` of a run ends with. -/
inductive Outcome
  | wait (result : Except String ProcessExit)
  | timedOut (after : Nat)
  | cancelled
  | output (error : ProcessError)

structure DrainedOutput where
  stream : OutputStream
  captured : Option (List UInt8)

/-- `tasks`: the streams whose drains are not joined, in the order they will be. -/
structure OutputDrains where
  tasks : List OutputStream
  completed : List DrainedOutput

/-- What the calls of a run come to, errors by their texts. -/
structure DirectRun where
  timeout : Option Nat
  /-- the streams with a route on the host -/
  routes : List OutputStream
  bind : Except ProcessError Unit
  drain : OutputStream → Except ProcessError (Option (List UInt8))
  ready : List Ready
  close : Except String Unit
  display : ProcessError → String

/-- The result of a run, and what was published. -/
structure Ended where
  result : Except ProcessError ProcessExit
  lifecycle : ProcessLifecycle

/-- Steps of a run; the calls of `RunningProcess::close` are counted. -/
abbrev Calls := StateM Nat

namespace DirectRun

variable (run : DirectRun)

def startOutputDrains : Except ProcessError OutputDrains := do
  run.bind
  pure ⟨run.routes, []⟩

/-- The loop of `select!`; a branch that is off is not taken. -/
def select : OutputDrains → List Ready → Option (Outcome × OutputDrains)
  | _, [] => none
  | drains, .waited result :: _ => some (.wait result, drains)
  | drains, .cancelled :: _ => some (.cancelled, drains)
  | drains, .timer :: rest =>
    match run.timeout with
    | some after => some (.timedOut after, drains)
    | none => select drains rest
  | drains, .joined :: rest =>
    match drains.tasks with
    | [] => select drains rest
    | stream :: tasks =>
      match run.drain stream with
      | .ok captured => select ⟨tasks, drains.completed ++ [⟨stream, captured⟩]⟩ rest
      | .error error => some (.output error, ⟨tasks, drains.completed⟩)

/-- The first error counts; it aborts the other tasks. -/
def finishOutputDrains (drains : OutputDrains) : Except ProcessError (List DrainedOutput) :=
  (drains.tasks.mapM fun stream => (run.drain stream).map (DrainedOutput.mk stream)).map
    (drains.completed ++ ·)

def retainCapturedOutput (lifecycle : ProcessLifecycle) (completed : List DrainedOutput) :
    ProcessLifecycle :=
  completed.foldl (fun lifecycle drained =>
    match drained.captured with
    | some bytes => lifecycle.capture drained.stream bytes
    | none => lifecycle) lifecycle

/-- `running.close()`. -/
def closeProcess : Calls (Except String Unit) := fun calls => (run.close, calls + 1)

def fail (lifecycle : ProcessLifecycle) (error : ProcessError) : Ended :=
  ⟨.error error, lifecycle.set (.failed error)⟩

/-- `retain_captured_output`, then the terminal state. -/
def finish (lifecycle : ProcessLifecycle) (completed : List DrainedOutput) (exit : ProcessExit) :
    Ended :=
  ⟨.ok exit, (retainCapturedOutput lifecycle completed).set (.finished exit)⟩

def settle (lifecycle : ProcessLifecycle) (drains : OutputDrains) : Outcome → Calls Ended
  | .wait (.ok exit) => do
    let cleanup ← run.closeProcess
    match cleanup, run.finishOutputDrains drains with
    | .error error, .error outputError =>
      return fail lifecycle (outputError.withCleanup (some error))
    | .error error, .ok _ => return fail lifecycle (.cleanup error)
    | .ok _, .error error => return fail lifecycle error
    | .ok _, .ok completed =>
      return if exit.success then finish lifecycle completed exit
        else fail lifecycle (.unsuccessfulExit exit)
  | .wait (.error waitError) => do
    let cleanup ← run.closeProcess
    match run.finishOutputDrains drains, cleanup with
    | .error outputError, cleanup => return fail lifecycle (outputError.withCleanup
        (combineCleanupErrors (some s!"wait failed: {waitError}") (errorText id cleanup)))
    | .ok _, .error cleanup =>
      return fail lifecycle (.cleanup s!"wait failed: {waitError}; cleanup failed: {cleanup}")
    | .ok _, .ok _ => return fail lifecycle (.wait waitError)
  | .timedOut after => do
    let cleanup ← run.closeProcess
    let output := run.finishOutputDrains drains
    return fail lifecycle (.timedOut after
      (combineCleanupErrors (errorText id cleanup) (errorText run.display output)))
  | .cancelled => do
    let cleanup ← run.closeProcess
    let output := run.finishOutputDrains drains
    return fail lifecycle (.cancelled
      (combineCleanupErrors (errorText id cleanup) (errorText run.display output)))
  | .output error => do
    let cleanup ← run.closeProcess
    let output := run.finishOutputDrains drains
    return fail lifecycle (error.withCleanup
      (combineCleanupErrors (errorText id cleanup) (errorText run.display output)))

/-- `run_direct_process` after the spawn; `none` while the process runs. -/
def runDirectProcess (lifecycle : ProcessLifecycle) : Calls (Option Ended) :=
  let lifecycle := lifecycle.set .running
  match run.startOutputDrains with
  | .error error => do
    let cleanup ← run.closeProcess
    return some (fail lifecycle (error.withCleanup (errorText id cleanup)))
  | .ok drains =>
    match run.select drains run.ready with
    | none => return none
    | some (outcome, drains) => do
      let ended ← run.settle lifecycle drains outcome
      return some ended

/-- The process ends by itself, before anything else ends the run. -/
def Exits (exit : ProcessExit) : Prop :=
  ∃ drains, run.bind = .ok () ∧
    run.select ⟨run.routes, []⟩ run.ready = some (.wait (.ok exit), drains)

def terminal : Except ProcessError ProcessExit → ProcessState
  | .ok exit => .finished exit
  | .error error => .failed error

variable {run}

theorem closeProcess_bind {α : Type} (f : Except String Unit → Calls α) (calls : Nat) :
    (run.closeProcess >>= f) calls = f run.close (calls + 1) := rfl

/-- Every branch calls `close` once. -/
theorem settle_cases (run : DirectRun) (lifecycle : ProcessLifecycle) (drains : OutputDrains)
    (outcome : Outcome) (calls : Nat) : (run.settle lifecycle drains outcome calls).2 = calls + 1 ∧
      ((∃ error, (run.settle lifecycle drains outcome calls).1 = fail lifecycle error) ∨
        ∃ completed exit,
          (run.settle lifecycle drains outcome calls).1 = finish lifecycle completed exit) := by
  rcases outcome with (waitError | exit) | _ | _ | _
  · cases houtput : run.finishOutputDrains drains <;> cases hclose : run.close <;>
      simp only [settle, closeProcess_bind, houtput, hclose] <;>
      exact ⟨rfl, .inl ⟨_, rfl⟩⟩
  · cases houtput : run.finishOutputDrains drains <;> cases hclose : run.close <;>
      simp only [settle, closeProcess_bind, houtput, hclose]
    iterate 3 exact ⟨rfl, .inl ⟨_, rfl⟩⟩
    split
    · exact ⟨rfl, .inr ⟨_, _, rfl⟩⟩
    · exact ⟨rfl, .inl ⟨_, rfl⟩⟩
  iterate 3 exact ⟨rfl, .inl ⟨_, rfl⟩⟩

/-- The outcome that hands over what was captured, and no other does. -/
theorem settle_exited (lifecycle : ProcessLifecycle) (exit : ProcessExit) {drains : OutputDrains}
    {completed : List DrainedOutput} (houtput : run.finishOutputDrains drains = .ok completed)
    (calls : Nat) :
    (exit.success = true ∧ run.close = .ok () →
      (run.settle lifecycle drains (.wait (.ok exit)) calls).1 = finish lifecycle completed exit) ∧
    (¬(exit.success = true ∧ run.close = .ok ()) →
      ∃ error, (run.settle lifecycle drains (.wait (.ok exit)) calls).1 = fail lifecycle error) := by
  cases hclose : run.close with
  | error error =>
    refine ⟨nofun, fun _ => ⟨.cleanup error, ?_⟩⟩
    simp only [settle, closeProcess_bind, houtput, hclose]
    rfl
  | ok u =>
    simp only [settle, closeProcess_bind, houtput, hclose]
    by_cases hsuccess : exit.success = true
    · simp only [hsuccess, if_true]
      exact ⟨fun _ => rfl, fun h => absurd ⟨trivial, trivial⟩ h⟩
    · simp only [hsuccess]
      exact ⟨nofun, fun _ => ⟨_, rfl⟩⟩

theorem captured_set (lifecycle : ProcessLifecycle) (state : ProcessState) :
    (lifecycle.set state).captured = lifecycle.captured := by
  unfold ProcessLifecycle.set
  split <;> rfl

theorem states_retain (lifecycle : ProcessLifecycle) (completed : List DrainedOutput) :
    (retainCapturedOutput lifecycle completed).states = lifecycle.states := by
  induction completed generalizing lifecycle with
  | nil => rfl
  | cons drained completed ih =>
    refine (ih _).trans ?_
    dsimp only
    split <;> rfl

variable {f : OutputStream → Option (List UInt8)}

theorem captured_retain (lifecycle : ProcessLifecycle)
    {stream : OutputStream} {bytes : List UInt8} (hbytes : f stream = some bytes)
    {streams : List OutputStream} (h : stream ∈ streams ∨ lifecycle.captured stream = some bytes) :
    (retainCapturedOutput lifecycle (streams.map fun s => ⟨s, f s⟩)).captured stream =
      some bytes := by
  induction streams generalizing lifecycle with
  | nil => exact h.resolve_left not_mem_nil
  | cons s streams ih =>
    refine ih _ ?_
    by_cases hs : stream = s
    · subst hs
      exact .inr (by simp [hbytes, ProcessLifecycle.capture])
    · refine h.imp (fun hmem => (mem_cons.1 hmem).resolve_left hs) fun hcaptured => ?_
      dsimp only
      split
      · exact (Function.update_of_ne hs _ _).trans hcaptured
      · exact hcaptured

theorem finish_of_select {exit : ProcessExit} {ready : List Ready} {drains drains' : OutputDrains}
    (hdrain : ∀ stream ∈ drains.tasks, run.drain stream = .ok (f stream))
    (h : run.select drains ready = some (.wait (.ok exit), drains')) :
    run.finishOutputDrains drains' =
      .ok (drains.completed ++ drains.tasks.map fun stream => ⟨stream, f stream⟩) := by
  have hmapM : ∀ tasks : List OutputStream, (∀ stream ∈ tasks, run.drain stream = .ok (f stream)) →
      (tasks.mapM fun stream => (run.drain stream).map (DrainedOutput.mk stream)) =
        .ok (tasks.map fun stream => ⟨stream, f stream⟩) := by
    intro tasks htasks
    induction tasks with
    | nil => rfl
    | cons stream tasks ih =>
      rw [mapM_cons, htasks stream mem_cons_self, ih fun s hs => htasks s (mem_cons_of_mem _ hs)]
      rfl
  induction ready generalizing drains with
  | nil => cases h
  | cons next rest ih =>
    cases next with
    | waited result =>
      cases h
      rw [finishOutputDrains, hmapM _ hdrain]
      rfl
    | cancelled => cases h
    | timer =>
      simp only [select] at h
      split at h
      · cases h
      · exact ih hdrain h
    | joined =>
      simp only [select] at h
      split at h
      · exact ih hdrain h
      next stream tasks htasks =>
      rw [htasks] at hdrain ⊢
      rw [hdrain stream mem_cons_self] at h
      rw [ih (fun s hs => hdrain s (mem_cons_of_mem _ hs)) h, append_assoc]
      rfl

theorem states_set {lifecycle : ProcessLifecycle} {states : List ProcessState}
    (h : lifecycle.states = states) (hopen : ∀ state ∈ states, state.isTerminal = false)
    (next : ProcessState) : (lifecycle.set next).states = next :: states := by
  have hhead : lifecycle.states.head?.any ProcessState.isTerminal = false := by
    cases states with
    | nil => rw [h]; rfl
    | cons state states => rw [h]; exact hopen state mem_cons_self
  rw [ProcessLifecycle.set, hhead, if_neg Bool.false_ne_true, h]

/-- A run that ends has failed to bind its streams, or was settled by what came first. -/
theorem runDirectProcess_eq {lifecycle : ProcessLifecycle} {ended : Ended} {calls : Nat}
    (h : run.runDirectProcess lifecycle 0 = (some ended, calls)) :
    ((∃ error, run.bind = .error error) ∧ calls = 1 ∧
      ∃ error, ended = fail (lifecycle.set .running) error) ∨
    ∃ outcome drains, run.select ⟨run.routes, []⟩ run.ready = some (outcome, drains) ∧
      (run.settle (lifecycle.set .running) drains outcome 0).1 = ended ∧
      (run.settle (lifecycle.set .running) drains outcome 0).2 = calls := by
  unfold runDirectProcess startOutputDrains at h
  cases hbind : run.bind with
  | error error =>
    rw [hbind] at h
    cases h
    exact .inl ⟨⟨error, rfl⟩, rfl, _, rfl⟩
  | ok u =>
    rw [hbind] at h
    have hstarted : (Except.ok u >>= fun _ => pure (⟨run.routes, []⟩ : OutputDrains) :
        Except ProcessError OutputDrains) = .ok ⟨run.routes, []⟩ := rfl
    simp only [hstarted] at h
    cases hselect : run.select ⟨run.routes, []⟩ run.ready with
    | none =>
      rw [hselect] at h
      cases h
    | some selected =>
      obtain ⟨outcome, drains⟩ := selected
      rw [hselect] at h
      obtain ⟨hsome, hcalls⟩ := Prod.mk.inj h
      exact .inr ⟨outcome, drains, rfl, Option.some.inj hsome, hcalls⟩

/-- What was captured is there just if it is handed over, or nothing was. -/
theorem captured_iff {lifecycle : ProcessLifecycle} {exit : ProcessExit} {drains : OutputDrains}
    (hempty : ∀ stream, lifecycle.captured stream = none)
    (houtput : run.finishOutputDrains drains =
      .ok (run.routes.map fun stream => ⟨stream, f stream⟩)) :
    (∀ stream ∈ run.routes, ∀ bytes, f stream = some bytes →
      (run.settle lifecycle drains (.wait (.ok exit)) 0).1.lifecycle.captured stream =
        some bytes) ↔
      exit.success = true ∧ run.close = .ok () ∨ ∀ stream ∈ run.routes, f stream = none := by
  obtain ⟨hfinish, hfail⟩ := settle_exited lifecycle exit houtput 0
  by_cases hgood : exit.success = true ∧ run.close = .ok ()
  · refine ⟨fun _ => .inl hgood, fun _ stream hstream bytes hbytes => ?_⟩
    rw [hfinish hgood, finish, captured_set]
    exact captured_retain lifecycle hbytes (.inl hstream)
  · obtain ⟨error, herror⟩ := hfail hgood
    rw [or_iff_right hgood, herror]
    refine ⟨fun h stream hstream => ?_, fun h stream hstream bytes hbytes => ?_⟩
    · by_contra hsome
      obtain ⟨bytes, hbytes⟩ := Option.ne_none_iff_exists'.1 hsome
      have hthere := h stream hstream bytes hbytes
      rw [fail, captured_set, hempty] at hthere
      cases hthere
    · cases (h stream hstream).symm.trans hbytes

def oneByte (code : Int) : DirectRun where
  timeout := none
  routes := [.stdout]
  bind := .ok ()
  drain _ := .ok (some [7])
  ready := [.waited (.ok ⟨some code, none⟩)]
  close := .ok ()
  display _ := ""

def fresh : ProcessLifecycle := ⟨[.starting, .pending], fun _ => none⟩

end DirectRun

end Jyth.GuestClient
