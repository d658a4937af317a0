import Jyth.Scheduler.Engine

/-!
# Runs of the scheduler

What holds in every state of every run: of each job by itself (`JobInv`), of the
permits, and of the end of the run.  The recorded states respect the concurrency
limit as long as no job is lost while `Running` is recorded for it; a job that
panics returns its permit and leaves the record behind.

    (every run keeps the limit)  ↔  no limit, limit 0, or at least as many permits as actions
-/

namespace Jyth.Scheduler

open Run Tally List Function Phase Plan TaskState

variable {n : Nat} {plan : Plan n} {s s' : State n} {events : List (Event n)}

/-! ## One step -/

variable {event : Event n} {phase : Phase} {task : TaskState} {i : Fin n}

theorem jobStep_eq_some {event : JobEvent} : plan.jobStep s i event = some s' ↔
      ∃ phase, (s.jobs i).next event = some phase ∧ plan.enabled s i event = true ∧ s' = { s with
          tasks := update s.tasks i (write (s.jobs i) event (s.tasks i))
          jobs := update s.jobs i phase
          permits := permitsAfter s.permits (s.jobs i) phase } := by
  unfold jobStep
  cases hnext : (s.jobs i).next event with
  | none => simp
  | some phase =>
    by_cases henabled : plan.enabled s i event = true
    · simp [henabled, eq_comm]
    · simp [henabled]

/-- What a step does: a job moves, the coordinator or the caller moves, or the run
is brought to its end. -/
inductive Change (plan : Plan n) (s : State n) : Event n → State n → Prop
  | job {i : Fin n} {event : JobEvent} {phase : Phase} (hnext : (s.jobs i).Step event phase)
      (henabled : plan.enabled s i event = true) :
      Change plan s (.job i event) { s with
        tasks := Function.update s.tasks i (write (s.jobs i) event (s.tasks i))
        jobs := Function.update s.jobs i phase
        permits := Plan.permitsAfter s.permits (s.jobs i) phase }
  | control {event : Event n} (hevent : ∀ i e, event ≠ .job i e) (cancelled : Bool)
      (coordinator : Coordinator) :
      Change plan s event { s with cancelled, coordinator }
  | finalise (hgone : ∀ i, s.jobs i = .gone) :
      Change plan s .finalise { s with
        tasks := fun i => Plan.finalised (s.tasks i)
        finished := true
        coordinator := .finished }

theorem change_of_next (h : plan.Next s event s') : Change plan s event s' := by
  unfold Plan.Next at h
  cases event with
  | job i event =>
    obtain ⟨phase, hnext, henabled, rfl⟩ := jobStep_eq_some.1 h
    exact .job (step_of_next hnext) henabled
  | cancel =>
    cases h
    exact .control (by simp) _ _
  | noticeCancel | graceOver =>
    simp only [step, Option.ite_none_right_eq_some] at h
    obtain ⟨-, h⟩ := h
    cases h
    exact .control (by simp) _ _
  | finalise =>
    simp only [step, Option.ite_none_right_eq_some] at h
    obtain ⟨⟨-, hgone⟩, h⟩ := h
    cases h
    exact .finalise hgone

theorem jobLog_job (i : Fin n) (event : JobEvent) (events : List (Event n)) :
    jobLog i (events ++ [.job i event]) = jobLog i events ++ [event] := by
  simp [jobLog]

theorem jobLog_other {j : Fin n} (h : j ≠ i) (event : JobEvent) (events : List (Event n)) :
    jobLog i (events ++ [.job j event]) = jobLog i events := by
  simp [jobLog, h]

theorem jobLog_concat (h : ∀ i e, event ≠ .job i e) (i : Fin n)
    (events : List (Event n)) : jobLog i (events ++ [event]) = jobLog i events := by
  cases event with
  | job j e => exact absurd rfl (h j e)
  | cancel | noticeCancel | graceOver | finalise => simp [jobLog]

/-! ## Permits -/

/-- Permits in the semaphore and permits held add up to the limit. -/
def Permits (plan : Plan n) (s : State n) : Prop :=
  ∀ m, plan.maxConcurrent = some m →
    ∃ k, s.permits = some k ∧ k + tally Phase.holdsPermit s.jobs = m

theorem holds_next {phase' : Phase} {event : JobEvent} (h : phase.Step event phase')
    (hevent : event ≠ .acquire) : phase'.holdsPermit.toNat ≤ phase.holdsPermit.toNat := by
  cases h with
  | acquire => exact absurd rfl hevent
  | lose | leave => exact Nat.zero_le _
  | trigger | decline | seeCancel | skip | start | invoke | complete | expire | graceOver | report
  | timeOut => exact Nat.le_refl _

theorem permits_step (h : Permits plan s) (hstep : Change plan s event s') : Permits plan s' := by
  cases hstep with
  | control | finalise => exact h
  | @job i event phase hnext henabled =>
    intro m hm
    obtain ⟨k, hk, hsum⟩ := h m hm
    have hupdate := tally_update (p := holdsPermit) s.jobs i phase
    have hroom : phase.holdsPermit.toNat ≤ k + (s.jobs i).holdsPermit.toNat := by
      by_cases hevent : event = .acquire
      · -- a permit is only taken from a semaphore that has one
        subst hevent
        have hne : k ≠ 0 := by
          rintro rfl
          simp [enabled, hk] at henabled
        have := Bool.toNat_le phase.holdsPermit
        omega
      · have := holds_next hnext hevent
        omega
    refine ⟨k + (s.jobs i).holdsPermit.toNat - phase.holdsPermit.toNat, ?_, ?_⟩
    · simp [permitsAfter, hk]
    · dsimp only
      omega

/-! ## Every state of a run -/

/-- The invariant of a run: of each job, of the permits and of the end. -/
structure Inv (plan : Plan n) (events : List (Event n)) (s : State n) : Prop where
  job : ∀ i, JobInv (jobLog i events) (s.jobs i) (s.tasks i)
  permits : Permits plan s
  finished : s.finished = true → ∀ i, (s.tasks i).terminal = true ∧ s.jobs i = .gone

theorem inv_start (plan : Plan n) : Inv plan [] plan.start where
  job _ := jobInv_start
  permits m hm := by
    refine ⟨m, hm, ?_⟩
    have hnone : tally holdsPermit plan.start.jobs = 0 := tally_eq_zero.2 fun _ => rfl
    omega
  finished h := by cases h

theorem finalised_terminal (task : TaskState) : (Plan.finalised task).terminal = true := by
  unfold finalised
  split
  · assumption
  · rfl

theorem jobInv_finalised {log : List JobEvent} (h : JobInv log .gone task) :
    JobInv log .gone (Plan.finalised task) where
  agrees := trivial
  once := h.once
  triggered := h.triggered
  invoked := h.invoked
  returned := h.returned
  succeeded result htask := by
    unfold finalised at htask
    split at htask
    · exact h.succeeded result htask
    · cases htask

theorem inv_step (h : Inv plan events s) (hstep : Change plan s event s') :
    Inv plan (events ++ [event]) s' := by
  have hpermits := permits_step h.permits hstep
  cases hstep with
  | @job i event phase hnext henabled =>
    refine ⟨fun j => ?_, hpermits, fun hfinished => ?_⟩
    · by_cases hj : i = j
      · subst hj
        rw [jobLog_job]
        simpa using jobInv_step (h.job i) hnext
      · rw [jobLog_other hj]
        simpa [update_of_ne (Ne.symm hj)] using h.job j
    · -- the jobs of a finished run are gone
      have hgone := (h.finished hfinished i).2
      rw [hgone] at hnext
      cases hnext with
      | lose _ hphase => exact absurd rfl hphase
  | control hevent =>
    exact ⟨fun i => by simpa [jobLog_concat hevent] using h.job i, hpermits, h.finished⟩
  | finalise hgone =>
    refine ⟨fun i => ?_, hpermits, fun _ i => ⟨finalised_terminal _, hgone i⟩⟩
    rw [jobLog_concat (by simp)]
    have hjob := h.job i
    rw [hgone i] at hjob
    simpa [hgone i] using jobInv_finalised hjob

theorem inv_of_runs (h : plan.Runs events s) : Inv plan events s :=
  h.invariant (inv_start plan) fun _ _ _ _ h hstep => inv_step h (change_of_next hstep)

theorem moves_step (h : Inv plan events s) (hstep : Change plan s event s')
    (i : Fin n) : Moves (s.tasks i) (s'.tasks i) := by
  cases hstep with
  | @job j event phase hnext =>
    by_cases hij : i = j
    · subst hij
      simpa using moves_next hnext (h.job i).agrees
    · exact .inl (update_of_ne hij _ _)
  | control => exact .inl rfl
  | finalise =>
    show Moves (s.tasks i) (finalised (s.tasks i))
    cases hterminal : (s.tasks i).terminal with
    | true => exact .inl (by simp [finalised, hterminal])
    | false => exact .inr (.inr ⟨hterminal, finalised_terminal _⟩)

/-! ## The concurrency limit -/

/-- No more actions are recorded as `Running` than the limit allows. -/
def Bounded (plan : Plan n) (s : State n) : Prop :=
  ∀ m, plan.maxConcurrent = some m → tally TaskState.isRunning s.tasks ≤ m

/-- A job panics or is dropped while `Running` is recorded for it. -/
def Loses (s : State n) (event : Event n) : Prop :=
  ∃ i, (event = .job i .panic ∨ event = .job i .abort) ∧ s.tasks i = .running

/-- The steps in which no running job is lost. -/
def Keeps (plan : Plan n) (s : State n) (event : Event n) (s' : State n) : Prop :=
  plan.Next s event s' ∧ ¬Loses s event

theorem isRunning_iff : task.isRunning = true ↔ task = .running := by
  cases task <;> simp [isRunning]

theorem holds_of_running (h : phase.Agrees .running) (hgone : phase ≠ .gone) :
    phase.holdsPermit = true := by
  cases phase with
  | queued => cases h
  | gone => exact absurd rfl hgone
  | waiting | skipping | triggered | calling | running | expiring | returned | expired | leaving =>
    rfl

theorem lost_of_running {event : JobEvent} (h : phase.Step event .gone)
    (hagrees : phase.Agrees task) (hrunning : write phase event task = .running) :
    (event = .panic ∨ event = .abort) ∧ task = .running := by
  cases h with
  | leave =>
    obtain rfl : task = .running := hrunning
    cases hagrees
  | lose hevent =>
    refine ⟨hevent, ?_⟩
    rcases hevent with rfl | rfl
    · exact hrunning
    · exact hrunning

theorem present_step (h : Inv plan events s)
    (hpresent : ∀ i, s.tasks i = .running → s.jobs i ≠ .gone) (hkeeps : ¬Loses s event)
    (hstep : Change plan s event s') (i : Fin n) (hrunning : s'.tasks i = .running) :
    s'.jobs i ≠ .gone := by
  cases hstep with
  | @job j event phase hnext =>
    by_cases hij : i = j
    · subst hij
      simp only [update_self] at hrunning ⊢
      rintro rfl
      obtain ⟨hevent, htask⟩ := lost_of_running hnext (h.job i).agrees hrunning
      refine hkeeps ⟨i, ?_, htask⟩
      rcases hevent with rfl | rfl
      · exact .inl rfl
      · exact .inr rfl
    · simp only [update_of_ne hij] at hrunning ⊢
      exact hpresent i hrunning
  | control => exact hpresent i hrunning
  | finalise =>
    have hterminal := finalised_terminal (s.tasks i)
    rw [show finalised (s.tasks i) = .running from hrunning] at hterminal
    cases hterminal

theorem bounded_of_permits (h : Inv plan events s)
    (hpresent : ∀ i, s.tasks i = .running → s.jobs i ≠ .gone) : Bounded plan s := by
  intro m hm
  obtain ⟨k, -, hsum⟩ := h.permits m hm
  have hle : tally isRunning s.tasks ≤ tally holdsPermit s.jobs := by
    refine tally_mono fun i hi => ?_
    rw [isRunning_iff] at hi
    refine holds_of_running ?_ (hpresent i hi)
    have hagrees := (h.job i).agrees
    rwa [hi] at hagrees
  omega

theorem bounded_of_keeps (h : Trace (Keeps plan) plan.start events s) : Bounded plan s := by
  have hinv : Inv plan events s ∧ ∀ i, s.tasks i = .running → s.jobs i ≠ .gone := by
    refine h.invariant (I := fun events s => Inv plan events s ∧
      ∀ i, s.tasks i = .running → s.jobs i ≠ .gone) ⟨inv_start plan, fun i hi => by cases hi⟩ ?_
    rintro events s event s' ⟨hinv, hpresent⟩ ⟨hstep, hkeeps⟩
    have hchange := change_of_next hstep
    exact ⟨inv_step hinv hchange, present_step hinv hpresent hkeeps hchange⟩
  exact bounded_of_permits hinv.1 hinv.2

/-! ### Which plans keep the limit in every run -/

theorem triggered_of_write {phase' : Phase} {event : JobEvent}
    (h : phase.Step event phase') (hrunning : write phase event task = .running) :
    task = .running ∨ phase = .triggered := by
  cases h with
  | start => exact .inr rfl
  | skip | timeOut => cases hrunning
  | report result =>
    have hterminal := terminal_outcome result
    rw [show (if result.succeeded then succeeded result else .failed result) = .running
      from hrunning] at hterminal
    cases hterminal
  | lose hevent =>
    rcases hevent with rfl | rfl
    · exact .inl hrunning
    · exact .inl hrunning
  | acquire | trigger | decline | seeCancel | invoke | complete | expire | graceOver | leave =>
    exact .inl hrunning

theorem not_running_of_zero (hzero : plan.maxConcurrent = some 0) (h : plan.Runs events s)
    (i : Fin n) : s.tasks i ≠ .running := by
  have hinv : Inv plan events s ∧ ∀ i, s.tasks i ≠ .running := by
    refine h.invariant (I := fun events s => Inv plan events s ∧ ∀ i, s.tasks i ≠ .running)
      ⟨inv_start plan, fun i hi => by cases hi⟩ ?_
    rintro events s event s' ⟨hinv, hnone⟩ hstep
    have hchange := change_of_next hstep
    refine ⟨inv_step hinv hchange, fun i hrunning => ?_⟩
    cases hchange with
    | @job j event phase hnext =>
      by_cases hij : i = j
      · subst hij
        simp only [update_self] at hrunning
        rcases triggered_of_write hnext hrunning with htask | hphase
        · exact hnone i htask
        · obtain ⟨k, -, hsum⟩ := hinv.permits 0 hzero
          have hfree := tally_eq_zero.1 (Nat.eq_zero_of_add_eq_zero_left hsum) i
          rw [hphase] at hfree
          cases hfree
      · simp only [update_of_ne hij] at hrunning
        exact hnone i hrunning
    | control => exact hnone i hrunning
    | finalise =>
      have hterminal := finalised_terminal (s.tasks i)
      rw [show finalised (s.tasks i) = .running from hrunning] at hterminal
      cases hterminal
  exact hinv.2 i

def panicRun (i : Fin n) : List (Event n) :=
  [.job i .acquire, .job i (.resolve true), .job i .publish, .job i .invoke, .job i .panic]

theorem permitsAfter_of_holdsPermit_eq {before after : Phase} (permits : Option Nat)
    (h : before.holdsPermit = after.holdsPermit) : Plan.permitsAfter permits before after = permits := by
  cases permits with
  | none => rfl
  | some k => simp [permitsAfter, h]

theorem permitsAfter_return {permits : Option Nat} (hpermits : permits ≠ some 0) :
    Plan.permitsAfter (Plan.permitsAfter permits .queued .waiting) .running .gone = permits := by
  cases permits with
  | none => rfl
  | some k =>
    have hk : k ≠ 0 := fun h => hpermits (by rw [h])
    have hsub : k - 1 + 1 = k := by omega
    simp [permitsAfter, holdsPermit, hsub]

/-- Its permit is back, its job is gone, its state is still `Running`. -/
theorem panicRun_trace (hqueued : s.jobs i = .queued) (hpermits : s.permits ≠ some 0) :
    Trace plan.Next s (panicRun i) { s with
      tasks := update s.tasks i .running
      jobs := update s.jobs i .gone } := by
  refine Trace.of_foldlM ?_
  suffices permitsAfter (permitsAfter (permitsAfter (permitsAfter
      (permitsAfter s.permits .queued .waiting) .waiting .triggered) .triggered .calling)
        .calling .running) .running .gone = s.permits by
    simpa [panicRun, Plan.step, Plan.jobStep, hqueued, Phase.next, Plan.enabled, hpermits, write,
      outcome]
  -- between the first step and the last one the job holds its permit
  have hresolve (k) : permitsAfter k .waiting .triggered = k := permitsAfter_of_holdsPermit_eq k rfl
  have hpublish (k) : permitsAfter k .triggered .calling = k := permitsAfter_of_holdsPermit_eq k rfl
  have hinvoke (k) : permitsAfter k .calling .running = k := permitsAfter_of_holdsPermit_eq k rfl
  rw [hresolve, hpublish, hinvoke, permitsAfter_return hpermits]

theorem panicRuns_trace (l : List (Fin n)) (hnodup : l.Nodup)
    (hqueued : ∀ i ∈ l, s.jobs i = .queued) (hpermits : s.permits ≠ some 0) :
    ∃ events s', Trace plan.Next s events s' ∧ (∀ i ∈ l, s'.tasks i = .running) ∧
      ∀ i ∉ l, s'.tasks i = s.tasks i := by
  induction l generalizing s with
  | nil => exact ⟨[], s, .nil, by simp, fun _ _ => rfl⟩
  | cons i l ih =>
    obtain ⟨hi, hl⟩ := nodup_cons.1 hnodup
    have hfirst : Trace plan.Next s (panicRun i) _ :=
      panicRun_trace (hqueued i mem_cons_self) hpermits
    obtain ⟨events, s', hrest, hrunning, hsame⟩ := ih hl (s := { s with
        tasks := update s.tasks i .running
        jobs := update s.jobs i .gone }) (fun j hj => by
      have hne : j ≠ i := fun h => hi (h ▸ hj)
      simpa [update_of_ne hne] using hqueued j (mem_cons_of_mem _ hj)) hpermits
    refine ⟨_, s', hfirst.append hrest, fun j hj => ?_, fun j hj => ?_⟩
    · rcases mem_cons.1 hj with rfl | hj
      · rw [hsame j hi]
        exact update_self ..
      · exact hrunning j hj
    · obtain ⟨hne, hj⟩ := not_or.1 (mt mem_cons.2 hj)
      rw [hsame j hj]
      exact update_of_ne hne _ _

theorem bounded_runs_iff (plan : Plan n) : (∀ events s, plan.Runs events s → Bounded plan s) ↔
      ∀ m, plan.maxConcurrent = some m → m = 0 ∨ n ≤ m := by
  constructor
  · intro h m hm
    by_contra hnot
    obtain ⟨hpos, hlt⟩ := not_or.1 hnot
    -- every action starts, panics and stays recorded as running
    obtain ⟨events, s, hrun, hrunning, -⟩ : ∃ events s, plan.Runs events s ∧
        (∀ i ∈ List.finRange n, s.tasks i = .running) ∧ _ :=
      panicRuns_trace (List.finRange n) (nodup_finRange n) (fun _ _ => rfl)
        (fun h => hpos (Option.some.inj (hm.symm.trans h)))
    have hall : tally isRunning s.tasks = Fintype.card (Fin n) :=
      tally_eq_card fun i => isRunning_iff.2 (hrunning i (mem_finRange i))
    have hle := h events s hrun m hm
    rw [hall, Fintype.card_fin] at hle
    omega
  · intro h events s hrun m hm
    rcases h m hm with rfl | hle
    · refine Nat.le_of_eq (tally_eq_zero.2 fun i => ?_)
      have hnot := not_running_of_zero hm hrun i
      exact Bool.eq_false_iff.2 (mt isRunning_iff.1 hnot)
    · calc tally isRunning s.tasks ≤ Fintype.card (Fin n) := tally_le_card _
        _ = n := Fintype.card_fin n
        _ ≤ m := hle

/-! ## The state machine -/

theorem complete_of_reportSucceeded (h : Inv plan events s)
    (hreport : reportSucceeded s.tasks = true) (i : Fin n) :
    ∃ result, result.succeeded = true ∧ .complete result ∈ jobLog i events := by
  have hi := of_decide_eq_true hreport i
  split at hi
  · next result htask => exact ⟨result, (h.job i).succeeded result htask⟩
  · cases hi

/-- What a run guarantees. -/
structure Sound (plan : Plan n) (events : List (Event n)) (s : State n) : Prop where
  /-- A recorded state only moves from pending to running to a terminal one. -/
  moves : ∀ event s', plan.Next s event s' → ∀ i, Moves (s.tasks i) (s'.tasks i)
  /-- No action is called twice, -/
  once : ∀ i, (jobLog i events).count .invoke ≤ 1
  /-- nor before its trigger has resolved to `true`. -/
  triggered : ∀ i front, front ++ [.invoke] <+: jobLog i events → .resolve true ∈ front
  /-- A run is only reported finished when every action is. -/
  finished : s.finished = true → ∀ i, (s.tasks i).terminal = true
  /-- A run is only reported successful when every action has returned success. -/
  succeeded : reportSucceeded s.tasks = true →
    ∀ i, ∃ result, result.succeeded = true ∧ .complete result ∈ jobLog i events

theorem sound_of_inv (h : Inv plan events s) : Sound plan events s where
  moves _ _ hstep := moves_step h (change_of_next hstep)
  once i := (h.job i).once.trans (Bool.toNat_le _)
  triggered i := (h.job i).invoked
  finished hfinished i := (h.finished hfinished i).1
  succeeded := complete_of_reportSucceeded h

/-- **The scheduler's state machine.**  Every run is sound.  It keeps the
concurrency limit as long as no job is lost while it is recorded as running; all
runs of a plan keep it exactly if there is no limit, no permit at all, or a
permit for every action. -/
theorem scheduler_sound (plan : Plan n) : (∀ events s, plan.Runs events s → Sound plan events s) ∧
    (∀ events s, Trace (Keeps plan) plan.start events s → Bounded plan s) ∧
    ((∀ events s, plan.Runs events s → Bounded plan s) ↔
      ∀ m, plan.maxConcurrent = some m → m = 0 ∨ n ≤ m) :=
  ⟨fun _ _ h => sound_of_inv (inv_of_runs h), fun _ _ h => bounded_of_keeps h, bounded_runs_iff plan⟩

def onePermit : Plan 2 where
  maxConcurrent := some 1
  postCancelGrace := none
  deadline := fun _ => none

/-- The first action panics; its permit goes to the second one, and both are
recorded as running. -/
theorem panicked_stays_running :
    ∃ events s, onePermit.Runs events s ∧ s.tasks 0 = .running ∧ s.tasks 1 = .running ∧
      ¬Bounded onePermit s := by
  have hrun : onePermit.Runs (panicRun 0 ++
      [.job 1 .acquire, .job 1 (.resolve true), .job 1 .publish]) _ := Trace.of_foldlM rfl
  refine ⟨_, _, hrun, rfl, rfl, fun h => ?_⟩
  have hle := h 1 rfl
  revert hle
  decide

end Jyth.Scheduler
