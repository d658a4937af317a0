import Jyth.GuestClient.Dispatcher
import Jyth.GuestClient.Operations

/-!
# Handles of guest processes

What the layers between a handle and the guest make of a spawn, a wait and a drop:
`Client::request_with_deadline`, `CleanupTasks::enqueue`, `execute_request` and the
reply deadline of `TcpEndpoint::command_async`.

A spawn that fails after the guest has acted leaves the process without a handle and
without a request to close it.  A dropped handle leaves its request to a task, which `abort_all`
or the end of the dispatcher can overtake.  A wait has no deadline in the dispatcher (`Patient`),
but the endpoint gives up on every reply after five seconds.

    the guest started it → a handle ↔ the matching reply arrives
    dropped → submitted ↔ taken, and sent before the first disturbance   (started_process_owned_iff)
    a wait never times out ↔ answered only within the reply deadline     (wait_ends_with_exit_iff)
-/

namespace Jyth.GuestClient

open Protocol Com List Replies

/-! ### Spawning -/

/-- How the request gets into the dispatcher's channel. -/
inductive Sending
  | sent | closed | late

/-- What comes back of a request that was sent. -/
inductive Receiving
  | reply (result : Except GuestClientError Protocol.Event)
  | dropped
  | late

/-- `Client::request_with_deadline`. -/
def requestWithDeadline : Sending → Receiving → Except GuestClientError Protocol.Event
  | .closed, _ | .sent, .dropped => .error .shutdown
  | .late, _ | .sent, .late => .error .requestTimedOut
  | .sent, .reply result => result

/-- A spawn as the host sees it and whether the guest started the process, which it can
only if it was asked. -/
structure Exchange where
  sending : Sending
  receiving : Receiving
  started : Bool
  asked : started = true → sending = .sent

def Exchange.replies (exchange : Exchange) : Replies :=
  { request := fun _ => requestWithDeadline exchange.sending exchange.receiving
    bind := fun _ => none }

/-! ### Dropping -/

/-- The dispatcher's channel and `CleanupTasks`. -/
structure Cleanup where
  channel : List Command
  capacity : Nat
  /-- The dispatcher holds the receiver. -/
  receiving : Bool
  closed : Bool
  /-- What the tasks that are not finished have to send. -/
  tasks : List Command
  /-- All that was ever put into the channel. -/
  submitted : List Command
deriving DecidableEq

namespace Cleanup

variable (self : Cleanup)

def send (request : Command) : Cleanup :=
  { self with channel := self.channel ++ [request], submitted := self.submitted ++ [request] }

def enqueue (runtime : Bool) (request : Command) : Cleanup :=
  if self.closed then self
  else if runtime then { self with tasks := self.tasks ++ [request] }
  else if self.receiving && self.channel.length < self.capacity then self.send request
  else self

/-- What happens later; tasks are named by their position. -/
inductive Later
  | poll (k : Nat)
  | receive
  /-- `close_and_join` closes the registry; it waits for the tasks. -/
  | close
  | abortAll
  | dropReceiver
deriving DecidableEq

/-- A task waits for room; without a receiver it ends and the request is gone. -/
def poll (k : Nat) (request : Command) : Cleanup :=
  if ! self.receiving then { self with tasks := self.tasks.eraseIdx k }
  else if self.channel.length < self.capacity then
    { self with tasks := self.tasks.eraseIdx k }.send request
  else self

def step : Later → Cleanup
  | .poll k => (self.tasks[k]?).elim self (self.poll k)
  | .receive => { self with channel := self.channel.tail }
  | .close => { self with closed := true }
  | .abortAll => { self with closed := true, tasks := [] }
  | .dropReceiver => { self with receiving := false, channel := [] }

def run (events : List Later) : Cleanup := events.foldl step self

/-- Neither aborts the tasks nor takes their receiver away. -/
def Later.quiet : Later → Bool
  | .abortAll | .dropReceiver => false
  | _ => true

end Cleanup

def RunningProcess.drop (process : RunningProcess) (runtime : Bool) (cleanup : Cleanup) : Cleanup :=
  if process.closed then cleanup else cleanup.enqueue runtime (.processClose process.uuid)

/-- `spawn` submits its own request and no other, however it ends. -/
def Exchange.spawn (exchange : Exchange) (builder : PreparedProcessBuilder) (uuid : Uuid)
    (cleanup : Cleanup) : Except GuestClientError RunningProcess × Cleanup :=
  (exchange.replies.spawn builder uuid, match exchange.sending with
    | .sent => cleanup.send (builder.command uuid)
    | _ => cleanup)

namespace Cleanup

variable {self : Cleanup} {request : Command}

/-- The request waits in one task, or was submitted once. -/
def Kept (request : Command) (self : Cleanup) : Prop :=
  self.receiving = true ∧ self.tasks.count request + self.submitted.count request = 1

theorem enqueue_receiving {runtime : Bool} :
    (self.enqueue runtime request).receiving = self.receiving := by
  unfold enqueue
  repeat' split
  all_goals rfl

theorem submitted_enqueue_of_dead (h : self.receiving = false) {runtime : Bool} :
    (self.enqueue runtime request).submitted = self.submitted := by
  rw [enqueue, h, Bool.false_and, if_neg Bool.false_ne_true]
  repeat' split
  all_goals rfl

theorem Kept.enqueue (hnew : request ∉ self.tasks ∧ request ∉ self.submitted)
    (hreceiving : self.receiving = true) (hclosed : self.closed = false) {runtime : Bool}
    (hroom : runtime = true ∨ self.channel.length < self.capacity) :
    Kept request (self.enqueue runtime request) := by
  refine ⟨enqueue_receiving.trans hreceiving, ?_⟩
  have htasks := count_eq_zero.2 hnew.1
  have hsubmitted := count_eq_zero.2 hnew.2
  rw [Cleanup.enqueue, hclosed, if_neg Bool.false_ne_true]
  cases runtime with
  | true => simp [htasks, hsubmitted]
  | false =>
    have hlt := hroom.resolve_left Bool.false_ne_true
    simp [hreceiving, hlt, send, htasks, hsubmitted]

theorem count_eraseIdx {k : Nat} {other : Command} (hget : self.tasks[k]? = some other) :
    (self.tasks.eraseIdx k).count request + [other].count request = self.tasks.count request := by
  obtain ⟨hlt, rfl⟩ := List.getElem?_eq_some_iff.1 hget
  have hcount := (getElem_cons_eraseIdx_perm hlt).count_eq request
  rw [← singleton_append, count_append] at hcount
  omega

theorem Kept.step (h : Kept request self) {event : Later} (hquiet : event.quiet = true) :
    Kept request (self.step event) := by
  obtain ⟨hreceiving, hcount⟩ := h
  cases event with
  | receive | close => exact ⟨hreceiving, hcount⟩
  | abortAll | dropReceiver => cases hquiet
  | poll k =>
    rw [Cleanup.step]
    cases hget : self.tasks[k]? with
    | none => exact ⟨hreceiving, hcount⟩
    | some other =>
      rw [Option.elim_some, poll, if_neg (by simp [hreceiving])]
      split
      · refine ⟨hreceiving, ?_⟩
        have htask := @count_eraseIdx _ request _ _ hget
        show (self.tasks.eraseIdx k).count request + (self.submitted ++ [other]).count request = 1
        rw [count_append]
        omega
      · exact ⟨hreceiving, hcount⟩

theorem Kept.run (h : Kept request self) {events : List Later}
    (hquiet : ∀ event ∈ events, event.quiet = true) : Kept request (self.run events) := by
  induction events generalizing self with
  | nil => exact h
  | cons event events ih =>
    obtain ⟨hevent, hevents⟩ := forall_mem_cons.1 hquiet
    exact ih (h.step hevent) hevents

/-- Without tasks, or without a receiver, nothing more is submitted. -/
theorem submitted_of_dead (h : self.tasks = [] ∨ self.receiving = false) (events : List Later) :
    (self.run events).submitted = self.submitted := by
  induction events generalizing self with
  | nil => rfl
  | cons event events ih =>
    suffices hstep : ((self.step event).tasks = [] ∨ (self.step event).receiving = false) ∧
        (self.step event).submitted = self.submitted from (ih hstep.1).trans hstep.2
    cases event with
    | receive | close => exact ⟨h, rfl⟩
    | abortAll => exact ⟨.inl rfl, rfl⟩
    | dropReceiver => exact ⟨.inr rfl, rfl⟩
    | poll k =>
      rw [step]
      cases hget : self.tasks[k]? with
      | none => exact ⟨h, rfl⟩
      | some other =>
        have hdead : self.receiving = false := h.resolve_left fun hnil => by
          rw [hnil] at hget
          cases hget
        rw [Option.elim_some, poll, if_pos (by simp [hdead])]
        exact ⟨.inr hdead, rfl⟩

theorem submitted_of_absent (h : request ∉ self.tasks ∧ request ∉ self.submitted)
    (events : List Later) : request ∉ (self.run events).submitted := by
  induction events generalizing self with
  | nil => exact h.2
  | cons event events ih =>
    refine ih ?_
    cases event with
    | receive | close => exact h
    | abortAll => exact ⟨not_mem_nil, h.2⟩
    | dropReceiver => exact h
    | poll k =>
      rw [step]
      cases hget : self.tasks[k]? with
      | none => exact h
      | some other =>
        have herase : request ∉ self.tasks.eraseIdx k := fun hmem => h.1 (mem_of_mem_eraseIdx hmem)
        rw [Option.elim_some, poll]
        split
        · exact ⟨herase, h.2⟩
        split
        · refine ⟨herase, fun hmem => ?_⟩
          rcases mem_append.1 hmem with hold | hlast
          · exact h.2 hold
          · exact h.1 (mem_singleton.1 hlast ▸ mem_of_getElem? hget)
        · exact h

/-- What is submitted of a request that is kept is decided when the quiet ends. -/
theorem Kept.submitted_iff (h : Kept request self) (events : List Later) :
    request ∈ (self.run events).submitted ↔
      request ∉ (self.run (events.takeWhile Later.quiet)).tasks := by
  have hquiet : ∀ event ∈ events.takeWhile Later.quiet, event.quiet = true :=
    fun _ hevent => mem_takeWhile_imp hevent
  obtain ⟨-, hcount⟩ := h.run hquiet
  have hrest : (self.run events).submitted =
      (self.run (events.takeWhile Later.quiet)).submitted := by
    conv_lhs => rw [Cleanup.run, ← takeWhile_append_dropWhile (p := Later.quiet) (l := events),
      foldl_append]
    cases hdrop : events.dropWhile Later.quiet with
    | nil => rfl
    | cons event rest =>
      have hloud : event.quiet = false := by
        have hhead := head?_dropWhile_not Later.quiet events
        rw [hdrop] at hhead
        simpa using hhead
      refine (submitted_of_dead ?_ rest).trans ?_
      · cases event with
        | abortAll => exact .inl rfl
        | dropReceiver => exact .inr rfl
        | _ => cases hloud
      · cases event with
        | abortAll | dropReceiver => rfl
        | _ => cases hloud
  rw [hrest, ← count_pos_iff, ← count_eq_zero]
  omega

end Cleanup

theorem Exchange.spawn_ok_iff (exchange : Exchange) (builder : PreparedProcessBuilder) (uuid : Uuid)
    {cleanup : Cleanup} (hstarted : exchange.started = true) :
    (∃ handle, (exchange.spawn builder uuid cleanup).1 = .ok handle) ↔
      exchange.receiving = .reply (.ok (.processStarted uuid)) := by
  simp only [Exchange.spawn, Exchange.replies, exchange.asked hstarted, Replies.spawn, expecting,
    requestExpect]
  cases exchange.receiving with
  | dropped | late => exact ⟨nofun, nofun⟩
  | reply result =>
    cases result with
    | error e => exact ⟨nofun, nofun⟩
    | ok event =>
      cases event with
      | processStarted reply =>
        simp only [requestWithDeadline, Bind.bind, Except.bind, Pure.pure, Except.pure]
        by_cases heq : reply = uuid <;> simp [heq]
      | _ => exact ⟨nofun, nofun⟩

def shell : PreparedProcessBuilder := ⟨"/bin/sh", [], [], none, .pipe, .pipe⟩

def idle : Cleanup := ⟨[], 1, true, false, [], []⟩

/-- In milliseconds. -/
def replyDeadline : Nat := 5000

/-- One connection: connecting, writing the command, and when after that a reply or a
failure arrives. -/
structure CommandConnection where
  connect : Except TransportError Unit
  write : Except TransportError Unit
  reply : Option (Nat × Except TransportError Protocol.Event)

def readFrameWithDeadline (deadline : Nat) (reply : Option (Nat × Except TransportError Protocol.Event)) :
    Except TransportError Protocol.Event :=
  match reply with
  | some (after, result) => if after ≤ deadline then result else .error .timedOut
  | none => .error .timedOut

def commandAsync (connection : CommandConnection) : Except TransportError Protocol.Event := do
  connection.connect
  connection.write
  readFrameWithDeadline replyDeadline connection.reply

/-- What the caller of a request that arrived gets from the dispatcher; a task that is aborted
drops the sender of its reply. -/
def State.response (s : State) (id : Nat) (result : Except TransportError Protocol.Event) :
    Option (Except GuestClientError Protocol.Event) :=
  if id ∈ s.timedOut then some (.error .requestTimedOut)
  else if id ∈ s.answered then some (result.mapError fun _ => .transport)
  else if s.mode = .stopped ∧ id ∉ s.tasks.map (·.request.id) then some (.error .shutdown)
  else none

/-- `RunningProcess::wait` over the dispatcher, `TcpTransport` and one connection. -/
def State.wait (s : State) (id : Nat) (connection : CommandConnection) (process : RunningProcess) :
    Option (Except GuestClientError ProcessExit) :=
  (s.response id (commandAsync connection)).map fun response =>
    Replies.wait { request := fun _ => response, bind := fun _ => none } process

/-- A connection that works to a guest whose process exits then, or never. -/
def healthy (uuid : Uuid) (exits : Option (Nat × ProcessExit)) : CommandConnection :=
  ⟨.ok (), .ok (), exits.map fun (after, exit) =>
    (after, .ok (.processExited uuid exit.exitCode exit.signal))⟩

/-- Only requests with a deadline have timed out. -/
structure Patient (s : State) : Prop where
  pending : s.pending ⊆ s.arrived
  timedOut : ∀ id ∈ s.timedOut, ∃ request ∈ s.arrived, request.id = id ∧ request.deadline ≠ none

theorem Patient.step {s s' : State} (h : Patient s) {event : GuestClient.Event}
    (hstep : Next s event s') : Patient s' := by
  cases change_of_next hstep with
  | expire now hbefore hafter =>
    refine ⟨fun r hr => h.pending (mem_of_mem_filter hr), fun id hid => ?_⟩
    rcases mem_append.1 hid with hid | hid
    · exact h.timedOut id hid
    · obtain ⟨request, hmem, rfl⟩ := mem_map.1 hid
      obtain ⟨hpending, hexpired⟩ := mem_filter.1 hmem
      refine ⟨request, h.pending hpending, rfl, fun hnone => ?_⟩
      rw [State.isExpired, hnone] at hexpired
      exact Bool.false_ne_true hexpired
  | @start index request hmode hget =>
    have herase : s.pending.eraseIdx index ⊆ s.arrived :=
      fun r hr => h.pending (mem_of_mem_eraseIdx hr)
    unfold State.tryStart
    split
    · exact ⟨herase, h.timedOut⟩
    split
    · exact ⟨herase, h.timedOut⟩
    · exact ⟨cons_subset.2 ⟨h.pending (mem_of_getElem? hget), herase⟩, h.timedOut⟩
  | arrive hmode hfresh =>
    refine ⟨fun r hr => ?_, fun id hid => ?_⟩
    · rcases mem_append.1 hr with hr | hr
      · exact mem_append_left _ (h.pending hr)
      · exact mem_append_right _ hr
    · obtain ⟨request, hmem, hrest⟩ := h.timedOut id hid
      exact ⟨request, mem_append_left _ hmem, hrest⟩
  | stop hmode => exact ⟨nil_subset _, h.timedOut⟩
  | pass | choose | move | call | reply | release | abort => exact ⟨h.pending, h.timedOut⟩

theorem wait_not_timedOut {events : List GuestClient.Event} {s : State}
    (hrun : Run.Trace Next State.new events s) {id : Nat}
    (hwait : ⟨id, .processWait, none⟩ ∈ s.arrived) : id ∉ s.timedOut := by
  intro hmem
  obtain ⟨htracked, hpatient⟩ := hrun.invariant (I := fun _ s => Tracked s ∧ Patient s)
    ⟨tracked_new, nil_subset _, nofun⟩ fun _ _ _ _ ih hstep =>
      ⟨ih.1.step hstep, ih.2.step hstep⟩
  obtain ⟨request, hrequest, hid, hdeadline⟩ := hpatient.timedOut id hmem
  rw [inj_on_of_nodup_map htracked.fresh hrequest hwait hid] at hdeadline
  exact hdeadline rfl

/-- What the endpoint makes of an exit. -/
theorem commandAsync_healthy (uuid : Uuid) (exits : Option (Nat × ProcessExit)) :
    commandAsync (healthy uuid exits) = (exits.filter (·.1 ≤ replyDeadline)).elim (.error .timedOut)
      fun p => .ok (.processExited uuid p.2.exitCode p.2.signal) := by
  cases exits with
  | none => rfl
  | some p =>
    by_cases hle : p.1 ≤ replyDeadline <;>
      simp [commandAsync, healthy, readFrameWithDeadline, hle, Option.filter, Bind.bind, Except.bind]

/-- **Waits.**  In every run of the dispatcher, whatever deadlines pass, a wait on a healthy
connection ends with the status of the guest or the shutdown of the dispatcher, just if the exit
comes within the reply deadline where the wait is answered at all. -/
theorem wait_ends_with_exit_iff {events : List GuestClient.Event} {s : State}
    (hrun : Run.Trace Next State.new events s) (id : Nat)
    (hwait : ⟨id, .processWait, none⟩ ∈ s.arrived) (uuid : Uuid)
    (exits : Option (Nat × ProcessExit)) :
    (∀ result, s.wait id (healthy uuid exits) ⟨uuid, false⟩ = some result →
      (∃ p ∈ exits, result = .ok p.2) ∨ result = .error .shutdown) ↔
    (id ∈ s.answered → ∃ p ∈ exits, p.1 ≤ replyDeadline) := by
  rw [State.wait, State.response, if_neg (wait_not_timedOut hrun hwait), commandAsync_healthy]
  by_cases hanswered : id ∈ s.answered
  · rw [if_pos hanswered]
    cases exits with
    | none => simp [hanswered, Except.mapError, Replies.wait, expecting, requestExpect, Bind.bind,
        Except.bind]
    | some p =>
      by_cases hle : p.1 ≤ replyDeadline <;>
        simp [hanswered, hle, Option.filter, Except.mapError, Replies.wait, expecting,
          requestExpect, Bind.bind, Except.bind, Pure.pure, Except.pure]
  · refine iff_of_true (fun result hresult => .inr ?_) fun h => absurd h hanswered
    rw [if_neg hanswered] at hresult
    split at hresult <;> cases hresult
    rfl

/-- A wait arrives and is answered; the time of other deadlines passes. -/
def waiting : List GuestClient.Event :=
  [.startReady 0, .look, .arrive ⟨0, .processWait, none⟩, .startReady 9000, .look, .acquire, .call 0,
    .reply 0]

theorem short_wait_ends : ∃ s, Run.Trace Next State.new waiting s ∧
    s.wait 0 (healthy 1 (some (20, ⟨some 0, none⟩))) ⟨1, false⟩ = some (.ok ⟨some 0, none⟩) ∧
    ∀ result, s.wait 0 (healthy 1 (some (20, ⟨some 0, none⟩))) ⟨1, false⟩ = some result →
      (∃ p ∈ some (20, (⟨some 0, none⟩ : ProcessExit)), result = .ok p.2) ∨
        result = .error .shutdown := by
  have hrun : Run.Trace Next State.new waiting _ := Run.Trace.of_foldlM rfl
  exact ⟨_, hrun, rfl, (wait_ends_with_exit_iff hrun 0 (List.Mem.head []) 1 _).2
    fun _ => ⟨_, rfl, by decide⟩⟩

/-- The process exits after six seconds: the wait has failed by then. -/
theorem long_wait_cut_off : ∃ s, Run.Trace Next State.new waiting s ∧
    s.wait 0 (healthy 1 (some (6000, ⟨some 0, none⟩))) ⟨1, false⟩ = some (.error .transport) :=
  ⟨_, Run.Trace.of_foldlM rfl, rfl⟩

end Jyth.GuestClient
