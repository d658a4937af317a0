import Jyth.Protocol.Wire

/-!
# Observers and shutdown

`observer.rs`, `shutdown_action` and `LiveVm::shutdown` of `jyth-runtime`.  A lifecycle is
a watch channel: an observer sees the latest state only, at the moments it looks.  The
states are published by the launch, by a scheduled shutdown and by an explicit one; the
first terminal state is kept.
-/

namespace Jyth.Observer

open List Protocol

inductive VmFinish
  | shutdown | dropped
deriving DecidableEq

inductive VmPhase
  | launch | shutdown
deriving DecidableEq

structure VmFailure where
  phase : VmPhase
  message : String
deriving DecidableEq

/-- The published state of a VM. -/
inductive VmState
  | pending | launching | running
  | finished (finish : VmFinish)
  | failed (failure : VmFailure)
deriving DecidableEq

namespace VmState

def isTerminal : VmState → Bool
  | finished _ | failed _ => true
  | _ => false

def set (current next : VmState) : VmState := if current.isTerminal then current else next

def retained (history : List VmState) : VmState := history.foldl set pending

end VmState

open VmState (retained)

/-! ## `started` -/

/-- One round of the loop. -/
def look : VmState → Option (Except VmFailure Unit)
  | .running | .finished _ => some (.ok ())
  | .failed failure => some (.error failure)
  | .pending | .launching => none

def closedFailure : VmFailure := ⟨.launch, "VM lifecycle sender closed before launch completed"⟩

def startedFromClosed (state : VmState) : Except VmFailure Unit :=
  (look state).getD (.error closedFailure)

/-- The observer looks when this many states have been published, and once more when the
channel is closed. -/
def started (history : List VmState) (moments : List Nat) : Except VmFailure Unit :=
  (moments.findSome? fun n => look (retained (history.take n))).getD
    (startedFromClosed (retained history))

/-- The publications of a launch.  `scheduled`: those of a shutdown action before the launch
returns.  `ends`: all later ones. -/
def launch (scheduled : List VmState) (outcome : Except String Unit) (ends : List VmState) :
    List VmState :=
  .launching :: scheduled ++ match outcome with
    | .ok _ => .running :: ends
    | .error message => [.failed ⟨.launch, message⟩]

theorem retained_append (history more : List VmState) (h : (retained history).isTerminal = true) :
    retained (history ++ more) = retained history := by
  rw [retained, foldl_append]
  change more.foldl _ (retained history) = _
  induction more with
  | nil => rfl
  | cons next more ih => rw [foldl_cons, VmState.set, if_pos h, ih]

theorem retained_concat {history : List VmState} (h : (retained history).isTerminal = false)
    (next : VmState) : retained (history ++ [next]) = next := by
  rw [retained, foldl_append]
  exact if_neg (by rw [← retained, h]; exact Bool.false_ne_true)

/-- Behind a launch that succeeded, the first publication decides. -/
theorem look_finished {history ends : List VmState} (hopen : (retained history).isTerminal = false)
    (hends : ∀ s, ends.head? = some s → ∃ finish, s = .finished finish) :
    look (retained (history ++ .running :: ends)) = some (.ok ()) := by
  have hrunning := retained_concat hopen .running
  cases ends with
  | nil =>
    rw [hrunning]
    rfl
  | cons last ends =>
    obtain ⟨finish, rfl⟩ := hends last rfl
    have hfinished : retained (history ++ [.running] ++ [.finished finish]) = _ :=
      retained_concat (congrArg VmState.isTerminal hrunning) (.finished finish)
    have hall := retained_append _ ends (congrArg VmState.isTerminal hfinished)
    rw [hfinished, append_assoc, append_assoc] at hall
    exact congrArg look hall

theorem isTerminal_of_look {state : VmState} (h : look state = none) : state.isTerminal = false := by
  cases state <;> simp_all [look, VmState.isTerminal]

section Launch

variable {scheduled ends : List VmState} {outcome : Except String Unit}
  (hscheduled : ∀ n, look (retained ((.launching :: scheduled).take n)) = none)
  (hends : ∀ s, ends.head? = some s → ∃ finish, s = .finished finish)

include hscheduled

theorem retained_scheduled : (retained (.launching :: scheduled)).isTerminal = false := by
  have hlook := hscheduled (scheduled.length + 1)
  rw [take_of_length_le (by simp)] at hlook
  exact isTerminal_of_look hlook

theorem retained_running : retained ((launch scheduled (.ok ()) ends).take (scheduled.length + 2)) =
    .running := by
  unfold launch
  rw [take_append, take_of_length_le (by simp), length_cons,
    show scheduled.length + 2 - (scheduled.length + 1) = 1 by omega]
  exact retained_concat (retained_scheduled hscheduled) .running

include hends

/-- What an observer sees of a prefix: the outcome of the launch, once it is published. -/
theorem look_launch (n : Nat) : look (retained ((launch scheduled outcome ends).take n)) =
    if scheduled.length + 2 ≤ n then some (outcome.mapError (⟨.launch, ·⟩)) else none := by
  unfold launch
  rw [take_append]
  by_cases hn : scheduled.length + 2 ≤ n
  · obtain ⟨k, rfl⟩ := Nat.exists_eq_add_of_le hn
    rw [if_pos hn, take_of_length_le (by simp; omega), length_cons,
      show scheduled.length + 2 + k - (scheduled.length + 1) = k + 1 by omega]
    cases outcome with
    | error message =>
      rw [take_succ_cons, take_nil, retained_concat (retained_scheduled hscheduled)]
      rfl
    | ok _ =>
      refine look_finished (retained_scheduled hscheduled) fun s hs => hends s ?_
      cases k with
      | zero => cases hs
      | succ k => rwa [head?_take, if_neg (Nat.succ_ne_zero k)] at hs
  · rw [if_neg hn, length_cons, show n - (scheduled.length + 1) = 0 by omega, take_zero,
      append_nil]
    exact hscheduled n

/-- So the moments at which an observer looks do not matter. -/
theorem started_launch (now : Nat) (moments : List Nat) :
    started ((launch scheduled outcome ends).take now) moments =
      if scheduled.length + 2 ≤ now then outcome.mapError (⟨.launch, ·⟩)
      else .error closedFailure := by
  rw [started, startedFromClosed, look_launch hscheduled hends now]
  cases hfound : moments.findSome? _ with
  | none => split <;> rfl
  | some found =>
    obtain ⟨n, -, hn⟩ := exists_of_findSome?_eq_some hfound
    rw [take_take, look_launch hscheduled hends, Option.ite_none_right_eq_some] at hn
    have hnow : scheduled.length + 2 ≤ now := by omega
    rw [if_pos hnow, if_pos hnow, ← Option.some.inj hn.2]
    rfl

end Launch

/-- **Observers.**  A terminal state stays.  If the launch ends while nothing was to be seen of
it, and the first publication behind its success is no failure (later ones are ignored), an
observer of the history so far is told that the VM started just if it did, whenever it looks. -/
theorem started_iff_running (scheduled : List VmState) (outcome : Except String Unit)
    (ends : List VmState) (now : Nat)
    (hscheduled : ∀ n, look (retained ((.launching :: scheduled).take n)) = none)
    (hends : ∀ s, ends.head? = some s → ∃ finish, s = .finished finish) :
    (∀ history more : List VmState, (retained history).isTerminal = true →
      retained (history ++ more) = retained history) ∧
    ∀ moments, started ((launch scheduled outcome ends).take now) moments = .ok () ↔
      ∃ n ≤ now, retained ((launch scheduled outcome ends).take n) = .running := by
  refine ⟨retained_append, fun moments => ?_⟩
  rw [started_launch hscheduled hends]
  constructor
  · intro hok
    split at hok
    · next hnow =>
      cases outcome with
      | error message => cases hok
      | ok _ => exact ⟨scheduled.length + 2, hnow, retained_running hscheduled⟩
    · cases hok
  · rintro ⟨n, hn, hrunning⟩
    have hlook : look (retained ((launch scheduled outcome ends).take n)) = _ :=
      look_launch hscheduled hends n
    rw [hrunning] at hlook
    obtain ⟨hpublished, hanswer⟩ := Option.ite_none_right_eq_some.1 hlook.symm
    rw [if_pos (Nat.le_trans hpublished hn), Option.some.inj hanswer]

/-- A failure that is published behind the end is ignored. -/
theorem closed_vm_started : started (launch [] (.ok ()) [.finished .shutdown,
    .failed ⟨.shutdown, "hypervisor error"⟩]) [4] = .ok () := by
  refine ((started_iff_running [] (.ok ()) [.finished .shutdown, .failed _] 4 ?_ ?_).2 [4]).2
    ⟨2, by decide, rfl⟩
  · rintro (_ | n)
    · rfl
    · rw [take_succ_cons, take_nil]
      rfl
  · rintro s ⟨⟩
    exact ⟨_, rfl⟩

/-- A shutdown that fails is told to a late observer as a launch that failed. -/
theorem failed_shutdown_not_started :
    let history := launch [] (.ok ()) [.failed ⟨.shutdown, "hypervisor error"⟩]
    retained (history.take 2) = .running ∧ started history [2] = .ok () ∧
      started history [3] = .error ⟨.shutdown, "hypervisor error"⟩ := by
  decide

/-! ## Shutdown -/

section Shutdown

variable (kind : Event → String)

def shutdownAction : Except String Event → VmState
  | .ok .shutdowned => .finished .shutdown
  | .ok other => .failed ⟨.shutdown, "unexpected " ++ kind other ++ " reply to VMShutdown"⟩
  | .error message => .failed ⟨.shutdown, message⟩

/-- When the action publishes: before the launch returns, later, or while it is joined. -/
inductive Moment
  | early | later | joined
deriving DecidableEq

def publishedAt (scheduled : Option (Moment × Except String Event)) (moment : Moment) :
    List VmState :=
  ((scheduled.filter (·.1 = moment)).map fun action => shutdownAction kind action.2).toList

/-- The steps of `shutdown`. -/
inductive ShutdownStep
  | joinScheduler | joinCleanup | request | stopDispatcher | close
deriving DecidableEq

/-- `LiveVm`; `backend` is its instance, until it is taken. -/
structure LiveVm where
  backend : Bool
  scheduler : Bool
  published : List VmState
  steps : List ShutdownStep

namespace LiveVm

/-- A VM that is up; `others`: processes are scheduled too. -/
def new (scheduled : Option (Moment × Except String Event)) (others : Bool) : LiveVm :=
  ⟨true, scheduled.isSome || others, launch (publishedAt kind scheduled .early) (.ok ())
    (publishedAt kind scheduled .later), []⟩

def publish (vm : LiveVm) (states : List VmState) : LiveVm :=
  { vm with published := vm.published ++ states }

def perform (vm : LiveVm) (step : ShutdownStep) : LiveVm := { vm with steps := vm.steps ++ [step] }

def cancelAndJoinScheduler (vm : LiveVm) (scheduled : Option (Moment × Except String Event)) :
    LiveVm :=
  if vm.scheduler then
    { (vm.perform .joinScheduler).publish (publishedAt kind scheduled .joined) with scheduler := false }
  else vm

def drop (vm : LiveVm) : LiveVm :=
  if vm.backend then { (vm.perform .close).publish [.finished .dropped] with backend := false } else vm

end LiveVm

def guestResult : Except String Event → Except String Unit
  | .ok .shutdowned => .ok ()
  | .ok _ => .error "guest reply did not match the command sent"
  | .error _ => .error "shutdown failed or channel closed"

def shutdownState : Except String Unit → Except String Unit → VmState
  | .ok _, .ok _ => .finished .shutdown
  | .error guest, .ok _ => .failed ⟨.shutdown, guest⟩
  | .ok _, .error host => .failed ⟨.shutdown, host⟩
  | .error guest, .error host => .failed ⟨.shutdown,
      "host cleanup failed: " ++ host ++ "; guest shutdown failed: " ++ guest⟩

def LiveVm.shutdown (vm : LiveVm) (scheduled : Option (Moment × Except String Event))
    (reply : Except String Event) (close : Except String Unit) : Except String Unit × LiveVm :=
  let vm := (vm.cancelAndJoinScheduler kind scheduled).perform .joinCleanup
  let vm := (vm.perform .request).perform .stopDispatcher
  let guest := guestResult reply
  let (host, vm) := if vm.backend then
      (close.mapError fun _ => "hypervisor error", { vm.perform .close with backend := false })
    else (.ok (), vm)
  let result := if guest = .ok () ∧ host = .ok () then .ok ()
    else .error "shutdown failed or channel closed"
  (result, (vm.publish [shutdownState guest host]).drop)

theorem shutdownState_eq {guest host : Except String Unit} :
    shutdownState guest host = .finished .shutdown ↔ guest = .ok () ∧ host = .ok () := by
  cases guest <;> cases host <;> simp [shutdownState]

theorem guestResult_eq {reply : Except String Event} :
    guestResult reply = .ok () ↔ reply = .ok .shutdowned := by
  rcases reply with _ | reply
  · simp [guestResult]
  · cases reply <;> simp [guestResult]

theorem shutdownAction_eq (reply : Except String Event) :
    (shutdownAction kind reply).isTerminal = true ∧
      (shutdownAction kind reply = .finished .shutdown ↔ reply = .ok .shutdowned) := by
  rcases reply with _ | reply
  · simp [shutdownAction, VmState.isTerminal]
  · cases reply <;> simp [shutdownAction, VmState.isTerminal]

section Ended

variable (scheduled : Option (Moment × Except String Event)) (others : Bool)
  (reply : Except String Event) (close : Except String Unit)

theorem acknowledged_iff : guestResult reply = .ok () ∧
    close.mapError (fun _ => "hypervisor error") = .ok () ↔
      reply = .ok .shutdowned ∧ close = .ok () := by
  rw [guestResult_eq]
  cases close <;> simp [Except.mapError]

/-- The caller is told of the explicit request and of the close. -/
theorem shutdown_result : ((LiveVm.new kind scheduled others).shutdown kind scheduled reply
    close).1 = .ok () ↔ reply = .ok .shutdowned ∧ close = .ok () := by
  have hresult : ((LiveVm.new kind scheduled others).shutdown kind scheduled reply close).1 =
      if guestResult reply = .ok () ∧ close.mapError (fun _ => "hypervisor error") = .ok ()
      then .ok () else .error "shutdown failed or channel closed" := by
    cases scheduled <;> cases others <;> rfl
  rw [hresult, ← acknowledged_iff]
  split
  · next h => exact iff_of_true rfl h
  · next h => exact iff_of_false (by simp) h

/-- The observer is told of the scheduled shutdown, where there is one: it was first. -/
theorem shutdown_retained : retained ((LiveVm.new kind scheduled others).shutdown kind scheduled
    reply close).2.published = .finished .shutdown ↔
      scheduled.elim (reply = .ok .shutdowned ∧ close = .ok ()) (·.2 = .ok .shutdowned) := by
  rcases scheduled with _ | ⟨moment, answer⟩
  · rw [Option.elim_none, ← acknowledged_iff, ← shutdownState_eq]
    cases others <;> rfl
  · obtain ⟨hterminal, hfinished⟩ := shutdownAction_eq kind answer
    rw [Option.elim_some, ← hfinished]
    cases moment with
    | early => exact iff_of_eq (congrArg (· = _) (retained_append [.launching, _] [_, _] hterminal))
    | later | joined =>
      exact iff_of_eq (congrArg (· = _) (retained_append [.launching, .running, _] [_] hterminal))

end Ended

/-- **Ordered shutdown.**  In every case the instance is closed once, after the scheduler, the
pending closes and the dispatcher; the caller is told of the explicit request and of the close,
the observer of the scheduled shutdown where there is one.  So the two are told the same just if
these have one outcome, and an acknowledged shutdown succeeds with the close just if the explicit
request is acknowledged too. -/
theorem shutdown_ordered (scheduled : Option (Moment × Except String Event)) (others : Bool)
    (reply : Except String Event) (close : Except String Unit) :
    let ended := (LiveVm.new kind scheduled others).shutdown kind scheduled reply close
    ended.2.steps = (if scheduled.isSome || others then [.joinScheduler] else []) ++
      [.joinCleanup, .request, .stopDispatcher, .close] ∧
    (ended.1 = .ok () ↔ reply = .ok .shutdowned ∧ close = .ok ()) ∧
    (retained ended.2.published = .finished .shutdown ↔
      scheduled.elim (reply = .ok .shutdowned ∧ close = .ok ()) (·.2 = .ok .shutdowned)) ∧
    ((retained ended.2.published = .finished .shutdown ↔ ended.1 = .ok ()) ↔
      ∀ moment answer, scheduled = some (moment, answer) →
        (answer = .ok .shutdowned ↔ reply = .ok .shutdowned ∧ close = .ok ())) ∧
    (((reply = .ok .shutdowned ∨ ∃ moment, scheduled = some (moment, .ok .shutdowned)) →
        close = .ok () → ended.1 = .ok ()) ↔
      ((∃ moment, scheduled = some (moment, .ok .shutdowned)) → close = .ok () →
        reply = .ok .shutdowned)) := by
  intro ended
  have hresult := shutdown_result kind scheduled others reply close
  have hretained := shutdown_retained kind scheduled others reply close
  refine ⟨by cases scheduled <;> cases others <;> rfl, hresult, hretained, ?_, ?_⟩
  · rw [hretained, hresult]
    rcases scheduled with _ | ⟨moment, answer⟩
    · exact ⟨fun _ => nofun, fun _ => Iff.rfl⟩
    · exact ⟨fun h _ _ heq => by cases heq; exact h, fun h => h moment answer rfl⟩
  · rw [hresult]
    exact ⟨fun h hscheduled hclose => (h (.inr hscheduled) hclose).1,
      fun h hone hclose => ⟨hone.elim id fun hscheduled => h hscheduled hclose, hclose⟩⟩

/-- A guest that has acknowledged the scheduled shutdown is gone when it is asked again. -/
theorem second_shutdown_fails : let scheduled := some (Moment.later, .ok .shutdowned)
    let ended := (LiveVm.new (fun _ => "") scheduled false).shutdown (fun _ => "") scheduled
      (.error "guest request failed") (.ok ())
    retained ended.2.published = .finished .shutdown ∧ ended.1 ≠ .ok () := by
  decide

end Shutdown

end Jyth.Observer
