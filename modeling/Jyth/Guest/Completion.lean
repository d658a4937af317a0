import Jyth.Lib.Run

/-!
# Completions

`Completion` of `init/src/components/process_manager.rs`: any number of tasks record the
result of a process and any number wait for it.

A step is one access to what they share.  The mutex is left out: without it there are
more interleavings, and `completion_sound` holds for all of them.  Of `Notify` it is
assumed that `notify_waiters` wakes just the futures made before it and keeps no permit.
-/

namespace Jyth.Guest

open Run Function

inductive Recorder (α : Type)
  | idle
  /-- in `record` -/
  | called (result : α)
  /-- between the store and `notify_waiters` -/
  | stored
deriving DecidableEq

/-- A call of `wait`.  `woken`: its `Notified` was notified. -/
inductive Waiter (α : Type)
  | entering
  /-- `notified` is made and enabled, the result not looked at -/
  | subscribed (woken : Bool)
  /-- there was no result -/
  | unanswered (woken : Bool)
  /-- in `notified.await` -/
  | parked (woken : Bool)
  | returned (result : α)
deriving DecidableEq

/-- The cell, with its recorders and waiters. -/
structure Completion (α : Type) where
  result : Option α
  recorders : Nat → Recorder α
  waiters : Nat → Waiter α

/-- One atomic access to the cell. -/
inductive Access (α : Type)
  | record (i : Nat) (result : α)
  | store (i : Nat)
  | notify (i : Nat)
  | subscribe (i : Nat)
  | look (i : Nat)
  | park (i : Nat)
  | resume (i : Nat)

variable {α : Type}

def Waiter.wake : Waiter α → Waiter α
  | subscribed _ => subscribed true
  | unanswered _ => unanswered true
  | parked _ => parked true
  | waiter => waiter

namespace Completion

def new : Completion α := ⟨none, fun _ => .idle, fun _ => .entering⟩

def setRecorder (s : Completion α) (i : Nat) (recorder : Recorder α) : Completion α :=
  { s with recorders := Function.update s.recorders i recorder }

def setWaiter (s : Completion α) (i : Nat) (waiter : Waiter α) : Completion α :=
  { s with waiters := Function.update s.waiters i waiter }

def access (s : Completion α) : Access α → Option (Completion α)
  | .record i result =>
    match s.recorders i with
    | .idle => some (s.setRecorder i (.called result))
    | _ => none
  | .store i =>
    match s.recorders i, s.result with
    | .called result, none => some { s.setRecorder i .stored with result := some result }
    | .called _, some _ => some (s.setRecorder i .idle)
    | _, _ => none
  | .notify i =>
    match s.recorders i with
    | .stored => some { s.setRecorder i .idle with waiters := fun k => (s.waiters k).wake }
    | _ => none
  | .subscribe i =>
    match s.waiters i with
    | .entering => some (s.setWaiter i (.subscribed false))
    | _ => none
  | .look i =>
    match s.waiters i, s.result with
    | .subscribed _, some result => some (s.setWaiter i (.returned result))
    | .subscribed woken, none => some (s.setWaiter i (.unanswered woken))
    | _, _ => none
  | .park i =>
    match s.waiters i with
    | .unanswered woken => some (s.setWaiter i (.parked woken))
    | _ => none
  | .resume i =>
    match s.waiters i with
    | .parked true => some (s.setWaiter i .entering)
    | _ => none

/-- Waits and has not been woken. -/
def Unaware : Waiter α → Prop
  | .unanswered woken | .parked woken => woken = false
  | _ => False

/-- A result is recorded only with a notification on its way to whoever missed it, and
returned only as recorded. -/
structure Sound (s : Completion α) : Prop where
  noticed : s.result ≠ none → ∀ i, Unaware (s.waiters i) → ∃ j, s.recorders j = .stored
  agreed : ∀ i r, s.waiters i = .returned r → s.result = some r

theorem not_unaware_wake (waiter : Waiter α) : ¬ Unaware waiter.wake := by
  cases waiter <;> simp [Waiter.wake, Unaware]

variable {s : Completion α} {waiter : Waiter α} {i : Nat}

theorem wake_eq_returned {r : α} : waiter.wake = .returned r ↔ waiter = .returned r := by
  cases waiter <;> simp [Waiter.wake]

theorem Sound.setRecorder (h : s.Sound) {recorder : Recorder α}
    (hi : s.recorders i ≠ .stored) : (s.setRecorder i recorder).Sound := by
  refine ⟨fun hresult k hk => ?_, h.agreed⟩
  obtain ⟨j, hj⟩ := h.noticed hresult k hk
  have hne : j ≠ i := fun heq => hi (heq ▸ hj)
  exact ⟨j, (update_of_ne hne _ _).trans hj⟩

theorem Sound.setWaiter (h : s.Sound)
    (haware : s.result ≠ none → Unaware waiter → Unaware (s.waiters i))
    (hagreed : ∀ r, waiter = .returned r → s.result = some r) : (s.setWaiter i waiter).Sound := by
  constructor
  · intro hresult k hk
    by_cases hki : k = i
    · subst hki
      simp only [Completion.setWaiter, update_self] at hk
      exact h.noticed hresult k (haware hresult hk)
    · simp only [Completion.setWaiter, update_of_ne hki] at hk
      exact h.noticed hresult k hk
  · intro k r hk
    by_cases hki : k = i
    · subst hki
      simp only [Completion.setWaiter, update_self] at hk
      exact hagreed r hk
    · simp only [Completion.setWaiter, update_of_ne hki] at hk
      exact h.agreed k r hk

theorem Sound.access {s' : Completion α} (h : s.Sound) {a : Access α}
    (hstep : s.access a = some s') : s'.Sound ∧ ∀ r, s.result = some r → s'.result = some r := by
  cases a with
  | record i result =>
    simp only [Completion.access] at hstep
    split at hstep <;> cases hstep
    exact ⟨h.setRecorder (by simp [*]), fun _ => id⟩
  | store i =>
    simp only [Completion.access] at hstep
    split at hstep <;> cases hstep
    case h_1 result hi hnone =>
      -- the first result: the recorder is about to notify
      refine ⟨⟨fun _ _ _ => ⟨i, update_self _ _ _⟩, fun k r hk => ?_⟩, fun r hr => ?_⟩
      · cases hnone.symm.trans (h.agreed k r hk)
      · cases hnone.symm.trans hr
    case h_2 hi _ => exact ⟨h.setRecorder (by simp [hi]), fun _ => id⟩
  | notify i =>
    simp only [Completion.access] at hstep
    split at hstep <;> cases hstep
    exact ⟨⟨fun _ k hk => absurd hk (not_unaware_wake _),
      fun k r hk => h.agreed k r (wake_eq_returned.1 hk)⟩, fun _ => id⟩
  | subscribe i | resume i =>
    simp only [Completion.access] at hstep
    split at hstep <;> cases hstep
    exact ⟨h.setWaiter (fun _ => False.elim) nofun, fun _ => id⟩
  | look i =>
    simp only [Completion.access] at hstep
    split at hstep <;> cases hstep
    case h_1 result _ hresult =>
      refine ⟨h.setWaiter (fun _ => False.elim) fun r hr => ?_, fun _ => id⟩
      cases hr
      exact hresult
    case h_2 hnone => exact ⟨h.setWaiter (fun hresult => absurd hnone hresult) nofun, fun _ => id⟩
  | park i =>
    simp only [Completion.access] at hstep
    split at hstep <;> cases hstep
    case h_1 hi => exact ⟨h.setWaiter (fun _ hpark => hi ▸ hpark) nofun, fun _ => id⟩

/-- **Exit completion.**  In every interleaving the first recorded result stays, a waiter
returns that result only, and no waiter is parked without a notification once there is
a result, except while its recorder is about to notify. -/
theorem completion_sound (before after : List (Access α)) (s s' : Completion α)
    (hs : Trace (fun s a s' => access s a = some s') new before s)
    (hs' : Trace (fun s a s' => access s a = some s') s after s') :
    (∀ r, s.result = some r → s'.result = some r) ∧
    (∀ i r, s.waiters i = .returned r → s'.result = some r) ∧
    (s.result ≠ none → ∀ i, s.waiters i = .parked false → ∃ j, s.recorders j = .stored) := by
  have hsound : s.Sound :=
    hs.invariant (I := fun _ s => s.Sound) ⟨fun h => absurd rfl h, nofun⟩
      fun _ _ _ _ h hstep => (h.access hstep).1
  have hkept : s'.Sound ∧ ∀ r, s.result = some r → s'.result = some r :=
    hs'.invariant (I := fun _ s' => s'.Sound ∧ ∀ r, s.result = some r → s'.result = some r)
      ⟨hsound, fun _ => id⟩ fun _ _ _ _ h hstep =>
        ⟨(h.1.access hstep).1, fun r hr => (h.1.access hstep).2 r (h.2 r hr)⟩
  refine ⟨hkept.2, fun i r hi => hkept.2 r (hsound.agreed i r hi), fun hresult i hi => ?_⟩
  exact hsound.noticed hresult i (hi ▸ rfl)

/-- A waiter subscribes and finds nothing, the result is recorded, and it returns. -/
def lateResult : List (Access Nat) :=
  [.subscribe 0, .look 0, .record 0 7, .store 0, .park 0, .notify 0, .resume 0, .subscribe 0, .look 0]

theorem late_result_delivered : ∃ s : Completion Nat,
    lateResult.foldlM access new = some s ∧ s.waiters 0 = .returned 7 ∧ s.result = some 7 := by
  refine ⟨_, rfl, rfl, ?_⟩
  exact (completion_sound lateResult [] _ _ (Trace.of_foldlM rfl) .nil).2.1 0 7 rfl

end Completion

end Jyth.Guest
