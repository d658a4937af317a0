import Jyth.GuestClient.Dispatcher
import Jyth.Protocol.Wire

/-!
# Connections of one host to one guest

Every request in flight and every bound stream has a connection of its own
(`com::TcpEndpoint`).  The guest accepts connections one after another and keeps at
most `MAX_GUEST_CONNECTIONS` of them (`ConnectionAdmission` of `init/src/bus/dispatch.rs`);
one more is shut down at once.

    operations under way + handlers of ended ones ≤ MAX_GUEST_CONNECTIONS throughout
        → no more connections are open, and none is rejected     (host_within_admission)
-/

namespace Jyth.GuestClient

open Protocol (maxGuestConnections)

/-- What a connection was opened for: a request, or a `ProcessBind` or
`ProcessOutputBind` stream. -/
inductive Owner
  | request (id : Nat)
  | stream (id : Nat)
deriving DecidableEq

def Owner.isStream : Owner → Bool
  | .stream _ => true
  | .request _ => false

inductive GuestEnd
  /-- Not accepted yet. -/
  | backlog
  /-- Its handler holds a permit. -/
  | held
  | finished
deriving DecidableEq

/-- A connection with its two ends. -/
structure Connection where
  owner : Owner
  hostOpen : Bool
  guest : GuestEnd
deriving DecidableEq

namespace Connection

def inUse (connection : Connection) : Bool := connection.hostOpen || connection.guest ≠ .finished

def isHeld (connection : Connection) : Bool := connection.guest = .held

/-- The host drops its end. -/
def close (connection : Connection) : Connection := { connection with hostOpen := false }

end Connection

/-- The host's dispatcher and streams, with the guest's admission. -/
structure Bus where
  dispatcher : State
  /-- The connections in use. -/
  connections : List Connection
  /-- Everything a connection was ever opened for. -/
  opened : List Owner
  /-- The connections shut down by `ConnectionAdmission`. -/
  rejected : List Owner

namespace Bus

def new : Bus := ⟨State.new, [], [], []⟩

def inCall (dispatcher : State) : Owner → Bool
  | .request id => dispatcher.tasks.any fun task => task.request.id = id && task.stage = .called
  | .stream _ => true

/-- What happens between the two. -/
inductive Event
  | dispatch (event : GuestClient.Event)
  /-- The call of a task opens its connection. -/
  | connect (k : Nat)
  | bind (id : Nat)
  /-- A stream is dropped. -/
  | unbind (id : Nat)
  | accept (k : Nat)
  /-- The handler of a connection ends. -/
  | finish (k : Nat)
deriving DecidableEq

variable (bus : Bus)

def openFor (owner : Owner) : Option Bus :=
  if owner ∈ bus.opened then none
  else some { bus with
    connections := bus.connections ++ [⟨owner, true, .backlog⟩]
    opened := bus.opened ++ [owner] }

def closeIf (chosen : Owner → Bool) : List Connection :=
  (bus.connections.map fun connection =>
    if chosen connection.owner then connection.close else connection).filter (·.inUse)

def setGuest (k : Nat) (connection : Connection) (guest : GuestEnd) : List Connection :=
  (bus.connections.set k { connection with guest := guest }).filter (·.inUse)

def openCount : Nat := bus.connections.countP (·.hostOpen)

def heldCount : Nat := bus.connections.countP (·.isHeld)

def step : Event → Option Bus
  | .dispatch event =>
    (bus.dispatcher.step event).map fun dispatcher =>
      { bus with
        dispatcher := dispatcher
        connections := bus.closeIf fun owner => ! inCall dispatcher owner }
  | .connect k =>
    (bus.dispatcher.tasks[k]?).bind fun task =>
      if task.stage = .called then bus.openFor (.request task.request.id) else none
  | .bind id => bus.openFor (.stream id)
  | .unbind id => some { bus with connections := bus.closeIf (· = .stream id) }
  | .accept k =>
    (bus.connections[k]?).bind fun connection =>
      if connection.guest ≠ .backlog then none
      else if bus.heldCount < maxGuestConnections then
        some { bus with connections := bus.setGuest k connection .held }
      else
        some { bus with
          connections := bus.setGuest k connection .finished
          rejected := bus.rejected ++ [connection.owner] }
  | .finish k =>
    (bus.connections[k]?).bind fun connection =>
      if connection.guest = .held then
        some { bus with connections := bus.setGuest k connection .finished }
      else none

/-- The tasks of the dispatcher, whatever their lane and stage, and the bound streams. -/
def operations : Nat :=
  bus.dispatcher.tasks.length +
    bus.connections.countP fun connection => connection.hostOpen && connection.owner.isStream

/-- The connections the host has dropped and the guest has not finished. -/
def lingering : Nat := bus.connections.countP fun connection => ! connection.hostOpen

/-- The load that the guest's permits are enough for. -/
def Calm : Prop := bus.operations + bus.lingering ≤ maxGuestConnections

instance : Decidable bus.Calm := inferInstanceAs (Decidable (_ ≤ _))

/-! ## Connections and operations -/

/-- No two connections were opened for one operation, and one that is open at the host is that
of a call or a stream. -/
structure Accounted (bus : Bus) : Prop where
  once : bus.opened.Nodup
  owners : (bus.connections.map (·.owner)).Sublist bus.opened
  inCall : ∀ connection ∈ bus.connections, connection.hostOpen = true →
    inCall bus.dispatcher connection.owner = true

open List Option

namespace Accounted

variable {bus : Bus} (h : Accounted bus)
include h

theorem closeIf (chosen : Owner → Bool) (dispatcher : State)
    (hchosen : ∀ connection ∈ bus.connections, connection.hostOpen = true →
      chosen connection.owner = false → Bus.inCall dispatcher connection.owner = true) :
    Accounted { bus with dispatcher := dispatcher, connections := bus.closeIf chosen } := by
  refine ⟨h.once, ?_, fun connection hmem hopen => ?_⟩
  · refine ((filter_sublist).map _).trans ?_
    have howners : (bus.connections.map fun connection =>
        if chosen connection.owner then connection.close else connection).map (·.owner) =
          bus.connections.map (·.owner) := by
      rw [List.map_map]
      refine map_congr_left fun connection _ => ?_
      simp only [Function.comp_apply]
      split <;> rfl
    rw [howners]
    exact h.owners
  · obtain ⟨old, hold, rfl⟩ := mem_map.1 (mem_of_mem_filter hmem)
    cases hc : chosen old.owner with
    | true =>
      simp only [hc, if_true] at hopen
      cases hopen
    | false =>
      simp only [hc, Bool.false_eq_true, if_false] at hopen ⊢
      exact hchosen old hold hopen hc

theorem openFor {owner : Owner} {bus' : Bus} (howner : Bus.inCall bus.dispatcher owner = true)
    (hopen : bus.openFor owner = some bus') : Accounted bus' := by
  obtain ⟨hnew, heq⟩ := ite_none_left_eq_some.1 hopen
  cases heq
  refine ⟨nodup_snoc h.once hnew, ?_, fun connection hmem hhost => ?_⟩
  · rw [map_append]
    exact h.owners.append (List.Sublist.refl _)
  · rcases mem_append.1 hmem with hold | hlast
    · exact h.inCall connection hold hhost
    · rw [mem_singleton.1 hlast]
      exact howner

theorem setGuest {k : Nat} {connection : Connection}
    (hget : bus.connections[k]? = some connection) (guest : GuestEnd) (rejected : List Owner) :
    Accounted { bus with connections := bus.setGuest k connection guest, rejected := rejected } := by
  have hsame : (bus.connections.map (·.owner))[k]? = some connection.owner := by simp [hget]
  obtain ⟨hlt, heq⟩ := List.getElem?_eq_some_iff.1 hsame
  refine ⟨h.once, ?_, fun other hmem hopen => ?_⟩
  · refine ((filter_sublist).map _).trans ?_
    rw [map_set, ← heq, set_getElem_self]
    exact h.owners
  · rcases mem_or_eq_of_mem_set (mem_of_mem_filter hmem) with hold | rfl
    · exact h.inCall other hold hopen
    · exact h.inCall connection (mem_of_getElem? hget) hopen

theorem step {bus' : Bus} {event : Event} (hstep : bus.step event = some bus') : Accounted bus' := by
  cases event with
  | dispatch event =>
    obtain ⟨dispatcher, -, rfl⟩ := map_eq_some_iff.1 hstep
    exact h.closeIf _ dispatcher fun _ _ _ hcall => Bool.not_eq_false' .. ▸ hcall
  | connect k =>
    obtain ⟨task, hget, hrest⟩ := bind_eq_some_iff.1 hstep
    obtain ⟨hcalled, hopen⟩ := ite_none_right_eq_some.1 hrest
    have hcall : Bus.inCall bus.dispatcher (.request task.request.id) = true :=
      any_eq_true.2 ⟨task, mem_of_getElem? hget, by simp [hcalled]⟩
    exact h.openFor hcall hopen
  | bind id => exact h.openFor rfl hstep
  | unbind id =>
    cases hstep
    exact h.closeIf _ _ fun connection hmem hopen _ => h.inCall connection hmem hopen
  | accept k =>
    obtain ⟨connection, hget, hrest⟩ := bind_eq_some_iff.1 hstep
    obtain ⟨-, hrest⟩ := ite_none_left_eq_some.1 hrest
    split at hrest <;> cases hrest <;> exact h.setGuest hget _ _
  | finish k =>
    obtain ⟨connection, hget, hrest⟩ := bind_eq_some_iff.1 hstep
    obtain ⟨-, heq⟩ := ite_none_right_eq_some.1 hrest
    cases heq
    exact h.setGuest hget _ _

/-- Each open connection of a request belongs to another task. -/
theorem openCount_le : bus.openCount ≤ bus.operations := by
  let requests := bus.connections.filter fun c => c.hostOpen && ! c.owner.isStream
  have hsplit : bus.openCount = requests.length +
      bus.connections.countP fun c => c.hostOpen && c.owner.isStream := by
    rw [openCount, countP_eq_countP_filter_add _ _ fun c : Connection => c.owner.isStream,
      countP_filter, countP_filter, ← countP_eq_length_filter, Nat.add_comm]
  have hnodup : (requests.map (·.owner)).Nodup :=
    ((filter_sublist.map _).trans h.owners).nodup h.once
  have hsub : requests.map (·.owner) ⊆
      bus.dispatcher.tasks.map fun task => Owner.request task.request.id := by
    intro owner hmem
    obtain ⟨connection, hconnection, rfl⟩ := mem_map.1 hmem
    obtain ⟨hmem, hopen⟩ := mem_filter.1 hconnection
    obtain ⟨hhost, hrequest⟩ := Bool.and_eq_true_iff.1 hopen
    have hcall := h.inCall connection hmem hhost
    cases howner : connection.owner with
    | stream id => simp [howner, Owner.isStream] at hrequest
    | request id =>
      rw [howner] at hcall
      obtain ⟨task, htask, heq⟩ := any_eq_true.1 hcall
      refine mem_map.2 ⟨task, htask, ?_⟩
      simp only [Bool.and_eq_true, decide_eq_true_eq] at heq
      rw [heq.1]
  have hlength := (hnodup.subperm hsub).length_le
  rw [length_map, length_map] at hlength
  rw [hsplit, operations]
  omega

theorem length_le : bus.connections.length ≤ bus.operations + bus.lingering := by
  have hsplit := length_eq_countP_add_countP (fun c : Connection => c.hostOpen)
    (l := bus.connections)
  have hopen := h.openCount_le
  unfold openCount at hopen
  unfold lingering
  simp only [Bool.not_eq_true, Bool.decide_eq_false] at hsplit
  omega

end Accounted

/-! ## The bound -/

variable {bus}

theorem heldCount_lt {k : Nat} {connection : Connection}
    (hget : bus.connections[k]? = some connection) (hbacklog : connection.guest = .backlog) :
    bus.heldCount < bus.connections.length := by
  refine lt_of_le_of_ne countP_le_length fun hall => ?_
  have hheld := countP_eq_length.1 hall connection (mem_of_getElem? hget)
  simp [Connection.isHeld, hbacklog] at hheld

theorem rejected_step {bus' : Bus} {event : Event} (h : Accounted bus) (hcalm : bus.Calm)
    (hstep : bus.step event = some bus') : bus'.rejected = bus.rejected := by
  cases event with
  | dispatch event =>
    obtain ⟨dispatcher, -, rfl⟩ := map_eq_some_iff.1 hstep
    rfl
  | connect k =>
    obtain ⟨task, -, hrest⟩ := bind_eq_some_iff.1 hstep
    obtain ⟨-, heq⟩ := ite_none_left_eq_some.1 (ite_none_right_eq_some.1 hrest).2
    cases heq
    rfl
  | bind id =>
    obtain ⟨-, heq⟩ := ite_none_left_eq_some.1 hstep
    cases heq
    rfl
  | unbind id =>
    cases hstep
    rfl
  | accept k =>
    obtain ⟨connection, hget, hrest⟩ := bind_eq_some_iff.1 hstep
    obtain ⟨hbacklog, hrest⟩ := ite_none_left_eq_some.1 hrest
    have hheld := (heldCount_lt hget (not_not.1 hbacklog)).trans_le (h.length_le.trans hcalm)
    rw [if_pos hheld] at hrest
    cases hrest
    rfl
  | finish k =>
    obtain ⟨connection, -, hrest⟩ := bind_eq_some_iff.1 hstep
    obtain ⟨-, heq⟩ := ite_none_right_eq_some.1 hrest
    cases heq
    rfl

/-- If the operations under way and the handlers the guest has not ended are never more than
`MAX_GUEST_CONNECTIONS` together, the host never has more connections open and the guest rejects
none. -/
theorem host_within_admission {events : List Event} {bus : Bus}
    (h : Run.Trace (fun b event b' => b.step event = some b' ∧ b'.Calm) new events bus) :
    bus.openCount ≤ maxGuestConnections ∧ bus.rejected = [] := by
  have hnew : Accounted new := ⟨nodup_nil, List.Sublist.refl [], fun _ hmem => nomatch hmem⟩
  obtain ⟨haccounted, hcalm, hrejected⟩ : Accounted bus ∧ bus.Calm ∧ bus.rejected = [] :=
    h.invariant (I := fun _ b => Accounted b ∧ b.Calm ∧ b.rejected = [])
      ⟨hnew, by decide, rfl⟩
      fun _ _ _ _ ih hstep => ⟨ih.1.step hstep.1, hstep.2,
        (rejected_step ih.1 ih.2.1 hstep.1).trans ih.2.2⟩
  exact ⟨haccounted.openCount_le.trans ((Nat.le_add_right _ _).trans hcalm), hrejected⟩

def requestAndStream : List Event :=
  (.startReady 0 :: .look :: startAtOnce 0).map .dispatch ++
    [.bind 0, .dispatch (.call 0), .connect 0, .accept 0, .accept 1, .dispatch (.reply 0),
      .finish 1, .unbind 0]

theorem requestAndStream_admitted : ∃ bus,
    Run.Trace (fun b event b' => b.step event = some b') new requestAndStream bus ∧
      bus.openCount ≤ maxGuestConnections ∧ bus.rejected = [] := by
  have hrun : (requestAndStream.foldlM
      (fun (b : Bus) event => (b.step event).filter (·.Calm)) new).isSome = true := by
    decide
  obtain ⟨bus, hbus⟩ := isSome_iff_exists.1 hrun
  have hcalm : Run.Trace (fun b event b' => b.step event = some b' ∧ b'.Calm) new
      requestAndStream bus := (Run.Trace.of_foldlM hbus).mono fun _ _ _ hstep => by
    obtain ⟨hstep, hcalm⟩ := filter_eq_some_iff.1 hstep
    exact ⟨hstep, of_decide_eq_true hcalm⟩
  exact ⟨bus, hcalm.mono fun _ _ _ hstep => hstep.1, host_within_admission hcalm⟩

def startWait (id : Nat) : List GuestClient.Event :=
  [.arrive ⟨id, .processWait, none⟩, .startReady 0, .look, .acquire, .look]

/-- A full ordinary lane and one `ProcessWait`, all of them connected. -/
def fullLaneAndWait : List Event :=
  (.startReady 0 :: .look :: ((range 32).flatMap startAtOnce ++ startWait 32)).map .dispatch ++
    (range 33).flatMap (fun k => [.dispatch (.call k), .connect k]) ++
    (range 33).map .accept

theorem process_wait_rejected : ∃ bus,
    Run.Trace (fun b event b' => b.step event = some b') new fullLaneAndWait bus ∧
      maxGuestConnections < bus.openCount ∧ bus.rejected = [.request 32] := by
  have hrun : (fullLaneAndWait.foldlM step new).any (fun bus =>
      maxGuestConnections < bus.openCount && bus.rejected = [.request 32]) = true := by
    decide +kernel
  obtain ⟨bus, hbus, hcounts⟩ := (any_eq_true _ _).1 hrun
  rw [Bool.and_eq_true, decide_eq_true_eq, decide_eq_true_eq] at hcounts
  exact ⟨bus, Run.Trace.of_foldlM hbus, hcounts⟩

end Bus

end Jyth.GuestClient
