import Jyth.Com.Framing
import Jyth.Protocol.Wire

/-!
# The typed operations of the host

`guest-client/src/files.rs`, the requests of `process.rs`, and `bind_async` of
`com/src/rpc.rs`.  Each sends a command or two and looks at the event it gets back.

An operation is to succeed only with the event that answers its command, on the path or
process it named (`Command.answeredBy`).  `spawn`, `wait` and the two halves of `close`
compare the UUID, but `close` takes `Shutdowned` for the answer to `ProcessStop`; the
others look at the kind of the event only, so that they rest on the names the guest replies
(`replies_correlated_iff`).
-/

namespace Jyth.GuestClient

open Protocol Com Format

/-! ## A guest process as the host sees it -/

inductive OutputStream
  | stdout | stderr
deriving DecidableEq

structure ProcessExit where
  exitCode : Option Int
  signal : Option Int
deriving DecidableEq

def ProcessExit.success (exit : ProcessExit) : Bool :=
  exit.exitCode = some 0 && exit.signal.isNone

/-- `ProcessError`; a timeout is in seconds. -/
inductive ProcessError
  | unpreparedExecutable
  | spawn (message : String)
  | wait (message : String)
  | cleanup (message : String)
  | output (stream : OutputStream) (message : String) (cleanupError : Option String)
  | outputLimitExceeded (stream : OutputStream) (limit : Nat) (cleanupError : Option String)
  | outputAllocationFailed (stream : OutputStream) (requested : Nat)
      (cleanupError : Option String)
  | unsuccessfulExit (exit : ProcessExit)
  | timedOut (after : Nat) (cleanupError : Option String)
  | cancelled (cleanupError : Option String)
  | outputUnavailable
deriving DecidableEq

/-! ## Errors -/

/-- The codes of guest errors are kept as numbers. -/
inductive GuestClientError
  | transport
  | requestTimedOut
  | guest (code : Nat) (message : String)
  | unexpectedReply
  | shutdown
  | invalidState
  | processClose
  | bind
deriving DecidableEq

/-- What the layers below give back: the dispatcher for a command, the endpoint of a
stream for a bind (nothing, if it takes longer than `REQUEST_TIMEOUT`). -/
structure Replies where
  request : Command → Except GuestClientError Protocol.Event
  bind : Command → Option (Except TransportError Protocol.Event)

/-- `PreparedProcessBuilder`, without its channels. -/
structure PreparedProcessBuilder where
  path : String
  args : List String
  envs : List (String × String)
  cwd : Option String
  stdout : ProcessStdio
  stderr : ProcessStdio

def PreparedProcessBuilder.command (b : PreparedProcessBuilder) (uuid : Uuid) : Command :=
  .processStart uuid b.path b.args b.envs b.cwd b.stdout b.stderr

/-- A handle to a process in the guest. -/
structure RunningProcess where
  uuid : Uuid
  closed : Bool
deriving DecidableEq

namespace Replies

variable (self : Replies)

/-! ### Algorithm -/

def requestExpect (cmd : Command) : Except GuestClientError Protocol.Event := do
  match ← self.request cmd with
  | .error code msg => .error (.guest code msg)
  | event => pure event

/-- The operations that send one command and take one kind of event. -/
def expecting {α : Type} (cmd : Command) (pick : Protocol.Event → Option α) :
    Except GuestClientError α := do
  match pick (← self.requestExpect cmd) with
  | some a => pure a
  | none => .error .unexpectedReply

def fileRead (path : String) : Except GuestClientError (List UInt8) :=
  self.expecting (.fileRead path) fun | .fileRead _ data => some data | _ => none

def fileWrite (path : String) (data : List UInt8) : Except GuestClientError Unit :=
  self.expecting (.fileWrite path data) fun | .fileWritten _ => some () | _ => none

def fileRemove (path : String) : Except GuestClientError Unit :=
  self.expecting (.fileRemove path) fun | .fileRemoved _ => some () | _ => none

def dirCreate (path : String) : Except GuestClientError Unit :=
  self.expecting (.dirCreate path) fun | .dirCreated _ => some () | _ => none

def dirRemove (path : String) : Except GuestClientError Unit :=
  self.expecting (.dirRemove path) fun | .dirRemoved _ => some () | _ => none

def dirRead (path : String) : Except GuestClientError (List String) :=
  self.expecting (.dirRead path) fun | .dirRead _ entries => some entries | _ => none

def spawn (builder : PreparedProcessBuilder) (uuid : Uuid) :
    Except GuestClientError RunningProcess :=
  self.expecting (builder.command uuid) fun
    | .processStarted reply => if reply = uuid then some { uuid, closed := false } else none
    | _ => none

/-- `wait`; the error event is told apart here, not by `request_expect`. -/
def wait (process : RunningProcess) : Except GuestClientError ProcessExit :=
  if process.closed then .error .invalidState
  else self.expecting (.processWait process.uuid) fun
    | .processExited uuid exitCode signal =>
      if uuid = process.uuid then some { exitCode, signal } else none
    | _ => none

/-- One half of `close`. -/
def accepting (cmd : Command) (accept : Protocol.Event → Bool) : Except GuestClientError Unit :=
  match self.requestExpect cmd with
  | .ok event => if accept event then .ok () else .error .unexpectedReply
  | .error _ => .error .processClose

def close (process : RunningProcess) : Except GuestClientError RunningProcess :=
  if process.closed then .ok process
  else do
    self.accepting (.processStop process.uuid) fun
      | .processExited uuid _ _ => uuid = process.uuid
      | .shutdowned => true
      | _ => false
    self.accepting (.processClose process.uuid) fun
      | .processClosed uuid => uuid = process.uuid
      | _ => false
    pure { process with closed := true }

/-- `TcpEndpoint::bind_async` from the reply on, in the transport and within the deadline
of the process. -/
def bindAsync (cmd : Command) : Except GuestClientError Unit :=
  match self.bind cmd with
  | none => .error .requestTimedOut
  | some (.ok (.processBound _)) => .ok ()
  | some _ => .error .bind

def bindOutputRaw (process : RunningProcess) (stream : ProcessOutputStream) :
    Except GuestClientError Unit :=
  self.bindAsync (.processOutputBind process.uuid stream)

def bindFramed (process : RunningProcess) : Except GuestClientError Unit :=
  self.bindAsync (.processBind process.uuid true)

def bindRaw (process : RunningProcess) : Except GuestClientError Unit :=
  self.bindAsync (.processBind process.uuid false)

/-! ### Specification -/

/-- The event a command got, whichever way it was sent. -/
def reply (cmd : Command) : Option Protocol.Event :=
  match cmd with
  | .processBind .. | .processOutputBind .. => (self.bind cmd).bind Except.toOption
  | _ => (self.request cmd).toOption

/-- The command got the event that answers it. -/
def Answered (cmd : Command) : Prop := ∃ event ∈ self.reply cmd, cmd.answeredBy event

/-- What the host does not compare: the path of a file or directory and the process of a
bind; and a stop may be answered with `Shutdowned`. -/
def Names : Command → Protocol.Event → Prop
  | .processStop _, event => event ≠ .shutdowned
  | .fileRead path, .fileRead p _ | .fileWrite path _, .fileWritten p
  | .fileRemove path, .fileRemoved p | .dirRead path, .dirRead p _
  | .dirCreate path, .dirCreated p | .dirRemove path, .dirRemoved p => p = path
  | .processBind uuid _, .processBound u | .processOutputBind uuid _, .processBound u => u = uuid
  | _, _ => True

/-- The reply, if it is an event, names what the command names. -/
def Named (cmd : Command) : Prop := ∀ event ∈ self.reply cmd, Names cmd event

/-! ### Lemmas -/

variable {self}

variable {cmd : Command}

theorem requestExpect_eq_ok {event : Protocol.Event}
    (h : self.requestExpect cmd = .ok event) : self.request cmd = .ok event := by
  obtain ⟨got, hgot, h⟩ := bind_eq_ok.1 h
  split at h <;> cases h
  exact hgot

theorem answered_iff {event : Protocol.Event} (hreply : self.reply cmd = some event)
    (h : cmd.answeredBy event = true ↔ Names cmd event) : self.Answered cmd ↔ self.Named cmd := by
  simp [Answered, Named, hreply, h]

theorem answered_iff_of_expecting {α : Type} {pick : Protocol.Event → Option α} {a : α}
    (h : self.expecting cmd pick = .ok a) (hreply : self.reply cmd = (self.request cmd).toOption)
    (hpick : ∀ event, (pick event).isSome → (cmd.answeredBy event = true ↔ Names cmd event)) :
    self.Answered cmd ↔ self.Named cmd := by
  obtain ⟨event, hevent, h⟩ := bind_eq_ok.1 h
  split at h <;> cases h
  refine answered_iff ?_ (hpick event (Option.isSome_iff_exists.2 ⟨_, ‹_›⟩))
  rw [hreply, requestExpect_eq_ok hevent]
  rfl

theorem answered_iff_of_accepting {accept : Protocol.Event → Bool}
    (h : self.accepting cmd accept = .ok ()) (hreply : self.reply cmd = (self.request cmd).toOption)
    (haccept : ∀ event, accept event → (cmd.answeredBy event = true ↔ Names cmd event)) :
    self.Answered cmd ↔ self.Named cmd := by
  unfold accepting at h
  split at h
  case h_2 => cases h
  case h_1 event hevent =>
    split at h <;> cases h
    refine answered_iff ?_ (haccept event ‹_›)
    rw [hreply, requestExpect_eq_ok hevent]
    rfl

theorem answered_iff_of_bindAsync (h : self.bindAsync cmd = .ok ())
    (hreply : self.reply cmd = (self.bind cmd).bind Except.toOption)
    (hbound : ∀ uuid, cmd.answeredBy (.processBound uuid) = true ↔ Names cmd (.processBound uuid)) :
    self.Answered cmd ↔ self.Named cmd := by
  unfold bindAsync at h
  split at h <;> cases h
  case h_2 uuid hbind =>
    refine answered_iff ?_ (hbound uuid)
    rw [hreply, hbind]
    rfl

end Replies

/-! ### Theorem -/

open Replies

/-- **Replies and requests.**  A spawn, a wait and the close of a process succeed with the answer
to their commands only.  Any other operation that succeeds has the answer to its command just if
the guest names in its reply what the host does not compare. -/
theorem replies_correlated_iff (replies : Replies) :
    (∀ builder uuid process, replies.spawn builder uuid = .ok process →
      replies.Answered (builder.command uuid)) ∧
    (∀ process exit, replies.wait process = .ok exit →
      replies.Answered (.processWait process.uuid)) ∧
    (∀ process process', process.closed = false → replies.close process = .ok process' →
      replies.Answered (.processClose process.uuid) ∧
        (replies.Answered (.processStop process.uuid) ↔ replies.Named (.processStop process.uuid))) ∧
    (∀ process stream, replies.bindOutputRaw process stream = .ok () →
      (replies.Answered (.processOutputBind process.uuid stream) ↔
        replies.Named (.processOutputBind process.uuid stream))) ∧
    (∀ process, replies.bindFramed process = .ok () →
      (replies.Answered (.processBind process.uuid true) ↔
        replies.Named (.processBind process.uuid true))) ∧
    (∀ process, replies.bindRaw process = .ok () →
      (replies.Answered (.processBind process.uuid false) ↔
        replies.Named (.processBind process.uuid false))) ∧
    (∀ path data, replies.fileRead path = .ok data →
      (replies.Answered (.fileRead path) ↔ replies.Named (.fileRead path))) ∧
    (∀ path data, replies.fileWrite path data = .ok () →
      (replies.Answered (.fileWrite path data) ↔ replies.Named (.fileWrite path data))) ∧
    (∀ path, replies.fileRemove path = .ok () →
      (replies.Answered (.fileRemove path) ↔ replies.Named (.fileRemove path))) ∧
    (∀ path entries, replies.dirRead path = .ok entries →
      (replies.Answered (.dirRead path) ↔ replies.Named (.dirRead path))) ∧
    (∀ path, replies.dirCreate path = .ok () →
      (replies.Answered (.dirCreate path) ↔ replies.Named (.dirCreate path))) ∧
    (∀ path, replies.dirRemove path = .ok () →
      (replies.Answered (.dirRemove path) ↔ replies.Named (.dirRemove path))) := by
  refine ⟨fun builder uuid process h => ?_, fun process exit h => ?_,
    fun process process' hopen h => ?_, fun process stream h => ?_, fun process h => ?_,
    fun process h => ?_, fun path data h => ?_, fun path data h => ?_, fun path h => ?_,
    fun path entries h => ?_, fun path h => ?_, fun path h => ?_⟩
  case refine_1 =>
    refine (answered_iff_of_expecting h rfl fun event hsome => ?_).2 fun _ _ => trivial
    cases event <;> grind [Command.answeredBy, Names, PreparedProcessBuilder.command]
  case refine_2 =>
    unfold Replies.wait at h
    split at h
    · cases h
    · refine (answered_iff_of_expecting h rfl fun event hsome => ?_).2 fun _ _ => trivial
      cases event <;> grind [Command.answeredBy, Names]
  case refine_3 =>
    unfold Replies.close at h
    rw [hopen, if_neg Bool.false_ne_true] at h
    obtain ⟨⟨⟩, hstop, h⟩ := bind_eq_ok.1 h
    obtain ⟨⟨⟩, hclose, h⟩ := bind_eq_ok.1 h
    constructor
    · refine (answered_iff_of_accepting hclose rfl fun event haccept => ?_).2 fun _ _ => trivial
      cases event <;> grind [Command.answeredBy, Names]
    · refine answered_iff_of_accepting hstop rfl fun event haccept => ?_
      cases event <;> grind [Command.answeredBy, Names]
  case refine_4 | refine_5 | refine_6 =>
    exact answered_iff_of_bindAsync h rfl fun uuid => decide_eq_true_iff
  all_goals
    refine answered_iff_of_expecting h rfl fun event hsome => ?_
    cases event <;> grind [Command.answeredBy, Names]

def emptyFile (path : String → String) : Replies where
  request
    | .fileRead p => .ok (.fileRead (path p) [])
    | _ => .error .transport
  bind _ := none

theorem named_file_read :
    (emptyFile id).fileRead "/a" = .ok [] ∧ (emptyFile id).Answered (.fileRead "/a") := by
  refine ⟨rfl, ((replies_correlated_iff (emptyFile id)).2.2.2.2.2.2.1 "/a" [] rfl).2 ?_⟩
  rintro _ ⟨⟩
  rfl

theorem other_file_read : (emptyFile fun _ => "/b").fileRead "/a" = .ok [] ∧
    ¬ (emptyFile fun _ => "/b").Answered (.fileRead "/a") := by
  refine ⟨rfl, ?_⟩
  rintro ⟨event, hevent, hanswered⟩
  cases hevent
  exact absurd hanswered (by decide)

end Jyth.GuestClient
