import Jyth.Com.Framing
import Jyth.Guest.ProcessManager
import Jyth.Protocol.Wire

/-!
# Commands and their replies

`handle_connection` of `init/src/bus/dispatch.rs`, from the decoded command on.  Most
commands carry out an operation and reply with what it came to (`replying`).  The two
binds reply before they look for the process and its pipes, `PortBind` does not reply at
all, and a reply that does not fit its frame is not written.
-/

namespace Jyth.Guest

open Protocol (Command)

/-- What the operations of one command come to, and its connection. -/
structure Outcomes where
  processes : Manager
  /-- opening the files of its stdio and `Command::spawn` -/
  launch : Except Failure Unit
  /-- the completion of the child that is stopped or waited for -/
  completion : Except Failure ProcessExit
  read : Except String (List UInt8)
  readDir : Except String (List String)
  /-- `write`, `remove_file`, `create_dir_all` or `remove_dir_all` -/
  change : Except String Unit
  /-- the text of a report -/
  debug : Failure → String
  /-- the bytes of an event, if it can be serialized -/
  size : Protocol.Event → Option Nat
  /-- the peer takes the frame before `FRAME_IO_DEADLINE` -/
  taken : Bool

/-- `reply`: the event given to `write_frame`.  `performed`: the operation succeeded. -/
structure Served where
  reply : Option Protocol.Event
  performed : Bool
deriving DecidableEq

def stdio : Protocol.ProcessStdio → ProcessStdio
  | .pipe => .pipe
  | .null => .null
  | .file _ => .file

def output : Protocol.ProcessOutputStream → ProcessOutputStream
  | .stdout => .stdout
  | .stderr => .stderr

namespace Outcomes

variable (o : Outcomes)

def writeFrame (event : Protocol.Event) : Bool :=
  (o.size event).any (· ≤ Com.maxCommandFrame) && o.taken

def replying {ε α : Type} (result : Except ε α) (success : α → Protocol.Event) (code : Nat)
    (text : ε → String) : Served :=
  match result with
  | .ok a => ⟨some (success a), true⟩
  | .error e => ⟨some (.error code (text e)), false⟩

/-- The reply, and if it is written, the bind. -/
def binding (uuid : Uuid) (bind : Except Failure Manager) : Served :=
  ⟨some (.processBound uuid), o.writeFrame (.processBound uuid) && bind.isOk⟩

def kill (uuid : Uuid) : Except Failure ProcessExit := do
  let _ ← o.processes.kill uuid
  o.completion

def wait (uuid : Uuid) : Except Failure ProcessExit := do
  let _ ← o.processes.wait uuid
  o.completion

def handleConnection : Command → Served
  | .processStart uuid _ _ _ _ stdout stderr =>
    replying (o.processes.spawn uuid (stdio stdout) (stdio stderr) o.launch)
      (fun _ => .processStarted uuid) 1 o.debug
  | .processStop uuid =>
    replying (o.kill uuid) (fun exit => .processExited uuid exit.exitCode exit.signal) 2 o.debug
  | .processWait uuid =>
    replying (o.wait uuid) (fun exit => .processExited uuid exit.exitCode exit.signal) 9 o.debug
  | .processClose uuid =>
    replying (o.processes.close uuid) (fun _ => .processClosed uuid) 10 o.debug
  | .processBind uuid _ => o.binding uuid (o.processes.bind uuid)
  | .processOutputBind uuid stream =>
    o.binding uuid (o.processes.bindOutput uuid (output stream))
  | .vmShutdown => ⟨some .shutdowned, true⟩
  | .ping => ⟨some .vmReady, true⟩
  | .fileRead path => replying o.read (.fileRead path) 3 id
  | .fileWrite path _ => replying o.change (fun _ => .fileWritten path) 4 id
  | .fileRemove path => replying o.change (fun _ => .fileRemoved path) 5 id
  | .dirRead path => replying o.readDir (.dirRead path) 6 id
  | .dirCreate path => replying o.change (fun _ => .dirCreated path) 7 id
  | .dirRemove path => replying o.change (fun _ => .dirRemoved path) 8 id
  | .portBind _ => ⟨none, false⟩

/-- The frames written before the connection is closed or handed over. -/
def frames (cmd : Command) : List Protocol.Event :=
  (o.handleConnection cmd).reply.toList.filter o.writeFrame

/-- What the guest implements: no `PortBind`, and of the binds those that find what they
ask for. -/
def Serves : Command → Prop
  | .processBind uuid _ => (o.processes.bind uuid).isOk = true
  | .processOutputBind uuid stream => (o.processes.bindOutput uuid (output stream)).isOk = true
  | .portBind _ => False
  | _ => True

/-- The reply can be serialized and is no longer than a frame. -/
def Fits (cmd : Command) : Prop :=
  ∀ event ∈ (o.handleConnection cmd).reply, ∃ n ≤ Com.maxCommandFrame, o.size event = some n

variable {o} {cmd : Command} {event : Protocol.Event}

theorem writeFrame_iff : o.writeFrame event = true ↔
    (∃ n ≤ Com.maxCommandFrame, o.size event = some n) ∧ o.taken = true := by
  rw [writeFrame, Bool.and_eq_true, Option.any_eq_true]
  simp only [decide_eq_true_iff, and_comm]

theorem frames_eq_singleton : o.frames cmd = [event] ↔
    (o.handleConnection cmd).reply = some event ∧ o.writeFrame event = true := by
  rw [frames]
  cases (o.handleConnection cmd).reply with
  | none => simp
  | some reply =>
    by_cases hwrites : o.writeFrame reply = true
    · rw [Option.toList_some, List.filter_cons_of_pos hwrites]
      simp only [List.filter_nil, List.cons.injEq, and_true, Option.some.injEq]
      exact ⟨fun h => ⟨h, h ▸ hwrites⟩, fun h => h.1⟩
    · rw [Option.toList_some, List.filter_cons_of_neg hwrites, Option.some.injEq]
      exact ⟨nofun, fun h => absurd h.2 (h.1 ▸ hwrites)⟩

/-- The event of the command if the operation was carried out, and else an error. -/
def Honest (cmd : Command) (performed : Bool) (event : Protocol.Event) : Prop :=
  if performed then cmd.answeredBy event = true else ∃ code msg, event = .error code msg

theorem replying_reply {ε α : Type} (result : Except ε α) (success : α → Protocol.Event) (code : Nat)
    (text : ε → String) : ∃ event, (replying result success code text).reply = some event := by
  cases result with
  | ok a => exact ⟨_, rfl⟩
  | error e => exact ⟨_, rfl⟩

theorem honest_replying {ε α : Type} {result : Except ε α} {success : α → Protocol.Event} {code : Nat}
    {text : ε → String} (h : ∀ a, cmd.answeredBy (success a) = true)
    (hreply : (replying result success code text).reply = some event) :
    Honest cmd (replying result success code text).performed event := by
  cases result with
  | ok a =>
    cases hreply
    exact h a
  | error e =>
    cases hreply
    exact ⟨code, text e, rfl⟩

/-- A bind is acknowledged in any case. -/
theorem honest_binding_iff {uuid : Uuid} {bind : Except Failure Manager}
    (hanswered : cmd.answeredBy (.processBound uuid) = true)
    (hwrites : o.writeFrame (.processBound uuid) = true) :
    Honest cmd (o.binding uuid bind).performed (.processBound uuid) ↔ bind.isOk = true := by
  rw [binding, hwrites]
  cases hbind : bind.isOk with
  | true => exact ⟨fun _ => rfl, fun _ => hanswered⟩
  | false =>
    refine ⟨fun h => ?_, nofun⟩
    obtain ⟨code, msg, herror⟩ := h
    cases herror

theorem honest_iff (hreply : (o.handleConnection cmd).reply = some event)
    (hwrites : o.writeFrame event = true) :
    Honest cmd (o.handleConnection cmd).performed event ↔ o.Serves cmd := by
  cases cmd with
  | portBind => cases hreply
  | ping | vmShutdown =>
    cases hreply
    exact ⟨fun _ => trivial, fun _ => rfl⟩
  | processBind | processOutputBind =>
    cases hreply
    exact honest_binding_iff (decide_eq_true rfl) hwrites
  | _ => exact ⟨fun _ => trivial, fun _ => honest_replying (fun _ => decide_eq_true rfl) hreply⟩

/-- A guest without processes; the file that is read has `length` bytes, and an event is
as long as its data. -/
def fresh (length : Nat) : Outcomes where
  processes := .new
  launch := .ok ()
  completion := .error .io
  read := .ok (List.replicate length 0)
  readDir := .ok []
  change := .ok ()
  debug _ := ""
  size
    | .fileRead _ data => some data.length
    | _ => some 0
  taken := true

end Outcomes

end Jyth.Guest
