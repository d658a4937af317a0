import Jyth.Lib.Words

/-!
# Messages and versioned control-plane frames

`protocol/src/lib.rs`: what the host asks of the guest (`Command`), and what the guest answers
(`Event`).

The explicit binary encoding shared by the boot and authentication envelopes
of `protocol/src/auth.rs`.  A writer is the bytes written so far, a reader the
bytes not yet taken.  A call ends with a value, with a reported error, or with
the panic of an `expect` (`Fault`).
-/

namespace Jyth.Protocol

open Format

/-! ## Commands and events -/

abbrev Uuid := BitVec 128

inductive ProcessStdio
  | pipe | null
  | file (path : String)
deriving DecidableEq

inductive ProcessOutputStream
  | stdout | stderr
deriving DecidableEq

/-- The requests of the host. -/
inductive Command
  | ping
  | vmShutdown
  | fileRead (path : String)
  | fileWrite (path : String) (data : List UInt8)
  | fileRemove (path : String)
  | dirRead (path : String)
  | dirCreate (path : String)
  | dirRemove (path : String)
  | processStart (uuid : Uuid) (path : String) (args : List String)
      (envs : List (String × String)) (cwd : Option String) (stdout stderr : ProcessStdio)
  | processBind (uuid : Uuid) (stayFramed : Bool)
  | processOutputBind (uuid : Uuid) (stream : ProcessOutputStream)
  | processStop (uuid : Uuid)
  | processWait (uuid : Uuid)
  | processClose (uuid : Uuid)
  | portBind (port : UInt32)
deriving DecidableEq

/-- The replies of the guest. -/
inductive Event
  | vmReady
  | processStarted (uuid : Uuid)
  | processExited (uuid : Uuid) (exitCode signal : Option Int)
  | processBound (uuid : Uuid)
  | processClosed (uuid : Uuid)
  | fileRead (path : String) (data : List UInt8)
  | fileWritten (path : String)
  | fileRemoved (path : String)
  | dirRead (path : String) (entries : List String)
  | dirCreated (path : String)
  | dirRemoved (path : String)
  | portBound (port : UInt32)
  | shutdowned
  | error (code : Nat) (msg : String)
deriving DecidableEq

/-- The event that says the command was carried out, on what it names. -/
def Command.answeredBy : Command → Event → Bool
  | .ping, .vmReady | .vmShutdown, .shutdowned => true
  | .fileRead path, .fileRead p _ | .fileWrite path _, .fileWritten p
  | .fileRemove path, .fileRemoved p | .dirRead path, .dirRead p _
  | .dirCreate path, .dirCreated p | .dirRemove path, .dirRemoved p => p = path
  | .processStart uuid .., .processStarted u | .processBind uuid _, .processBound u
  | .processOutputBind uuid _, .processBound u | .processStop uuid, .processExited u ..
  | .processWait uuid, .processExited u .. | .processClose uuid, .processClosed u => u = uuid
  | .portBind port, .portBound p => p = port
  | _, _ => false

/-! ## Errors -/

inductive ProtocolError
  | access | deserialize | serialize | invalidFrame | versionMismatch | invalidValue
  | randomness | authentication
deriving DecidableEq

/-- `Report<ProtocolError>`: the context and the attached message. -/
structure Report where
  context : ProtocolError
  message : Option String
deriving DecidableEq

def invalidFrame (message : String) : Report := ⟨.invalidFrame, some message⟩

def invalidValue (message : String) : Report := ⟨.invalidValue, some message⟩

def versionMismatch : Report := ⟨.versionMismatch, none⟩

/-- An error that is returned, or a panic. -/
inductive Fault
  | error (report : Report)
  | panic (message : String)
deriving DecidableEq

/-- `?` on a fallible check inside a call that may also panic. -/
def orError {α : Type} : Except Report α → Except Fault α
  | .ok a => .ok a
  | .error r => .error (.error r)

/-- A constructor that validates what it has built. -/
def checked {α : Type} (validate : α → Except Report Unit) (a : α) : Except Report α := do
  validate a
  return a

theorem checked_eq_ok {α : Type} {validate : α → Except Report Unit} {a b : α} :
    checked validate a = .ok b ↔ validate b = .ok () ∧ b = a := by
  simp only [checked, check_bind_eq_ok, pure_eq_ok]
  constructor
  · rintro ⟨h, rfl⟩; exact ⟨h, rfl⟩
  · rintro ⟨h, rfl⟩; exact ⟨h, rfl⟩

def protocolVersion : UInt16 := 1

def maxBootConfigFrame : Nat := 64 * 1024

def maxAuthFrame : Nat := 4 * 1024

def maxGuestConnections : Nat := 32

/-! ## `WireWriter` -/

def expectU8 (n : Nat) (message : String) : Except Fault UInt8 :=
  if n < 2 ^ 8 then .ok (UInt8.ofNat n) else .error (.panic message)

/-- `u16::try_from(n).expect(message)`. -/
def expectU16 (n : Nat) (message : String) : Except Fault UInt16 :=
  if n < 2 ^ 16 then .ok (UInt16.ofNat n) else .error (.panic message)

abbrev WireWriter := Bytes

namespace WireWriter

def pushU8 (w : WireWriter) (v : UInt8) : WireWriter := w ++ [v]

def pushU16 (w : WireWriter) (v : UInt16) : WireWriter := w ++ leBytes v

def pushU32 (w : WireWriter) (v : UInt32) : WireWriter := w ++ leBytes v

def pushU64 (w : WireWriter) (v : UInt64) : WireWriter := w ++ leBytes v

def pushBytes (w : WireWriter) (bs : Bytes) : WireWriter := w ++ bs

def pushText (w : WireWriter) (message : String) (s : String) : Except Fault WireWriter := do
  let len ← expectU16 (utf8 s).length message
  return (w.pushU16 len).pushBytes (utf8 s)

def pushString (w : WireWriter) (s : String) : Except Fault WireWriter :=
  w.pushText "validated string fits u16" s

def finish (w : WireWriter) (maximum : Nat) : Except Report Bytes :=
  if maximum < w.length then .error (invalidFrame "encoded frame exceeds its maximum") else .ok w

end WireWriter

def stringBytes (s : String) : Bytes := leBytes (UInt16.ofNat (utf8 s).length) ++ utf8 s

theorem pushText_eq (w : WireWriter) (message s : String)
    (h : (utf8 s).length < 2 ^ 16) : w.pushText message s = .ok (w ++ stringBytes s) := by
  unfold WireWriter.pushText expectU16
  rw [if_pos h]
  show Except.ok _ = _
  simp [WireWriter.pushU16, WireWriter.pushBytes, stringBytes]

theorem foldlM_push {α : Type} (push : WireWriter → α → Except Fault WireWriter)
    (enc : α → Bytes) (l : List α) (h : ∀ a ∈ l, ∀ w, push w a = .ok (w ++ enc a))
    (w : WireWriter) : l.foldlM push w = .ok (w ++ l.flatMap enc) := by
  induction l generalizing w with
  | nil => simp only [List.foldlM_nil, List.flatMap_nil, List.append_nil]; rfl
  | cons a l ih =>
    rw [List.foldlM_cons, h a List.mem_cons_self w]
    show l.foldlM push _ = _
    rw [ih fun a ha => h a (List.mem_cons_of_mem _ ha)]
    simp

/-! ## `WireReader` -/

def truncated : Report := invalidFrame "truncated versioned frame"

def trailingBytes : Report := invalidFrame "trailing bytes in versioned frame"

abbrev WireReader := Reader Report

namespace WireReader

def take (n : Nat) : WireReader Bytes := takeN truncated n

def takeU8 : WireReader UInt8 := takeByte truncated

def takeU16 : WireReader UInt16 := takeLE truncated

def takeU32 : WireReader UInt32 := takeLE truncated

def takeU64 : WireReader UInt64 := takeLE truncated

def takeArray (n : Nat) : WireReader (Block n) := takeBlock truncated n

def takeText (tooLong notUtf8 : Report) (maximum : Nat) : WireReader String := do
  let length ← takeU16
  if maximum < length.toNat then throw tooLong
  else do
    let bs ← take length.toNat
    orThrow notUtf8 (fromUtf8? bs)

def takeString (maximum : Nat) : WireReader String :=
  takeText (invalidValue "versioned string exceeds its size limit")
    (invalidValue "versioned string is not UTF-8") maximum

end WireReader

theorem exact_takeText (tooLong notUtf8 : Report) (maximum : Nat) (hmax : maximum < 2 ^ 16) :
    Exact (WireReader.takeText tooLong notUtf8 maximum)
      (fun s bs => (utf8 s).length ≤ maximum ∧ bs = stringBytes s) := by
  refine ((Exact.takeLE _).bind fun len => Exact.reject _ fun _ =>
    (Exact.takeN _ _).bind fun bs => Exact.orThrow _ _).congr fun s bs => ?_
  simp only [existsAndEq, and_assoc, true_and, List.append_nil, not_lt]
  constructor
  · rintro ⟨len, text, hle, hlen, hs, rfl⟩
    obtain rfl := (fromUtf8?_eq_some _ _).1 hs
    exact ⟨by omega, by simp [stringBytes, hlen]⟩
  · rintro ⟨hle, rfl⟩
    have hn : (UInt16.ofNat (utf8 s).length).toNat = (utf8 s).length := by
      rw [UInt16.toNat_ofNat']
      omega
    exact ⟨_, _, by omega, hn.symm, (fromUtf8?_eq_some _ _).2 rfl, rfl⟩

end Jyth.Protocol
