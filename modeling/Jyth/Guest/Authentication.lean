import Jyth.Com.Framing
import Jyth.Lib.Run
import Jyth.Protocol.Transcript

/-!
# The authentication gate of the guest

`authenticate_connection` and `handle_connection` of `init/src/bus/dispatch.rs`.  Each
connection has a handler of its own, a machine on the bytes its peer has sent; the
bus interleaves the handlers in any order.  Peers send what they like.

The hash and the decoder of commands are parameters.  `received`, `authenticated`,
`sent`, `decoded` and `executed` record what has happened.
-/

namespace Jyth.Guest

open Format Protocol Com List Option

/-- Where the handler of a connection stands. -/
inductive Phase
  | admitted
  | writingChallenge
  | readingResponse
  | writingAccepted
  | readingCommand
  | serving
  | closed
deriving DecidableEq

structure Connection where
  phase : Phase
  /-- The number its challenge was derived from. -/
  counter : Option UInt64
  /-- Sent by the peer and not read yet. -/
  inbox : Bytes
  /-- Everything the peer has sent. -/
  received : Bytes
  /-- The payload that was accepted as its response. -/
  authenticated : Option Bytes
deriving DecidableEq

inductive Signal
  /-- The handler is polled for the first time. -/
  | start
  /-- A frame was written. -/
  | wrote
  | deliver (bytes : Bytes)
  /-- A whole frame, or the length of one that is too large, is there to be read. -/
  | read
  /-- A deadline passed, the peer closed the connection, or I/O failed. -/
  | fail
  /-- The command is done. -/
  | finish
deriving DecidableEq

/-- A step of a handler, with what it wrote, decoded and executed. -/
structure Outcome (Command : Type) where
  connection : Connection
  nextConnection : UInt64
  sent : List Bytes := []
  decoded : List Bytes := []
  executed : List Command := []

section Handler

variable {Command : Type} (sha256 : Bytes → Block 32) (capability : Block 32) (vmId : Block 16)
  (decode : Bytes → Option Command)

def challengeOf (counter : UInt64) : AuthChallengeV1 :=
  ⟨protocolVersion, deriveAuthChallenge sha256 capability vmId counter⟩

/-- The payload is a response with the MAC of the challenge derived from `counter`. -/
def Answers (counter : UInt64) (payload : Bytes) : Prop :=
  ∃ response, AuthResponseV1.tryFrom payload = .ok response ∧
    computeAuthMac sha256 capability vmId commandAuthContextV1
      (challengeOf sha256 capability vmId counter).challenge = response.mac

instance (counter : UInt64) (payload : Bytes) :
    Decidable (Answers sha256 capability vmId counter payload) :=
  match h : AuthResponseV1.tryFrom payload with
  | .ok response => decidable_of_iff (computeAuthMac sha256 capability vmId commandAuthContextV1
      (challengeOf sha256 capability vmId counter).challenge = response.mac) (by simp [Answers, h])
  | .error _ => .isFalse (by simp [Answers, h])

namespace Connection

variable (c : Connection)

def close : Connection := { c with phase := .closed }

/-- The counter is taken and the challenge written; `checked_add` refuses the last
counter. -/
def start (next : UInt64) : Outcome Command :=
  if next.toNat + 1 < 2 ^ 64 then
    match (challengeOf sha256 capability vmId next).toBytes with
    | .ok payload =>
      { connection := { c with phase := .writingChallenge, counter := some next }
        nextConnection := next + 1
        sent := [payload] }
    | .error _ => { connection := { c with counter := some next }.close, nextConnection := next + 1 }
  else { connection := c.close, nextConnection := next }

def readResponse (next counter : UInt64) : Option (Outcome Command) :=
  match front maxAuthFrame c.inbox with
  | .frame payload rest =>
    if Answers sha256 capability vmId counter payload then
      match (⟨protocolVersion⟩ : AuthAcceptedV1).toBytes with
      | .ok accepted => some
          { connection := { c with
              phase := .writingAccepted, inbox := rest, authenticated := some payload }
            nextConnection := next
            sent := [accepted] }
      | .error _ => some { connection := c.close, nextConnection := next }
    else some { connection := c.close, nextConnection := next }
  | .tooLarge _ _ => some { connection := c.close, nextConnection := next }
  | .truncated => none

def readCommand (next : UInt64) : Option (Outcome Command) :=
  match front maxCommandFrame c.inbox with
  | .frame payload rest =>
    match decode payload with
    | some command => some
        { connection := { c with phase := .serving, inbox := rest }
          nextConnection := next
          decoded := [payload]
          executed := [command] }
    | none => some { connection := c.close, nextConnection := next, decoded := [payload] }
  | .tooLarge _ _ => some { connection := c.close, nextConnection := next }
  | .truncated => none

def step (next : UInt64) : Signal → Option (Outcome Command)
  | .start =>
    if c.phase = .admitted then some (c.start sha256 capability vmId next) else none
  | .wrote =>
    match c.phase with
    | .writingChallenge =>
      some { connection := { c with phase := .readingResponse }, nextConnection := next }
    | .writingAccepted =>
      some { connection := { c with phase := .readingCommand }, nextConnection := next }
    | _ => none
  | .deliver bytes =>
    some
      { connection := { c with inbox := c.inbox ++ bytes, received := c.received ++ bytes }
        nextConnection := next }
  | .read =>
    match c.phase with
    | .readingResponse => c.counter.bind (c.readResponse sha256 capability vmId next)
    | .readingCommand => c.readCommand decode next
    | _ => none
  | .fail => some { connection := c.close, nextConnection := next }
  | .finish =>
    if c.phase = .serving then some { connection := c.close, nextConnection := next } else none

end Connection

end Handler

/-! ## The bus -/

/-- The guest with all its connections. -/
structure GuestBus (Command : Type) where
  nextConnection : UInt64
  connections : List Connection
  sent : List Bytes
  decoded : List (Nat × Bytes)
  executed : List (Nat × Command)

inductive BusEvent
  | accept
  | signal (k : Nat) (signal : Signal)
deriving DecidableEq

namespace GuestBus

variable {Command : Type} (sha256 : Bytes → Block 32) (capability : Block 32) (vmId : Block 16)
  (decode : Bytes → Option Command)

def new : GuestBus Command := ⟨0, [], [], [], []⟩

def step (bus : GuestBus Command) : BusEvent → Option (GuestBus Command)
  | .accept =>
    if bus.connections.countP (·.phase ≠ .closed) < maxGuestConnections then
      some { bus with connections := bus.connections ++ [⟨.admitted, none, [], [], none⟩] }
    else some bus
  | .signal k signal => do
    let c ← bus.connections[k]?
    let outcome ← c.step sha256 capability vmId decode bus.nextConnection signal
    some
      { nextConnection := outcome.nextConnection
        connections := bus.connections.set k outcome.connection
        sent := bus.sent ++ outcome.sent
        decoded := bus.decoded ++ outcome.decoded.map (k, ·)
        executed := bus.executed ++ outcome.executed.map (k, ·) }

end GuestBus

/-! ## One handler -/

variable {c : Connection} {counter : UInt64}

section Spec

variable {Command : Type} {sha256 : Bytes → Block 32} {capability : Block 32} {vmId : Block 16}
  {decode : Bytes → Option Command}

variable (sha256 capability vmId) in
/-- What is known of a connection: nothing was read before a response was accepted, and
afterwards the accepted response is the first frame its peer has sent. -/
structure Sound (c : Connection) : Prop where
  fresh : c.phase = .admitted → c.counter = none
  early : c.phase = .writingAccepted ∨ c.phase = .readingCommand → ∃ payload,
    c.authenticated = some payload ∧ c.received = frameBytes payload ++ c.inbox
  unread : c.phase = .admitted ∨ c.phase = .writingChallenge ∨ c.phase = .readingResponse →
    c.authenticated = none ∧ c.inbox = c.received
  answered : ∀ payload, c.authenticated = some payload → payload.length ≤ maxAuthFrame ∧
    frameBytes payload <+: c.received ∧
      ∃ counter, c.counter = some counter ∧ Answers sha256 capability vmId counter payload

/-- A handler never takes back what it has read or accepted. -/
structure Grows (c c' : Connection) : Prop where
  received : c.received <+: c'.received
  authenticated : ∀ payload, c.authenticated = some payload → c'.authenticated = some payload
  counter : ∀ counter, c.counter = some counter → c'.counter = some counter

/-- The payload was read from the connection as its second frame, after a response that
was accepted. -/
def Commanded (c : Connection) (payload : Bytes) : Prop :=
  ∃ response, c.authenticated = some response ∧
    frameBytes response ++ frameBytes payload <+: c.received

variable {next : UInt64} {payload : Bytes} {o : Outcome Command} {c c' : Connection}

theorem Commanded.grows (h : Commanded c payload) (hgrows : Grows c c') : Commanded c' payload := by
  obtain ⟨response, hauth, hprefix⟩ := h
  exact ⟨response, hgrows.authenticated response hauth, hprefix.trans hgrows.received⟩

/-- A frame the guest writes while it authenticates; it is no response. -/
def Greeting (payload : Bytes) : Prop :=
  payload.length ≤ maxAuthFrame ∧
    (payload.head? = some authChallengeTag ∨ payload.head? = some authAcceptedTag)

variable (sha256 capability vmId decode) in
/-- What a step of a handler guarantees. -/
structure Advances (next : UInt64) (c : Connection) (o : Outcome Command) : Prop where
  sound : Sound sha256 capability vmId o.connection
  grows : Grows c o.connection
  fresh : o.nextConnection = next ∧ o.connection.counter = c.counter ∨
    o.connection.counter = some next ∧ next.toNat < o.nextConnection.toNat
  decoded : ∀ payload ∈ o.decoded, Commanded o.connection payload
  executed : ∀ command ∈ o.executed, ∃ payload ∈ o.decoded, decode payload = some command
  sent : ∀ payload ∈ o.sent, Greeting payload

variable (h : Sound sha256 capability vmId c)
include h

theorem Sound.close : Sound sha256 capability vmId c.close :=
  ⟨by simp [Connection.close], by simp [Connection.close], by simp [Connection.close], h.answered⟩

omit h in
theorem Sound.advances (h : Sound sha256 capability vmId c')
    (hgrows : Grows c c') (hcounter : c'.counter = c.counter) :
    Advances sha256 capability vmId decode next c { connection := c', nextConnection := next } where
  sound := h
  grows := hgrows
  fresh := .inl ⟨rfl, hcounter⟩
  decoded := nofun
  executed := nofun
  sent := nofun

theorem Sound.advances_close (next : UInt64) : Advances sha256 capability vmId decode next c
      { connection := c.close, nextConnection := next } :=
  h.close.advances ⟨prefix_rfl, fun _ h => h, fun _ h => h⟩ rfl

theorem Sound.start (hphase : c.phase = .admitted) (next : UInt64) :
    Advances sha256 capability vmId decode next c (c.start sha256 capability vmId next) := by
  obtain ⟨hnone, hinbox⟩ := h.unread (.inl hphase)
  have hcounter := h.fresh hphase
  have hgrows : ∀ phase, Grows c { c with phase := phase, counter := some next } := by
    refine fun phase => ⟨prefix_rfl, fun _ h => h, fun counter hc => ?_⟩
    rw [hcounter] at hc
    cases hc
  have hnext : next.toNat + 1 < 2 ^ 64 → next.toNat < (next + 1).toNat := by
    intro hlt
    rw [UInt64.toNat_add, UInt64.toNat_one, Nat.mod_eq_of_lt hlt]
    exact Nat.lt_succ_self _
  have hquiet : ∀ phase, phase = .writingChallenge ∨ phase = .closed →
      Sound sha256 capability vmId { c with phase := phase, counter := some next } := by
    refine fun phase hq => ⟨by rcases hq with rfl | rfl <;> simp, by rcases hq with rfl | rfl <;> simp,
      fun _ => ⟨hnone, hinbox⟩, fun payload hp => ?_⟩
    rw [show c.authenticated = some payload from hp] at hnone
    cases hnone
  unfold Connection.start
  split
  · next hlt =>
    split
    · next payload hpayload =>
      refine ⟨hquiet _ (.inl rfl), hgrows _, .inr ⟨rfl, hnext hlt⟩, nofun, nofun, ?_⟩
      intro sent hsent
      rw [mem_singleton.1 hsent]
      exact (AuthChallengeV1.fieldCodec.head_of_sealEnvelope hpayload).imp_right .inl
    · exact ⟨hquiet _ (.inr rfl), hgrows _, .inr ⟨rfl, hnext hlt⟩, nofun, nofun, nofun⟩
  · exact h.advances_close next

omit h

theorem maxAuthFrame_lt : maxAuthFrame < 2 ^ 32 := by decide

theorem maxCommandFrame_lt : maxCommandFrame < 2 ^ 32 := by decide

variable (h : Sound sha256 capability vmId c)
include h

theorem Sound.readResponse
    (hphase : c.phase = .readingResponse) (hcounter : c.counter = some counter)
    (ho : c.readResponse sha256 capability vmId next counter = some o) :
    Advances sha256 capability vmId decode next c o := by
  obtain ⟨hnone, hinbox⟩ := h.unread (.inr (.inr hphase))
  unfold Connection.readResponse at ho
  split at ho
  · next payload rest hfront =>
    obtain ⟨hlen, hstream⟩ := (front_eq_frame maxAuthFrame_lt _ _ _).1 hfront
    rw [hinbox] at hstream
    split at ho
    · next hanswers =>
      split at ho
      · next accepted haccepted =>
        cases ho
        refine ⟨⟨by simp, fun _ => ⟨payload, rfl, hstream⟩, by simp, ?_⟩,
          ⟨prefix_rfl, ?_, fun _ h => h⟩, .inl ⟨rfl, rfl⟩, nofun, nofun, ?_⟩
        · rintro _ ⟨rfl⟩
          refine ⟨hlen, ?_, counter, hcounter, hanswers⟩
          show frameBytes payload <+: c.received
          rw [hstream]
          exact prefix_append _ _
        · intro payload' hp
          rw [hnone] at hp
          cases hp
        · intro sent hsent
          rw [mem_singleton.1 hsent]
          exact (AuthAcceptedV1.fieldCodec.head_of_sealEnvelope haccepted).imp_right .inr
      · cases ho
        exact h.advances_close next
    · cases ho
      exact h.advances_close next
  · cases ho
    exact h.advances_close next
  · cases ho

theorem Sound.readCommand
    (hphase : c.phase = .readingCommand) (ho : c.readCommand decode next = some o) :
    Advances sha256 capability vmId decode next c o := by
  obtain ⟨response, hauth, hreceived⟩ := h.early (.inr hphase)
  unfold Connection.readCommand at ho
  split at ho
  · next payload rest hfront =>
    obtain ⟨-, hstream⟩ := (front_eq_frame maxCommandFrame_lt _ _ _).1 hfront
    have hcommanded : frameBytes response ++ frameBytes payload <+: c.received := by
      rw [hreceived, hstream, ← append_assoc]
      exact prefix_append _ _
    split at ho
    · next command hdecode =>
      cases ho
      refine ⟨⟨by simp, by simp, by simp, h.answered⟩, ⟨prefix_rfl, fun _ h => h, fun _ h => h⟩,
        .inl ⟨rfl, rfl⟩, ?_, ?_, nofun⟩
      · intro found hfound
        rw [mem_singleton.1 hfound]
        exact ⟨response, hauth, hcommanded⟩
      · intro found hfound
        rw [mem_singleton.1 hfound]
        exact ⟨payload, mem_singleton_self _, hdecode⟩
    · cases ho
      refine ⟨h.close, ⟨prefix_rfl, fun _ h => h, fun _ h => h⟩, .inl ⟨rfl, rfl⟩, ?_, nofun, nofun⟩
      intro found hfound
      rw [mem_singleton.1 hfound]
      exact ⟨response, hauth, hcommanded⟩
  · cases ho
    exact h.advances_close next
  · cases ho

theorem Sound.deliver (bytes : Bytes) : Sound sha256 capability vmId
      { c with inbox := c.inbox ++ bytes, received := c.received ++ bytes } where
  fresh := h.fresh
  early hphase := by
    obtain ⟨payload, hauth, hreceived⟩ := h.early hphase
    refine ⟨payload, hauth, ?_⟩
    show c.received ++ bytes = _
    rw [hreceived, append_assoc]
  unread hphase := by
    obtain ⟨hnone, hinbox⟩ := h.unread hphase
    refine ⟨hnone, ?_⟩
    show c.inbox ++ bytes = c.received ++ bytes
    rw [hinbox]
  answered payload hauth := by
    obtain ⟨hlen, hprefix, hcounter⟩ := h.answered payload hauth
    exact ⟨hlen, hprefix.trans (prefix_append _ _), hcounter⟩

theorem Sound.step {signal : Signal}
    (ho : c.step sha256 capability vmId decode next signal = some o) :
    Advances sha256 capability vmId decode next c o := by
  cases signal with
  | start =>
    obtain ⟨hphase, heq⟩ := ite_none_right_eq_some.1 ho
    cases heq
    exact h.start hphase next
  | wrote =>
    unfold Connection.step at ho
    cases hphase : c.phase with
    | writingChallenge =>
      simp only [hphase, some.injEq] at ho
      cases ho
      have hunread := h.unread (.inr (.inl hphase))
      exact Sound.advances ⟨by simp, by simp, fun _ => hunread, h.answered⟩
        ⟨prefix_rfl, fun _ h => h, fun _ h => h⟩ rfl
    | writingAccepted =>
      simp only [hphase, some.injEq] at ho
      cases ho
      have hearly := h.early (.inl hphase)
      exact Sound.advances ⟨by simp, fun _ => hearly, by simp, h.answered⟩
        ⟨prefix_rfl, fun _ h => h, fun _ h => h⟩ rfl
    | _ => simp [hphase] at ho
  | deliver bytes =>
    cases ho
    exact (h.deliver bytes).advances ⟨prefix_append _ _, fun _ h => h, fun _ h => h⟩ rfl
  | read =>
    unfold Connection.step at ho
    cases hphase : c.phase with
    | readingResponse =>
      simp only [hphase] at ho
      obtain ⟨counter, hcounter, hread⟩ := bind_eq_some_iff.1 ho
      exact h.readResponse hphase hcounter hread
    | readingCommand =>
      simp only [hphase] at ho
      exact h.readCommand hphase ho
    | _ => simp [hphase] at ho
  | fail =>
    cases ho
    exact h.advances_close next
  | finish =>
    obtain ⟨-, heq⟩ := ite_none_right_eq_some.1 ho
    cases heq
    exact h.advances_close next

end Spec

/-! ## All connections -/

namespace GuestBus

variable {Command : Type} {sha256 : Bytes → Block 32} {capability : Block 32} {vmId : Block 16}
  {decode : Bytes → Option Command}

variable (sha256 capability vmId decode) in
/-- The connections are sound, and no two challenges were derived from one number. -/
structure Guarded (bus : GuestBus Command) : Prop where
  sound : ∀ c ∈ bus.connections, Sound sha256 capability vmId c
  below : ∀ c ∈ bus.connections, ∀ counter, c.counter = some counter →
    counter.toNat < bus.nextConnection.toNat
  apart : ∀ (j k : Nat) (c c' : Connection) (counter : UInt64), bus.connections[j]? = some c →
    bus.connections[k]? = some c' → c.counter = some counter → c'.counter = some counter → j = k
  decoded : ∀ k payload, (k, payload) ∈ bus.decoded →
    ∃ c, bus.connections[k]? = some c ∧ Commanded c payload
  executed : ∀ k command, (k, command) ∈ bus.executed →
    ∃ payload, (k, payload) ∈ bus.decoded ∧ decode payload = some command
  sent : ∀ payload ∈ bus.sent, Greeting payload

theorem guarded_new : Guarded sha256 capability vmId decode (new : GuestBus Command) where
  sound := nofun
  below := nofun
  apart j k c c' counter hj := by cases hj
  decoded := nofun
  executed := nofun
  sent := nofun

namespace Guarded

variable {bus : GuestBus Command}

theorem accept (h : Guarded sha256 capability vmId decode bus) :
    Guarded sha256 capability vmId decode
      { bus with connections := bus.connections ++ [⟨.admitted, none, [], [], none⟩] } := by
  have hmem : ∀ c ∈ bus.connections ++ [⟨.admitted, none, [], [], none⟩],
      c ∈ bus.connections ∨ c = ⟨.admitted, none, [], [], none⟩ := by simp
  -- the new connection has no counter, so one with a counter is an old one
  have hold : ∀ (k : Nat) (c : Connection) (counter : UInt64),
      (bus.connections ++ [⟨.admitted, none, [], [], none⟩])[k]? = some c →
        c.counter = some counter → bus.connections[k]? = some c := by
    intro k c counter hget hcounter
    rw [getElem?_append] at hget
    split at hget
    · exact hget
    · rw [getElem?_singleton] at hget
      split at hget
      · cases hget
        cases hcounter
      · cases hget
  refine { h with sound := ?_, below := ?_, apart := ?_, decoded := ?_ }
  · intro c hc
    rcases hmem c hc with hc | rfl
    · exact h.sound c hc
    · exact ⟨fun _ => rfl, by simp, fun _ => ⟨rfl, rfl⟩, nofun⟩
  · intro c hc
    rcases hmem c hc with hc | rfl
    · exact h.below c hc
    · nofun
  · intro j k c c' counter hj hk hc hc'
    exact h.apart j k c c' counter (hold j c counter hj hc) (hold k c' counter hk hc') hc hc'
  · intro k payload hdecoded
    obtain ⟨c, hget, hcommanded⟩ := h.decoded k payload hdecoded
    have hlt := (List.getElem?_eq_some_iff.1 hget).1
    exact ⟨c, by rw [getElem?_append_left hlt, hget], hcommanded⟩

variable {o : Outcome Command}

theorem counter_of_advances {next : UInt64} (hadv : Advances sha256 capability vmId decode next c o)
    (hcounter : o.connection.counter = some counter) :
    c.counter = some counter ∧ o.nextConnection = next ∨
      counter = next ∧ next.toNat < o.nextConnection.toNat := by
  rcases hadv.fresh with ⟨hnext, hsame⟩ | ⟨hnew, hlt⟩
  · exact .inl ⟨hsame ▸ hcounter, hnext⟩
  · cases hnew.symm.trans hcounter
    exact .inr ⟨rfl, hlt⟩

theorem signal (h : Guarded sha256 capability vmId decode bus) {k : Nat}
    (hget : bus.connections[k]? = some c)
    (hadv : Advances sha256 capability vmId decode bus.nextConnection c o) :
    Guarded sha256 capability vmId decode
      { nextConnection := o.nextConnection
        connections := bus.connections.set k o.connection
        sent := bus.sent ++ o.sent
        decoded := bus.decoded ++ o.decoded.map (k, ·)
        executed := bus.executed ++ o.executed.map (k, ·) } := by
  have hlt := (List.getElem?_eq_some_iff.1 hget).1
  have hset : ∀ (j : Nat) (c' : Connection), (bus.connections.set k o.connection)[j]? = some c' →
      j = k ∧ c' = o.connection ∨ j ≠ k ∧ bus.connections[j]? = some c' := by
    intro j c' hj
    rw [getElem?_set] at hj
    split at hj
    · next heq =>
      exact .inl ⟨heq.symm, (some.inj hj).symm⟩
    · next hne => exact .inr ⟨Ne.symm hne, hj⟩
  have hmono : bus.nextConnection.toNat ≤ o.nextConnection.toNat := by
    rcases hadv.fresh with ⟨hnext, -⟩ | ⟨-, hnext⟩
    · rw [hnext]
    · exact hnext.le
  have hown := h.below c (mem_of_getElem? hget)
  -- a counter of another connection is not the one just taken
  have hother : ∀ (j : Nat) (c' : Connection) (counter : UInt64), j ≠ k →
      bus.connections[j]? = some c' → c'.counter = some counter →
        o.connection.counter ≠ some counter := by
    intro j c' counter hne hj hc' hcounter
    rcases counter_of_advances hadv hcounter with ⟨hsame, -⟩ | ⟨rfl, -⟩
    · exact hne (h.apart j k c' c counter hj hget hc' hsame)
    · exact absurd (h.below c' (mem_of_getElem? hj) _ hc') (lt_irrefl _)
  refine ⟨?_, ?_, ?_, ?_, ?_, ?_⟩
  · intro c' hc'
    rcases mem_or_eq_of_mem_set hc' with hold | rfl
    · exact h.sound c' hold
    · exact hadv.sound
  · intro c' hc' counter hcounter
    rcases mem_or_eq_of_mem_set hc' with hold | rfl
    · exact (h.below c' hold counter hcounter).trans_le hmono
    · rcases counter_of_advances hadv hcounter with ⟨hsame, -⟩ | ⟨rfl, hnext⟩
      · exact (hown counter hsame).trans_le hmono
      · exact hnext
  · intro i j c₁ c₂ counter hi hj h₁ h₂
    rcases hset i c₁ hi with ⟨hik, rfl⟩ | ⟨hik, hi'⟩
    · rcases hset j c₂ hj with ⟨hjk, -⟩ | ⟨hjk, hj'⟩
      · exact hik.trans hjk.symm
      · exact absurd h₁ (hother j c₂ counter hjk hj' h₂)
    · rcases hset j c₂ hj with ⟨-, rfl⟩ | ⟨-, hj'⟩
      · exact absurd h₂ (hother i c₁ counter hik hi' h₁)
      · exact h.apart i j c₁ c₂ counter hi' hj' h₁ h₂
  · intro j payload hmem
    rcases mem_append.1 hmem with hold | hnew
    · obtain ⟨c', hc', hcommanded⟩ := h.decoded j payload hold
      by_cases hj : j = k
      · subst hj
        cases hget.symm.trans hc'
        exact ⟨o.connection, by simp [hlt], hcommanded.grows hadv.grows⟩
      · exact ⟨c', by rw [getElem?_set_ne (Ne.symm hj), hc'], hcommanded⟩
    · obtain ⟨payload', hpayload, heq⟩ := mem_map.1 hnew
      cases heq
      exact ⟨o.connection, by simp [hlt], hadv.decoded payload hpayload⟩
  · intro j command hmem
    rcases mem_append.1 hmem with hold | hnew
    · obtain ⟨payload, hpayload, hdecode⟩ := h.executed j command hold
      exact ⟨payload, mem_append_left _ hpayload, hdecode⟩
    · obtain ⟨command', hcommand, heq⟩ := mem_map.1 hnew
      cases heq
      obtain ⟨payload, hpayload, hdecode⟩ := hadv.executed command hcommand
      exact ⟨payload, mem_append_right _ (mem_map_of_mem hpayload), hdecode⟩
  · intro payload hmem
    rcases mem_append.1 hmem with hold | hnew
    · exact h.sent payload hold
    · exact hadv.sent payload hnew

theorem step (h : Guarded sha256 capability vmId decode bus) {event : BusEvent}
    {bus' : GuestBus Command} (hstep : bus.step sha256 capability vmId decode event = some bus') :
    Guarded sha256 capability vmId decode bus' := by
  cases event with
  | accept =>
    change (if _ then _ else some bus) = some bus' at hstep
    split at hstep
    · cases hstep
      exact h.accept
    · cases hstep
      exact h
  | signal k signal =>
    obtain ⟨c, hget, hrest⟩ := bind_eq_some_iff.1 hstep
    obtain ⟨o, ho, heq⟩ := bind_eq_some_iff.1 hrest
    cases heq
    exact h.signal hget ((h.sound c (mem_of_getElem? hget)).step ho)

end Guarded

theorem frameBytes_prefix_unique {stream payload payload' : Bytes}
    (hlen : payload.length ≤ maxAuthFrame) (hlen' : payload'.length ≤ maxAuthFrame)
    (h : frameBytes payload <+: stream) (h' : frameBytes payload' <+: stream) :
    payload = payload' := by
  obtain ⟨rest, hrest⟩ := h
  obtain ⟨rest', hrest'⟩ := h'
  have hfront := (front_eq_frame maxAuthFrame_lt stream payload rest).2 ⟨hlen, hrest.symm⟩
  have hfront' := (front_eq_frame maxAuthFrame_lt stream payload' rest').2 ⟨hlen', hrest'.symm⟩
  cases hfront.symm.trans hfront'
  rfl

theorem not_answers_of_greeting {payload : Bytes} (h : Greeting payload) (counter : UInt64) :
    ¬ Answers sha256 capability vmId counter payload := by
  rintro ⟨response, hresponse, -⟩
  have hhead := AuthResponseV1.fieldCodec.head_of_openEnvelope hresponse
  rcases h.2 with hchallenge | haccepted
  · rw [hhead] at hchallenge
    exact absurd (some.inj hchallenge) (by decide)
  · rw [hhead] at haccepted
    exact absurd (some.inj haccepted) (by decide)

/-- One payload does not answer two challenges, if challenges differ and HMAC tells
their transcripts apart. -/
theorem answers_unique (hnonces : Function.Injective (deriveAuthChallenge sha256 capability vmId))
    (hhmac : Set.InjOn (hmac sha256 capability.1) (Set.range fun challenge =>
      (MacInput.response vmId commandAuthContextV1 challenge).transcript))
    {counter counter' : UInt64} {payload : Bytes}
    (h : Answers sha256 capability vmId counter payload)
    (h' : Answers sha256 capability vmId counter' payload) : counter = counter' := by
  obtain ⟨response, hresponse, hmac⟩ := h
  obtain ⟨response', hresponse', hmac'⟩ := h'
  cases hresponse.symm.trans hresponse'
  have hmacs := hmac.trans hmac'.symm
  have hmac_eq := fun challenge => (MacInput.response vmId commandAuthContextV1 challenge).mac_eq
    sha256 capability
  have hsame := hhmac ⟨_, rfl⟩ ⟨_, rfl⟩ (((hmac_eq _).symm.trans hmacs).trans (hmac_eq _))
  have hchallenge := MacInput.transcript_injective hsame
  exact hnonces (MacInput.response.inj hchallenge).2.2

/-- **The gate.**  A command is decoded on a connection only if the first frame its peer
sent is a response with the MAC over that connection's own challenge, and executed only
if it was decoded.  With distinct challenges and an HMAC that tells their transcripts
apart, a response accepted on one connection opens no other; and no frame the guest has
written opens any. -/
theorem commands_authenticated {events : List BusEvent} {bus : GuestBus Command}
    (h : Run.Trace (fun b event b' => b.step sha256 capability vmId decode event = some b')
      new events bus) : (∀ k payload, (k, payload) ∈ bus.decoded → ∃ c counter response,
      bus.connections[k]? = some c ∧ c.counter = some counter ∧
        frameBytes response ++ frameBytes payload <+: c.received ∧
          Answers sha256 capability vmId counter response) ∧
    (∀ k command, (k, command) ∈ bus.executed →
      ∃ payload, (k, payload) ∈ bus.decoded ∧ decode payload = some command) ∧
    (Function.Injective (deriveAuthChallenge sha256 capability vmId) →
      Set.InjOn (hmac sha256 capability.1) (Set.range fun challenge =>
        (MacInput.response vmId commandAuthContextV1 challenge).transcript) →
      ∀ (j k : Nat) (c c' : Connection) (response : Bytes), j ≠ k →
        bus.connections[j]? = some c → bus.connections[k]? = some c' →
        c.authenticated = some response → frameBytes response <+: c'.received →
        c'.authenticated = none ∧ ∀ payload, (k, payload) ∉ bus.decoded) ∧
    (∀ (k : Nat) (c : Connection), bus.connections[k]? = some c → ∀ frame ∈ bus.sent,
      frameBytes frame <+: c.received →
      c.authenticated = none ∧ ∀ payload, (k, payload) ∉ bus.decoded) := by
  have hguarded : Guarded sha256 capability vmId decode bus :=
    h.invariant (I := fun _ b => Guarded sha256 capability vmId decode b) guarded_new
      fun _ _ _ _ ih hstep => ih.step hstep
  -- a connection that accepted nothing decodes nothing
  have hquiet : ∀ (k : Nat) (c : Connection), bus.connections[k]? = some c →
      c.authenticated = none → ∀ payload, (k, payload) ∉ bus.decoded := by
    intro k c hget hnone payload hdecoded
    obtain ⟨c', hget', response, hauth, -⟩ := hguarded.decoded k payload hdecoded
    cases hget.symm.trans hget'
    rw [hnone] at hauth
    cases hauth
  refine ⟨?_, hguarded.executed, ?_, ?_⟩
  · intro k payload hdecoded
    obtain ⟨c, hget, response, hauth, hprefix⟩ := hguarded.decoded k payload hdecoded
    obtain ⟨-, -, counter, hcounter, hanswers⟩ :=
      (hguarded.sound c (mem_of_getElem? hget)).answered response hauth
    exact ⟨c, counter, response, hget, hcounter, hprefix, hanswers⟩
  · intro hnonces hhmac j k c c' response hne hj hk hauth hfirst
    obtain ⟨hlen, -, counter, hcounter, hanswers⟩ :=
      (hguarded.sound c (mem_of_getElem? hj)).answered response hauth
    have hnone : c'.authenticated = none := by
      by_contra hsome
      obtain ⟨response', hauth'⟩ := ne_none_iff_exists'.1 hsome
      obtain ⟨hlen', hfirst', counter', hcounter', hanswers'⟩ :=
        (hguarded.sound c' (mem_of_getElem? hk)).answered response' hauth'
      obtain rfl := frameBytes_prefix_unique hlen hlen' hfirst hfirst'
      obtain rfl := answers_unique hnonces hhmac hanswers hanswers'
      exact hne (hguarded.apart j k c c' counter hj hk hcounter hcounter')
    exact ⟨hnone, hquiet k c' hk hnone⟩
  · intro k c hget frame hsent hfirst
    have hgreeting := hguarded.sent frame hsent
    have hnone : c.authenticated = none := by
      by_contra hsome
      obtain ⟨response, hauth⟩ := ne_none_iff_exists'.1 hsome
      obtain ⟨hlen, hfirst', counter, -, hanswers⟩ :=
        (hguarded.sound c (mem_of_getElem? hget)).answered response hauth
      obtain rfl := frameBytes_prefix_unique hgreeting.1 hlen hfirst hfirst'
      exact not_answers_of_greeting hgreeting counter hanswers
    exact ⟨hnone, hquiet k c hget hnone⟩

/-! ### A run -/

/-- A hash that keeps the last 32 bytes. -/
def tailBlock (bs : Bytes) : Block 32 :=
  ⟨(List.replicate 32 0 ++ bs).drop bs.length, by
    rw [List.length_drop, List.length_append, List.length_replicate, Nat.add_sub_cancel]⟩

theorem suffix_tailBlock (xs ys : Bytes) (h : ys.length ≤ 32) :
    ys <:+ (tailBlock (xs ++ ys)).1 := by
  have hle : (xs ++ ys).length ≤ (List.replicate 32 (0 : UInt8) ++ xs).length := by
    rw [length_append, length_append, length_replicate]
    omega
  refine ⟨(List.replicate 32 0 ++ xs).drop (xs ++ ys).length, ?_⟩
  show _ = (List.replicate 32 0 ++ (xs ++ ys)).drop (xs ++ ys).length
  rw [← append_assoc, drop_append_of_le_length hle]

theorem suffix_hmac (key xs ys : Bytes) (h : ys.length ≤ 32) :
    ys <:+ (hmac tailBlock key (xs ++ ys)).1 := by
  unfold hmac
  rw [← append_assoc]
  refine (suffix_tailBlock _ ys h).trans (suffix_tailBlock _ _ ?_)
  exact (tailBlock _).2.le

theorem ends_eq_of_hmac_eq {key xs ys xs' ys' : Bytes} (hlen : ys.length = ys'.length)
    (h32 : ys.length ≤ 32) (h : hmac tailBlock key (xs ++ ys) = hmac tailBlock key (xs' ++ ys')) :
    ys = ys' := by
  have hys := suffix_hmac key xs ys h32
  have hys' := suffix_hmac key xs' ys' (hlen ▸ h32)
  rw [h] at hys
  exact (suffix_of_suffix_length_le hys hys' hlen.le).eq_of_length hlen

theorem tailBlock_nonces (capability : Block 32) (vmId : Block 16) :
    Function.Injective (deriveAuthChallenge tailBlock capability vmId) := by
  intro counter counter' h
  have hmacs := ((MacInput.challenge vmId counter).mac_eq tailBlock capability).symm.trans
    (Eq.trans h ((MacInput.challenge vmId counter').mac_eq tailBlock capability))
  unfold MacInput.transcript MacInput.payload at hmacs
  rw [← append_assoc, ← append_assoc] at hmacs
  have hlen : ∀ counter : UInt64, (leBytes counter).length = 8 := fun _ => length_leBytes _
  exact leBytes_injective (ends_eq_of_hmac_eq (by simp only [hlen]) (by simp only [hlen]; omega) hmacs)

theorem tailBlock_injOn (capability : Block 32) (vmId : Block 16) :
    Set.InjOn (hmac tailBlock capability.1) (Set.range fun challenge =>
      (MacInput.response vmId commandAuthContextV1 challenge).transcript) := by
  rintro _ ⟨challenge, rfl⟩ _ ⟨challenge', rfl⟩ h
  have hend : challenge.1 = challenge'.1 := by
    simp only [MacInput.transcript, MacInput.payload, ← append_assoc] at h
    exact ends_eq_of_hmac_eq (challenge.2.trans challenge'.2.symm) challenge.2.le h
  rw [Subtype.ext hend]

theorem length_zeros (n : Nat) : (List.replicate n (0 : UInt8)).length = n := length_replicate

def zeros (n : Nat) : Block n := ⟨List.replicate n 0, length_zeros n⟩

/-- The host's response on the first connection, and a command of one byte. -/
def openingBytes : Bytes :=
  match (AuthResponseV1.forChallenge tailBlock (zeros 32) (zeros 16)
    (challengeOf tailBlock (zeros 32) (zeros 16) 0)).toBytes with
  | .ok response => frameBytes response ++ frameBytes [1]
  | .error _ => []

def oneCommand : List BusEvent :=
  [.accept, .accept, .signal 0 .start, .signal 1 .start, .signal 0 .wrote, .signal 1 .wrote,
    .signal 0 (.deliver openingBytes), .signal 1 (.deliver openingBytes), .signal 0 .read,
    .signal 1 .read, .signal 0 .wrote, .signal 0 .read]

/-- The same bytes on two connections: the first executes the command, the second
decodes nothing. -/
theorem oneCommand_authenticated : ∃ bus : GuestBus Bytes,
    Run.Trace (fun b event b' => b.step tailBlock (zeros 32) (zeros 16) some event = some b')
      new oneCommand bus ∧ bus.executed = [(0, [1])] ∧ ∀ payload, (1, payload) ∉ bus.decoded := by
  have hrun : (oneCommand.foldlM (step tailBlock (zeros 32) (zeros 16) some)
      (new : GuestBus Bytes)).any (fun bus => bus.executed = [(0, [1])] &&
        (bus.connections[0]?.bind (·.authenticated)).any (fun response =>
          bus.connections[1]?.any fun c => frameBytes response <+: c.received)) = true := by
    decide +kernel
  obtain ⟨bus, hbus, hfacts⟩ := (any_eq_true _ _).1 hrun
  rw [Bool.and_eq_true, decide_eq_true_eq, Option.any_eq_true] at hfacts
  obtain ⟨hexecuted, response, hresponse, hsecond⟩ := hfacts
  obtain ⟨c, hc, hauth⟩ := bind_eq_some_iff.1 hresponse
  obtain ⟨c', hc', hprefix⟩ := (any_eq_true _ _).1 hsecond
  have htrace : Run.Trace (fun b event b' =>
      b.step tailBlock (zeros 32) (zeros 16) some event = some b') new oneCommand bus :=
    Run.Trace.of_foldlM hbus
  have hreplay := (commands_authenticated htrace).2.2.1 (tailBlock_nonces _ _)
    (tailBlock_injOn _ _) 0 1 c c' response (by decide) hc hc' hauth (of_decide_eq_true hprefix)
  exact ⟨bus, htrace, hexecuted, hreplay.2⟩

end GuestBus

end Jyth.Guest
