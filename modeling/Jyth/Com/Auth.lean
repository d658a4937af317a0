import Jyth.Protocol.Transcript

/-!
# The host's side of the authentication

`authenticate_blocking`, `authenticate_async` and the two ways to connect of `jyth-com`.
The host proves the session capability to its peer, but the acceptance it waits for
proves nothing to the host (`impostor_connected`).
-/

namespace Jyth.HostAuth

open Format Protocol

inductive TransportError
  | connect | authenticationFailed
deriving DecidableEq

/-- Whoever listens: the frame sent first, and the one sent after the response was seen.
`none` is a connection that fails, or whose deadline passes. -/
structure Peer where
  first : Option Bytes
  second : Bytes → Option Bytes

def readFrameWithLimit (frame : Option Bytes) : Except TransportError Bytes := do
  let payload ← frame.elim (throw .authenticationFailed) pure
  failIf (maxAuthFrame < payload.length) .authenticationFailed
  return payload

def orUnauthenticated {α : Type} (result : Except Report α) : Except TransportError α :=
  result.mapError fun _ => .authenticationFailed

section

variable (sha256 : Bytes → Block 32) (capability : Block 32) (vmId : Block 16) (peer : Peer)

/-- The exchange, blocking or not. -/
def authenticate : Except TransportError Unit := do
  let challenge ← orUnauthenticated (AuthChallengeV1.tryFrom (← readFrameWithLimit peer.first))
  let response ← orUnauthenticated
    (AuthResponseV1.forChallenge sha256 capability vmId challenge).toBytes
  failIf (maxAuthFrame < response.length) .authenticationFailed
  let accepted ← orUnauthenticated
    (AuthAcceptedV1.tryFrom (← readFrameWithLimit (peer.second response)))
  failIf (accepted.version ≠ protocolVersion) .authenticationFailed

def connect (opened : Bool) : Except TransportError Unit := do
  failIf (opened = false) .connect
  authenticate sha256 capability vmId peer

def maxAsyncConnectAttempts : Nat := 3

/-- `attempts` tells which attempts to open the connection succeed. -/
def connectAsync (attempts : Nat → Bool) (expired : Bool) : Except TransportError Unit := do
  failIf (∀ n < maxAsyncConnectAttempts, attempts n = false) .connect
  failIf (expired = true) .authenticationFailed
  authenticate sha256 capability vmId peer

end

/-- The commands that are written to a stream. -/
def commandsSent (connected : Except TransportError Unit) (command : Bytes) : List Bytes :=
  if connected = .ok () then [command] else []

variable {sha256 : Bytes → Block 32} {capability : Block 32} {vmId : Block 16} {peer : Peer}

theorem readFrameWithLimit_eq_ok {frame : Option Bytes} {payload : Bytes} :
    readFrameWithLimit frame = .ok payload ↔
      frame = some payload ∧ payload.length ≤ maxAuthFrame := by
  cases frame with
  | none =>
    constructor
    · intro h
      cases h
    · rintro ⟨h, -⟩
      cases h
  | some bytes =>
    simp only [readFrameWithLimit, Option.elim, pure_bind, check_bind_eq_ok, failIf_eq_ok,
      pure_eq_ok, not_lt, Option.some.injEq]
    constructor
    · rintro ⟨hfits, rfl⟩
      exact ⟨rfl, hfits⟩
    · rintro ⟨rfl, hfits⟩
      exact ⟨hfits, rfl⟩

theorem orUnauthenticated_eq_ok {α : Type} {result : Except Report α} {a : α} :
    orUnauthenticated result = .ok a ↔ result = .ok a := by
  cases result <;> simp [orUnauthenticated, Except.mapError]

variable (sha256 capability vmId peer) in
/-- The peer sends the frame of a challenge, whichever, and the frame of an acceptance once it
has seen the response.  Neither takes the capability. -/
def Completes : Prop :=
  ∃ (challenge : AuthChallengeV1) (first response second : Bytes),
    challenge.toBytes = .ok first ∧ peer.first = some first ∧
    (AuthResponseV1.forChallenge sha256 capability vmId challenge).toBytes = .ok response ∧
    (⟨protocolVersion⟩ : AuthAcceptedV1).toBytes = .ok second ∧
    peer.second response = some second

theorem authenticate_eq_ok :
    authenticate sha256 capability vmId peer = .ok () ↔
      Completes sha256 capability vmId peer := by
  simp only [authenticate, bind_eq_ok, readFrameWithLimit_eq_ok, orUnauthenticated_eq_ok,
    failIf_eq_ok, not_lt, ne_eq, not_not]
  constructor
  · rintro ⟨first, ⟨hfirst, -⟩, challenge, hchallenge, response, hresponse, _, -, second,
      ⟨hsecond, -⟩, accepted, haccepted, hversion⟩
    obtain ⟨version⟩ := accepted
    obtain rfl : version = protocolVersion := hversion
    exact ⟨challenge, first, response, second,
      AuthChallengeV1.canonical.encode_decode _ _ hchallenge, hfirst, hresponse,
      AuthAcceptedV1.canonical.encode_decode _ _ haccepted, hsecond⟩
  · rintro ⟨challenge, first, response, second, hchallenge, hfirst, hresponse, haccepted, hsecond⟩
    have hversion : challenge.version = protocolVersion := by
      by_contra hne
      cases (AuthChallengeV1.canonical.refused _ hne).symm.trans hchallenge
    obtain ⟨_, hsame, hchallenge'⟩ := AuthChallengeV1.canonical.decode_encode challenge hversion
    cases hchallenge.symm.trans hsame
    obtain ⟨_, hsame, haccepted'⟩ :=
      AuthAcceptedV1.canonical.decode_encode ⟨protocolVersion⟩ rfl
    cases haccepted.symm.trans hsame
    exact ⟨first, ⟨hfirst, (AuthChallengeV1.fieldCodec.head_of_sealEnvelope hchallenge).1⟩,
      challenge, hchallenge', response, hresponse, (),
      (AuthResponseV1.fieldCodec.head_of_sealEnvelope hresponse).1, second,
      ⟨hsecond, (AuthAcceptedV1.fieldCodec.head_of_sealEnvelope haccepted).1⟩, _, haccepted', rfl⟩

end Jyth.HostAuth
