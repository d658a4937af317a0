import Jyth.Protocol.Envelope

/-!
# HMAC transcripts

`hmac_sha256` of `protocol/src/auth.rs` and the three functions that call it.
The hash is a parameter.  What is authenticated is one byte string, the
concatenation of the parts, and each purpose puts its own domain in front:

    deriveAuthChallenge sha256 c vmId n  = hmac sha256 c (transcript (.challenge vmId n))
    computeAuthMac sha256 c vmId sid ch  = hmac sha256 c (transcript (.response vmId sid ch))
    computeReadyMac sha256 c frame       = hmac sha256 c (transcript (.ready frame))

`transcript` is injective over all three purposes together, so a MAC computed
for one call says nothing about another (`transcripts_injective`), and a READY
message verifies for its own key and frame only (`ready_proof`).
-/

namespace Jyth.Protocol

open Format List BootConfigV1

/-! ## HMAC -/

def blockSize : Nat := 64

/-- The key, hashed when it is longer than a block, padded to a block with zeros. -/
def keyBlock (sha256 : Bytes → Block 32) (key : Bytes) : Bytes :=
  let key := if blockSize < key.length then (sha256 key).1 else key
  key ++ List.replicate (blockSize - key.length) 0

def xorPad (pad : UInt8) (block : Bytes) : Bytes := block.map (pad ^^^ ·)

def hmacSha256 (sha256 : Bytes → Block 32) (key : Bytes) (parts : List Bytes) : Block 32 :=
  let ipad := xorPad 0x36 (keyBlock sha256 key)
  let opad := xorPad 0x5c (keyBlock sha256 key)
  let innerDigest := sha256 (parts.foldl (· ++ ·) ipad)
  sha256 (opad ++ innerDigest.1)

/-! ## The three constructions -/

def bootDomain : Bytes := utf8 "jyth/boot-ready/v1\x00"
def challengeDomain : Bytes := utf8 "jyth/auth-challenge/v1\x00"
def responseDomain : Bytes := utf8 "jyth/auth-response/v1\x00"

def commandAuthContextV1 : Bytes := utf8 "00000400-FACB-11E6-BD58-64006A7986D3"

section
variable (sha256 : Bytes → Block 32) (capability : Block 32)

def deriveAuthChallenge (vmId : Block 16) (connectionCounter : UInt64) : Block 32 :=
  hmacSha256 sha256 capability.1 [challengeDomain, vmId.1, leBytes connectionCounter]

/-- The length of `serviceId` is cast to `u32`, which drops its high bits. -/
def computeAuthMac (vmId : Block 16) (serviceId : Bytes) (challenge : Block 32) : Block 32 :=
  hmacSha256 sha256 capability.1 [responseDomain, leBytes protocolVersion, vmId.1,
    leBytes (UInt32.ofNat serviceId.length), serviceId, challenge.1]

def computeReadyMac (bootFrame : Bytes) : Block 32 :=
  hmacSha256 sha256 capability.1 [bootDomain, bootFrame]

namespace AuthResponseV1

def forChallenge (vmId : Block 16) (challenge : AuthChallengeV1) : AuthResponseV1 :=
  ⟨protocolVersion, computeAuthMac sha256 capability vmId commandAuthContextV1 challenge.challenge⟩

end AuthResponseV1

namespace ReadyV1

def forBoot (bootFrame : Bytes) : Except Report ReadyV1 := do
  let boot ← BootConfigV1.tryFrom bootFrame
  return ⟨protocolVersion, boot.vmId, boot.hostNonce, computeReadyMac sha256 capability bootFrame⟩

def verify (m : ReadyV1) (bootFrame : Bytes) : Except Report Unit := do
  failIf (m.version ≠ protocolVersion) versionMismatch
  let boot ← BootConfigV1.tryFrom bootFrame
  failIf (m.vmId ≠ boot.vmId ∨ m.hostNonce ≠ boot.hostNonce) ⟨.authentication, none⟩
  failIf (computeReadyMac sha256 capability bootFrame ≠ m.mac) ⟨.authentication, none⟩

theorem verify_eq_ok (m : ReadyV1) (bootFrame : Bytes) :
    m.verify sha256 capability bootFrame = .ok () ↔
      forBoot sha256 capability bootFrame = .ok m := by
  rw [verify, check_bind_eq_ok, failIf_eq_ok, not_not, bind_eq_ok, forBoot, bind_eq_ok]
  simp only [check_bind_eq_ok, failIf_eq_ok, not_or, not_not, pure_eq_ok]
  constructor
  · rintro ⟨hversion, boot, hboot, ⟨hvm, hnonce⟩, hmac⟩
    refine ⟨boot, hboot, ?_⟩
    rw [← hversion, ← hvm, ← hnonce, hmac]
  · rintro ⟨boot, hboot, rfl⟩
    exact ⟨rfl, boot, hboot, ⟨rfl, rfl⟩, rfl⟩

end ReadyV1

end

/-! ## What is authenticated -/

/-- A call of one of the three functions, the key apart. -/
inductive MacInput
  | challenge (vmId : Block 16) (connectionCounter : UInt64)
  | response (vmId : Block 16) (serviceId : Bytes) (challenge : Block 32)
  | ready (bootFrame : Bytes)

/-- HMAC of a single string. -/
def hmac (sha256 : Bytes → Block 32) (key : Bytes) (message : Bytes) : Block 32 :=
  sha256 (xorPad 0x5c (keyBlock sha256 key)
    ++ (sha256 (xorPad 0x36 (keyBlock sha256 key) ++ message)).1)

theorem hmacSha256_eq (sha256 : Bytes → Block 32) (key : Bytes) (parts : List Bytes) :
    hmacSha256 sha256 key parts = hmac sha256 key parts.flatten := by
  have hparts : ∀ start, parts.foldl (· ++ ·) start = start ++ (parts.map id).flatten :=
    fun _ => foldl_append_eq_append
  simp only [hmacSha256, hmac, hparts, map_id]

namespace MacInput

def domain : MacInput → Bytes
  | challenge _ _ => challengeDomain
  | response _ _ _ => responseDomain
  | ready _ => bootDomain

def payload : MacInput → Bytes
  | challenge vmId counter => vmId.1 ++ leBytes counter
  | response vmId serviceId ch => leBytes protocolVersion ++ (vmId.1
      ++ (leBytes (UInt32.ofNat serviceId.length) ++ (serviceId ++ ch.1)))
  | ready bootFrame => bootFrame

def transcript (input : MacInput) : Bytes := input.domain ++ input.payload

/-- What the call returns. -/
def mac (sha256 : Bytes → Block 32) (capability : Block 32) : MacInput → Block 32
  | challenge vmId counter => deriveAuthChallenge sha256 capability vmId counter
  | response vmId serviceId ch => computeAuthMac sha256 capability vmId serviceId ch
  | ready bootFrame => computeReadyMac sha256 capability bootFrame

theorem mac_eq (sha256 : Bytes → Block 32) (capability : Block 32) (input : MacInput) :
    input.mac sha256 capability = hmac sha256 capability.1 input.transcript := by
  cases input with
  | challenge =>
    simp [mac, deriveAuthChallenge, hmacSha256_eq, transcript, domain, payload]
  | response =>
    simp [mac, computeAuthMac, hmacSha256_eq, transcript, domain, payload]
  | ready =>
    simp [mac, computeReadyMac, hmacSha256_eq, transcript, domain, payload]

/-- Six bytes inside the domain name the purpose. -/
def mark (input : MacInput) : Bytes := (input.transcript.take 11).drop 5

variable {vmId vmId' : Block 16}

theorem payload_injective_challenge {counter counter' : UInt64}
    (h : (challenge vmId counter).payload = (challenge vmId' counter').payload) :
    challenge vmId counter = challenge vmId' counter' := by
  obtain ⟨hvm, hcounter⟩ := append_inj h (by rw [vmId.2, vmId'.2])
  rw [Subtype.ext hvm, leBytes_injective hcounter]

/-- The challenge has a fixed width, so the service id is what is left between
it and the length field, whatever that field holds. -/
theorem payload_injective_response {serviceId serviceId' : Bytes} {ch ch' : Block 32}
    (h : (response vmId serviceId ch).payload = (response vmId' serviceId' ch').payload) :
    response vmId serviceId ch = response vmId' serviceId' ch' := by
  have h := append_cancel_left h
  obtain ⟨hvm, h⟩ := append_inj h (by rw [vmId.2, vmId'.2])
  obtain ⟨-, h⟩ := append_inj h (by rw [length_leBytes, length_leBytes])
  obtain ⟨hservice, hch⟩ := append_inj' h (by rw [ch.2, ch'.2])
  rw [Subtype.ext hvm, hservice, Subtype.ext hch]

theorem transcript_injective : Function.Injective transcript := by
  intro a b h
  have hmark : a.mark = b.mark := by rw [mark, mark, h]
  cases a with
  | challenge vmId counter =>
    cases b with
    | challenge vmId' counter' =>
      exact payload_injective_challenge (append_cancel_left h)
    | response => exact absurd hmark (by show utf8 "auth-c" ≠ utf8 "auth-r"; decide)
    | ready => exact absurd hmark (by show utf8 "auth-c" ≠ utf8 "boot-r"; decide)
  | response vmId serviceId ch =>
    cases b with
    | challenge => exact absurd hmark (by show utf8 "auth-r" ≠ utf8 "auth-c"; decide)
    | response vmId' serviceId' ch' =>
      exact payload_injective_response (append_cancel_left h)
    | ready => exact absurd hmark (by show utf8 "auth-r" ≠ utf8 "boot-r"; decide)
  | ready bootFrame =>
    cases b with
    | challenge => exact absurd hmark (by show utf8 "boot-r" ≠ utf8 "auth-c"; decide)
    | response => exact absurd hmark (by show utf8 "boot-r" ≠ utf8 "auth-r"; decide)
    | ready bootFrame' => rw [show bootFrame = bootFrame' from append_cancel_left h]

end MacInput

/-! ## The key -/

theorem keyBlock_capability (sha256 : Bytes → Block 32) (capability : Block 32) :
    keyBlock sha256 capability.1 = capability.1 ++ List.replicate 32 0 := by
  have hlen := capability.2
  simp [keyBlock, blockSize, hlen]

theorem length_keyBlock (sha256 : Bytes → Block 32) (capability : Block 32) :
    (keyBlock sha256 capability.1).length = blockSize := by
  rw [keyBlock_capability, length_append, capability.2, length_replicate]
  rfl

theorem xorPad_injective (pad : UInt8) : Function.Injective (xorPad pad) := by
  refine map_injective_iff.2 fun a b h => ?_
  exact (UInt8.xor_right_inj pad).1 h

variable {capability capability' : Block 32}

theorem keyBlock_injective (sha256 : Bytes → Block 32)
    (h : keyBlock sha256 capability.1 = keyBlock sha256 capability'.1) :
    capability = capability' := by
  rw [keyBlock_capability, keyBlock_capability] at h
  exact Subtype.ext (append_cancel_right h)

def innerInput (sha256 : Bytes → Block 32) (capability : Block 32) (input : MacInput) : Bytes :=
  xorPad 0x36 (keyBlock sha256 capability.1) ++ input.transcript

theorem innerInput_injective (sha256 : Bytes → Block 32) {input input' : MacInput}
    (h : innerInput sha256 capability input = innerInput sha256 capability' input') :
    capability = capability' ∧ input = input' := by
  obtain ⟨hkey, htranscript⟩ := append_inj h (by simp only [xorPad, length_map, length_keyBlock])
  exact ⟨keyBlock_injective sha256 (xorPad_injective _ hkey),
    MacInput.transcript_injective htranscript⟩

/-- **MAC transcripts.**  The three functions authenticate the transcripts of
their calls; no two calls, of one function or of two, have the same transcript;
with the key in front, not even under different keys. -/
theorem transcripts_injective (sha256 : Bytes → Block 32) :
    (∀ (capability : Block 32) (input : MacInput),
      input.mac sha256 capability = hmac sha256 capability.1 input.transcript) ∧
    (∀ input input' : MacInput, input.transcript = input'.transcript → input = input') ∧
    (∀ (capability capability' : Block 32) (input input' : MacInput),
      innerInput sha256 capability input = innerInput sha256 capability' input' →
        capability = capability' ∧ input = input') :=
  ⟨fun capability input => input.mac_eq sha256 capability,
    fun _ _ h => MacInput.transcript_injective h, fun _ _ _ _ h => innerInput_injective sha256 h⟩

/-! ## The READY proof -/

section Ready

variable (sha256 : Bytes → Block 32)

/-- HMAC tells the two calls apart: equal codes come from one key and one message.  No
function onto 32 bytes does so for all calls at once. -/
def Collisionless (capability capability' : Block 32) (input input' : MacInput) : Prop :=
  hmac sha256 capability.1 input.transcript = hmac sha256 capability'.1 input'.transcript →
    capability = capability' ∧ input.transcript = input'.transcript

variable {sha256} {bootFrame bootFrame' : Bytes}

theorem computeReadyMac_inj
    (hmac : Collisionless sha256 capability capability' (.ready bootFrame) (.ready bootFrame'))
    (h : computeReadyMac sha256 capability bootFrame =
      computeReadyMac sha256 capability' bootFrame') :
    capability = capability' ∧ bootFrame = bootFrame' := by
  have heq := MacInput.mac_eq sha256 capability (.ready bootFrame)
  have heq' := MacInput.mac_eq sha256 capability' (.ready bootFrame')
  obtain ⟨hkey, htranscript⟩ := hmac (heq.symm.trans (h.trans heq'))
  have hinput := MacInput.transcript_injective htranscript
  exact ⟨hkey, by injection hinput⟩

theorem verify_forBoot_iff {m : ReadyV1} (hm : ReadyV1.forBoot sha256 capability bootFrame = .ok m)
    (hmac : Collisionless sha256 capability capability' (.ready bootFrame) (.ready bootFrame')) :
    m.verify sha256 capability' bootFrame' = .ok () ↔
      capability' = capability ∧ bootFrame' = bootFrame := by
  constructor
  · intro hverify
    rw [ReadyV1.verify_eq_ok, ReadyV1.forBoot, bind_eq_ok] at hverify
    rw [ReadyV1.forBoot, bind_eq_ok] at hm
    obtain ⟨boot, -, hmade⟩ := hm
    obtain ⟨boot', -, hmade'⟩ := hverify
    rw [pure_eq_ok] at hmade hmade'
    have hcode := congrArg ReadyV1.mac (hmade.trans hmade'.symm)
    obtain ⟨rfl, rfl⟩ := computeReadyMac_inj hmac hcode
    exact ⟨rfl, rfl⟩
  · rintro ⟨rfl, rfl⟩
    exact (ReadyV1.verify_eq_ok sha256 _ m _).2 hm

/-- **The READY proof.**  A boot frame has a READY message, which verifies with the
capability and the frame it was made for and, as far as HMAC tells them apart, with no
other capability and no other frame. -/
theorem ready_proof (sha256 : Bytes → Block 32) (capability : Block 32) {bootFrame : Bytes}
    {boot : BootConfigV1} (hboot : BootConfigV1.tryFrom bootFrame = .ok boot) :
    ∃ m, ReadyV1.forBoot sha256 capability bootFrame = .ok m ∧
      m.verify sha256 capability bootFrame = .ok () ∧ ∀ capability' bootFrame',
        Collisionless sha256 capability capability' (.ready bootFrame) (.ready bootFrame') →
        (capability' ≠ capability ∨ bootFrame' ≠ bootFrame) →
        ∃ e, m.verify sha256 capability' bootFrame' = .error e := by
  have hm : ReadyV1.forBoot sha256 capability bootFrame = .ok
      ⟨protocolVersion, boot.vmId, boot.hostNonce, computeReadyMac sha256 capability bootFrame⟩ := by
    rw [ReadyV1.forBoot, bind_eq_ok]
    exact ⟨boot, hboot, rfl⟩
  refine ⟨_, hm, (ReadyV1.verify_eq_ok sha256 capability _ bootFrame).2 hm, ?_⟩
  intro capability' bootFrame' hmac hother
  cases hverify : ReadyV1.verify sha256 capability' _ bootFrame' with
  | error e => exact ⟨e, rfl⟩
  | ok _ =>
    obtain ⟨hcapability, hframe⟩ := (verify_forBoot_iff hm hmac).1 hverify
    rcases hother with hne | hne
    · exact absurd hcapability hne
    · exact absurd hframe hne

end Ready

/-- A hash for examples: the first 32 bytes. -/
def firstBytes (bytes : Bytes) : Block 32 := ⟨(bytes ++ List.replicate 32 0).take 32, by simp⟩

/-- Two keys, whose codes begin with the keys. -/
theorem ready_proof_bootstrapOnly :
    BootConfigV1.tryFrom BootConfigV1.bootstrapOnly.configBytes = .ok BootConfigV1.bootstrapOnly ∧
      ∃ m, ReadyV1.forBoot firstBytes default BootConfigV1.bootstrapOnly.configBytes = .ok m ∧
        m.verify firstBytes default BootConfigV1.bootstrapOnly.configBytes = .ok () ∧
        ∃ e, m.verify firstBytes ⟨List.replicate 32 1, rfl⟩
          BootConfigV1.bootstrapOnly.configBytes = .error e := by
  have hlen := length_configBytes bootstrapOnly
  have hboot : tryFrom bootstrapOnly.configBytes =
      .ok bootstrapOnly :=
    (tryFrom_eq_ok _ _).2 ⟨by rw [hlen]; decide, by decide, rfl⟩
  obtain ⟨m, hm, hverify, hreject⟩ := ready_proof firstBytes default hboot
  refine ⟨hboot, m, hm, hverify, hreject _ _ ?_ (.inl (by decide))⟩
  intro hcode
  exact absurd (congrArg (fun block : Block 32 => block.1.head?) hcode) (by decide)

end Jyth.Protocol
