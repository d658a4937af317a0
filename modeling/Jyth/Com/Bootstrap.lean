import Jyth.Com.Framing
import Jyth.Protocol.Transcript

/-!
# The bootstrap exchange on COM1

`run_com1_bootstrap` of the host and the boot of the guest (`main`, `run_bootstrap`), the two
ends of a serial line.  Each end is a function of the bytes it reads, which may stop anywhere;
timeouts are such stops.  The staging of the output file is left out.

    host reads     marker · READY · result · chunk · … · rest
    and returns    the chunks and the rest                       (bootstrap_accepted_iff)
-/

namespace Jyth.Com1

open Format Protocol Com List
open BootstrapResultV1 (success commandFailed artifactUnavailable maxBootstrapArtifactBytes)

def com1ReadyMagic : Bytes := utf8 "JYTH/COM1/READY"

def maxBootstrapChunk : Nat := 64 * 1024

section

variable {ε α : Type}

def recvFrame (missing tooLarge : ε) (maximum : Nat) (line : Bytes) : Except ε (Bytes × Bytes) :=
  match front maximum line with
  | .frame payload rest => .ok (payload, rest)
  | .tooLarge _ _ => .error tooLarge
  | .truncated => .error missing

def orReport (e : ε) (result : Except Protocol.Report α) : Except ε α := result.mapError fun _ => e

theorem recvFrame_eq_ok {missing tooLarge : ε} {maximum : Nat} {line payload rest : Bytes}
    (hmax : maximum < 2 ^ 32) : recvFrame missing tooLarge maximum line = .ok (payload, rest) ↔
      payload.length ≤ maximum ∧ line = frameBytes payload ++ rest := by
  rw [← front_eq_frame hmax, recvFrame]
  split <;> simp_all

theorem orReport_eq_ok {e : ε} {result : Except Protocol.Report α} {a : α} :
    orReport e result = .ok a ↔ result = .ok a := by
  cases result <;> simp [orReport, Except.mapError]

end

section

variable (sha256 blake3 : Bytes → Block 32)

/-! ## The host -/

inductive ApiError
  | readyTimeout | protocol | authentication | bootstrap
deriving DecidableEq

def readCom1Frame (e : ApiError) : Nat → Bytes → Except ApiError (Bytes × Bytes) :=
  recvFrame e .protocol

def exchangeBootAndReady (config : BootConfigV1) (bootFrame line : Bytes) :
    Except ApiError Bytes := do
  let (marker, line) ← readCom1Frame .readyTimeout maxAuthFrame line
  failIf (marker ≠ com1ReadyMagic) .protocol
  let (frame, line) ← readCom1Frame .readyTimeout maxAuthFrame line
  let ready ← orReport .protocol (ReadyV1.tryFrom frame)
  orReport .authentication (ready.verify sha256 config.capability bootFrame)
  return line

/-- The loop over the chunks; `remaining` bytes are still to come. -/
def receiveChunks (remaining : Nat) (artifact line : Bytes) : Except ApiError (Bytes × Bytes) :=
  if remaining = 0 then .ok (artifact, line)
  else
    match readCom1Frame .bootstrap maxBootstrapChunk line with
    | .error e => .error e
    | .ok (chunk, line) =>
      if _h : chunk = [] ∨ remaining < chunk.length then .error .protocol
      else receiveChunks (remaining - chunk.length) (artifact ++ chunk) line
termination_by remaining
decreasing_by
  have := length_pos_iff.2 (not_or.1 _h).1
  omega

/-- The artifact and what follows it. -/
def runCom1Bootstrap (config : BootConfigV1) (bootFrame line : Bytes) :
    Except ApiError (Bytes × Bytes) := do
  let line ← exchangeBootAndReady sha256 config bootFrame line
  let (frame, line) ← readCom1Frame .bootstrap maxAuthFrame line
  let result ← orReport .protocol (BootstrapResultV1.tryFrom frame)
  failIf (result.status ≠ success) .bootstrap
  failIf (result.artifactLen = 0 ∨ maxBootstrapArtifactBytes < result.artifactLen) .protocol
  let (artifact, line) ← receiveChunks result.artifactLen.toNat [] line
  failIf (blake3 artifact ≠ result.artifactDigest) .protocol
  return (artifact, line)

/-! ## The guest -/

inductive InitError
  | bootstrap | bootProtocol
deriving DecidableEq

/-- What becomes of the bootstrap command: it fails, there is no artifact to be read, or a file
whose length is taken, then its hash, and which is then read in chunks. -/
inductive Outcome
  | commandFailed (exitCode : Option UInt32)
  | artifactUnavailable
  | file (length : UInt64) (hashed : Bytes) (chunks : List Bytes)

/-- The result a guest sends, and the chunks behind it. -/
def sendResult : Outcome → BootstrapResultV1 × List Bytes
  | .commandFailed exitCode => (⟨protocolVersion, commandFailed, exitCode, 0, default⟩, [])
  | .artifactUnavailable => (⟨protocolVersion, artifactUnavailable, some 0, 0, default⟩, [])
  | .file length hashed chunks =>
    if length = 0 ∨ maxBootstrapArtifactBytes < length then
      (⟨protocolVersion, artifactUnavailable, some 0, 0, default⟩, [])
    else (⟨protocolVersion, success, some 0, length, blake3 hashed⟩, chunks)

def runBootstrap (outcome : Outcome) (config : BootConfigV1) (bootFrame : Bytes) :
    Except InitError (List Bytes) := do
  failIf (config.bootstrap = none) .bootstrap
  let ready ← orReport .bootProtocol (ReadyV1.forBoot sha256 config.capability bootFrame)
  let frame ← orReport .bootProtocol ready.toBytes
  let (result, chunks) := sendResult blake3 outcome
  let result ← orReport .bootProtocol result.toBytes
  return frame :: result :: chunks

/-- The frames a guest sends behind its marker, once its network and disks are up. -/
def runInit (outcome : Outcome) (line : Bytes) : Except InitError (List Bytes) := do
  let (bootFrame, _) ← recvFrame .bootProtocol .bootProtocol maxBootConfigFrame line
  let config ← orReport .bootProtocol (BootConfigV1.tryFrom bootFrame)
  -- without a command nothing is sent before `run_bus`
  if config.bootstrap = none then return []
  else runBootstrap sha256 blake3 outcome config bootFrame

end

/-! ## What the host accepts -/

variable {sha256 blake3 : Bytes → Block 32} {line rest bootFrame frame : Bytes}
  {config : BootConfigV1} {remaining : Nat} {received artifact : Bytes} {chunks : List Bytes}

/-- A piece of an artifact as it is sent and taken. -/
def Chunk (chunk : Bytes) : Prop := chunk ≠ [] ∧ chunk.length ≤ maxBootstrapChunk

theorem receiveChunks_chunk {chunk : Bytes} (hchunk : Chunk chunk)
    (hfits : chunk.length ≤ remaining) :
    receiveChunks remaining received (frameBytes chunk ++ line) =
      receiveChunks (remaining - chunk.length) (received ++ chunk) line := by
  obtain ⟨hne, hle⟩ := hchunk
  have hpos := length_pos_iff.2 hne
  have hread : readCom1Frame .bootstrap maxBootstrapChunk (frameBytes chunk ++ line) =
      .ok (chunk, line) := (recvFrame_eq_ok (by decide)).2 ⟨hle, rfl⟩
  rw [receiveChunks, if_neg (by omega)]
  simp only [hread]
  rw [dif_neg (not_or.2 ⟨hne, by omega⟩)]

theorem receiveChunks_of_chunks (h : ∀ chunk ∈ chunks, Chunk chunk) (received : Bytes) :
    receiveChunks chunks.flatten.length received (chunks.flatMap frameBytes ++ rest) =
      .ok (received ++ chunks.flatten, rest) := by
  induction chunks generalizing received with
  | nil => simp [receiveChunks]
  | cons chunk chunks ih =>
    obtain ⟨hchunk, hall⟩ := forall_mem_cons.1 h
    rw [flatMap_cons, append_assoc, flatten_cons, length_append,
      receiveChunks_chunk hchunk (by omega), Nat.add_sub_cancel_left, ih hall, append_assoc]

theorem receiveChunks_eq_ok :
    receiveChunks remaining received line = .ok (artifact, rest) ↔ ∃ chunks : List Bytes,
      (∀ chunk ∈ chunks, Chunk chunk) ∧ chunks.flatten.length = remaining ∧
        artifact = received ++ chunks.flatten ∧ line = chunks.flatMap frameBytes ++ rest := by
  constructor
  · intro h
    -- a turn takes a chunk off the line, at least a byte of what remains
    induction remaining using Nat.strong_induction_on generalizing received line with
    | _ remaining ih =>
      rw [receiveChunks] at h
      split at h
      · next hzero =>
        cases h
        exact ⟨[], by simp, hzero.symm, by simp, rfl⟩
      · split at h
        · cases h
        · next chunk line' hread =>
          split at h
          · cases h
          · next hchunk =>
            obtain ⟨hle, rfl⟩ := (recvFrame_eq_ok (by decide)).1 hread
            obtain ⟨hne, hfits⟩ := not_or.1 hchunk
            have hpos := length_pos_iff.2 hne
            obtain ⟨chunks, hall, hlen, rfl, rfl⟩ := ih _ (by omega) h
            refine ⟨chunk :: chunks, forall_mem_cons.2 ⟨⟨hne, hle⟩, hall⟩, ?_, by simp, by simp⟩
            rw [flatten_cons, length_append]
            omega
  · rintro ⟨chunks, hall, rfl, rfl, rfl⟩
    exact receiveChunks_of_chunks hall received

variable (sha256 config bootFrame) in
/-- The frame of the READY message of a boot. -/
def ReadyFrame (frame : Bytes) : Prop :=
  ∃ ready, ReadyV1.forBoot sha256 config.capability bootFrame = .ok ready ∧
    ready.toBytes = .ok frame

theorem exchangeBootAndReady_eq_ok : exchangeBootAndReady sha256 config bootFrame line = .ok rest ↔
      ∃ frame, ReadyFrame sha256 bootFrame config frame ∧
        line = frameBytes com1ReadyMagic ++ (frameBytes frame ++ rest) := by
  simp only [exchangeBootAndReady, bind_eq_ok, Prod.exists, readCom1Frame, orReport_eq_ok,
    recvFrame_eq_ok (by decide : maxAuthFrame < 2 ^ 32), failIf_eq_ok, pure_eq_ok]
  constructor
  · rintro ⟨marker, _, ⟨-, rfl⟩, _, hmarker, frame, _, ⟨-, rfl⟩, ready, hfrom, _, hverify, rfl⟩
    rw [not_not.1 hmarker]
    have hboot := (ReadyV1.verify_eq_ok sha256 config.capability ready bootFrame).1 hverify
    exact ⟨frame, ⟨ready, hboot, ReadyV1.canonical.encode_decode _ _ hfrom⟩, rfl⟩
  · rintro ⟨frame, ⟨ready, hboot, hbytes⟩, rfl⟩
    have hversion : ready.version = protocolVersion := by
      obtain ⟨boot, -, hready⟩ := bind_eq_ok.1 hboot
      exact congrArg ReadyV1.version (pure_eq_ok.1 hready).symm
    obtain ⟨_, hto, hfrom⟩ := ReadyV1.canonical.decode_encode ready hversion
    cases hbytes.symm.trans hto
    exact ⟨_, _, ⟨by decide, rfl⟩, (), by simp, frame, rest,
      ⟨(ReadyV1.fieldCodec.head_of_sealEnvelope hbytes).1, rfl⟩, ready, hfrom, (),
      (ReadyV1.verify_eq_ok _ _ _ _).2 hboot, rfl⟩

def announced (length : UInt64) (digest : Block 32) : BootstrapResultV1 :=
  ⟨protocolVersion, success, some 0, length, digest⟩

theorem announced_iff {r : BootstrapResultV1} :
    BootstrapResultV1.tryFrom frame = .ok r ∧ r.status = success ↔
      r = announced r.artifactLen r.artifactDigest ∧
        ¬ (r.artifactLen = 0 ∨ maxBootstrapArtifactBytes < r.artifactLen) ∧
        frame = r.resultBytes := by
  rw [BootstrapResultV1.tryFrom_eq_ok]
  obtain ⟨version, status, exitCode, length, digest⟩ := r
  simp only [announced, BootstrapResultV1.validate, BootstrapResultV1.validateArtifact,
    check_bind_eq_ok, failIf_eq_ok, BootstrapResultV1.mk.injEq]
  constructor
  · rintro ⟨⟨⟨hversion, -, hartifact⟩, -, rfl⟩, rfl⟩
    simp only [if_pos, check_bind_eq_ok, failIf_eq_ok, not_not] at hversion hartifact
    exact ⟨⟨hversion, rfl, hartifact.2, trivial, trivial⟩, hartifact.1, rfl⟩
  · rintro ⟨⟨rfl, rfl, rfl, -, -⟩, hbounds, rfl⟩
    simp [check_bind_eq_ok, failIf_eq_ok, hbounds]
    decide

/-- The frames of a bootstrap: READY, the result, the artifact. -/
def bootstrapFrames (blake3 : Bytes → Block 32) (ready : Bytes) (chunks : List Bytes) : List Bytes :=
  ready :: (announced (.ofNat chunks.flatten.length) (blake3 chunks.flatten)).resultBytes :: chunks

/-- An artifact that can be sent, in the chunks it is sent in. -/
structure Sendable (chunks : List Bytes) : Prop where
  chunk : ∀ chunk ∈ chunks, Chunk chunk
  pos : 0 < chunks.flatten.length
  max : chunks.flatten.length ≤ maxBootstrapArtifactBytes.toNat

theorem Sendable.length (h : Sendable chunks) :
    (UInt64.ofNat chunks.flatten.length).toNat = chunks.flatten.length ∧
      ¬ (UInt64.ofNat chunks.flatten.length = 0 ∨
        maxBootstrapArtifactBytes < .ofNat chunks.flatten.length) := by
  have hlen : (UInt64.ofNat chunks.flatten.length).toNat = chunks.flatten.length := by
    rw [UInt64.toNat_ofNat', Nat.mod_eq_of_lt (h.max.trans_lt (by decide))]
  rw [not_or, UInt64.lt_iff_toNat_lt, ← UInt64.toNat_inj, hlen]
  exact ⟨rfl, h.pos.ne', h.max.not_gt⟩

theorem Sendable.announced (h : Sendable chunks) (blake3 : Bytes → Block 32) :
    BootstrapResultV1.tryFrom
        (announced (.ofNat chunks.flatten.length) (blake3 chunks.flatten)).resultBytes =
      .ok (announced (.ofNat chunks.flatten.length) (blake3 chunks.flatten)) :=
  (announced_iff.2 ⟨rfl, h.length.2, rfl⟩).1

theorem runCom1Bootstrap_of_frames
    (hready : ReadyFrame sha256 bootFrame config frame) (hchunks : Sendable chunks) (rest : Bytes) :
    runCom1Bootstrap sha256 blake3 config bootFrame
      ((com1ReadyMagic :: bootstrapFrames blake3 frame chunks).flatMap frameBytes ++ rest) =
        .ok (chunks.flatten, rest) := by
  obtain ⟨hlen, hbounds⟩ := hchunks.length
  simp only [runCom1Bootstrap, bind_eq_ok, Prod.exists, exchangeBootAndReady_eq_ok, readCom1Frame,
    recvFrame_eq_ok (by decide : maxAuthFrame < 2 ^ 32), orReport_eq_ok, failIf_eq_ok,
    receiveChunks_eq_ok, pure_eq_ok, not_not, nil_append]
  exact ⟨_, ⟨frame, hready, by simp only [bootstrapFrames, flatMap_cons, append_assoc]⟩, _, _,
    ⟨by rw [BootstrapResultV1.length_resultBytes]; decide, rfl⟩, _, hchunks.announced blake3, (), rfl, (),
    hbounds, _, _, ⟨chunks, hchunks.chunk, hlen.symm, rfl, rfl⟩, (), rfl, rfl⟩

/-- **What the host accepts** is its marker, the READY message of its boot frame, the result that
announces the artifact by length and digest, and the artifact in chunks; nothing else. -/
theorem bootstrap_accepted_iff (sha256 blake3 : Bytes → Block 32) (config : BootConfigV1)
    (bootFrame line artifact rest : Bytes) :
    runCom1Bootstrap sha256 blake3 config bootFrame line = .ok (artifact, rest) ↔
      ∃ frame chunks, ReadyFrame sha256 bootFrame config frame ∧ Sendable chunks ∧
        artifact = chunks.flatten ∧ line =
          (com1ReadyMagic :: bootstrapFrames blake3 frame chunks).flatMap frameBytes ++ rest := by
  constructor
  · simp only [runCom1Bootstrap, bind_eq_ok, Prod.exists, exchangeBootAndReady_eq_ok, readCom1Frame,
      recvFrame_eq_ok (by decide : maxAuthFrame < 2 ^ 32), orReport_eq_ok, failIf_eq_ok,
      receiveChunks_eq_ok, pure_eq_ok, not_not, nil_append]
    rintro ⟨_, ⟨frame, hready, rfl⟩, _, _, ⟨-, rfl⟩, r, hresult, _, hstatus, _, hbounds, _, _,
      ⟨chunks, hall, hlen, rfl, rfl⟩, _, hdigest, hpair⟩
    cases hpair
    obtain ⟨heq, -, rfl⟩ := announced_iff.1 ⟨hresult, hstatus⟩
    have hlen' : .ofNat chunks.flatten.length = r.artifactLen := by rw [hlen, UInt64.ofNat_toNat]
    obtain ⟨hzero, hmax⟩ := not_or.1 hbounds
    refine ⟨frame, chunks, hready, ⟨hall, ?_, ?_⟩, rfl, ?_⟩
    · rw [hlen]
      exact Nat.pos_of_ne_zero fun h => hzero (UInt64.toNat_inj.1 h)
    · rw [hlen]
      exact UInt64.le_iff_toNat_le.1 (UInt64.not_lt.1 hmax)
    · rw [bootstrapFrames, hlen', hdigest, ← heq]
      simp
  · rintro ⟨frame, chunks, hready, hchunks, rfl, rfl⟩
    exact runCom1Bootstrap_of_frames hready hchunks rest

/-- **The two ends fit.**  A guest that was sent a boot configuration with a bootstrap command,
and reads what the command left in any chunks, leads the host to just these bytes. -/
theorem guest_bootstraps (hconfig : config.toBytes = .ok bootFrame)
    (hbootstrap : config.bootstrap ≠ none) {chunks : List Bytes} (hchunks : Sendable chunks)
    (tail rest : Bytes) : ∃ frames,
      runInit sha256 blake3 (.file (.ofNat chunks.flatten.length) chunks.flatten chunks)
        (frameBytes bootFrame ++ tail) = .ok frames ∧
      runCom1Bootstrap sha256 blake3 config bootFrame
        ((com1ReadyMagic :: frames).flatMap frameBytes ++ rest) = .ok (chunks.flatten, rest) := by
  have hvalid := (BootConfigV1.toBytes_eq_ok config bootFrame).1 hconfig
  have htry := (BootConfigV1.tryFrom_eq_ok bootFrame config).2 hvalid
  have hboot : ReadyV1.forBoot sha256 config.capability bootFrame = .ok _ :=
    bind_eq_ok.2 ⟨config, htry, rfl⟩
  obtain ⟨frame, hframe, -⟩ := ReadyV1.canonical.decode_encode ⟨protocolVersion, config.vmId,
    config.hostNonce, computeReadyMac sha256 config.capability bootFrame⟩ rfl
  refine ⟨bootstrapFrames blake3 frame chunks, ?_,
    runCom1Bootstrap_of_frames ⟨_, hboot, hframe⟩ hchunks rest⟩
  have hbytes := ((BootstrapResultV1.tryFrom_iff_toBytes _ _).1 (hchunks.announced blake3)).1
  simp only [runInit, runBootstrap, bind_eq_ok, Prod.exists, orReport_eq_ok,
    recvFrame_eq_ok (by decide : maxBootConfigFrame < 2 ^ 32)]
  refine ⟨bootFrame, tail, ⟨hvalid.1, rfl⟩, config, htry, ?_⟩
  rw [if_neg hbootstrap, sendResult, if_neg hchunks.length.2]
  simp only [bind_eq_ok, orReport_eq_ok, failIf_eq_ok]
  exact ⟨(), hbootstrap, _, hboot, frame, hframe, _, hbytes, rfl⟩

open BootConfigV1 in
theorem guest_bootstraps_bootstrapOnly : bootstrapOnly.toBytes = .ok bootstrapOnly.configBytes ∧
    ∃ frames, runInit firstBytes firstBytes (.file 3 [7, 8, 9] [[7], [8, 9]])
        (frameBytes bootstrapOnly.configBytes) = .ok frames ∧
      runCom1Bootstrap firstBytes firstBytes bootstrapOnly bootstrapOnly.configBytes
        ((com1ReadyMagic :: frames).flatMap frameBytes) = .ok ([7, 8, 9], []) := by
  have hlen := length_configBytes bootstrapOnly
  have hbytes : bootstrapOnly.toBytes = .ok bootstrapOnly.configBytes :=
    (toBytes_eq_ok _ _).2 ⟨by rw [hlen]; decide, by decide, rfl⟩
  have hchunks : Sendable [[7], [8, 9]] := ⟨by simp [Chunk, maxBootstrapChunk], by decide, by decide⟩
  obtain ⟨frames, hsent, htaken⟩ := guest_bootstraps hbytes (by decide) hchunks [] []
  rw [append_nil] at hsent htaken
  exact ⟨hbytes, frames, hsent, htaken⟩

end Jyth.Com1
