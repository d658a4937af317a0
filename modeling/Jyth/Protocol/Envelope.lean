import Jyth.Protocol.BootConfig

/-!
# READY, authentication and bootstrap-result envelopes

The fixed-layout messages of `protocol/src/auth.rs`.  Four of them share one
frame: a tag byte, the protocol version and the fields in order.

    openEnvelope … bytes = .ok a  ↔  a has the current version ∧
      bytes = envelopeBytes tag (version a) (fields a)          (openEnvelope_eq_ok)
    sealEnvelope … a = .ok bytes  ↔  the same                   (FieldCodec.sealEnvelope_eq)

The result of a bootstrap command is validated as a whole after it is read, and
has a value for "no exit code", which is lost as an exit code
(`bootstrapResult_codec`).  Every decoder insists on its own tag, so no
byte string is a message of two kinds (`envelopes_separate`).
-/

namespace Jyth.Protocol

open Format Exact WireWriter

def readyTag : UInt8 := 0x11
def bootstrapResultTag : UInt8 := 0x12
def authChallengeTag : UInt8 := 0x20
def authResponseTag : UInt8 := 0x21
def authAcceptedTag : UInt8 := 0x22

/-! ## The common frame -/

def sealEnvelope (tag : UInt8) (version : UInt16) (pushFields : WireWriter → WireWriter) :
    Except Report Bytes := do
  failIf (version ≠ protocolVersion) versionMismatch
  let w := (WireWriter.pushU8 [] tag).pushU16 version
  (pushFields w).finish maxAuthFrame

variable {bytes : Bytes}

section
variable {α : Type}

def takeEnvelope (unexpectedTag : Report) (tag : UInt8) (takeFields : UInt16 → WireReader α) :
    WireReader α := do
  let found ← WireReader.takeU8
  if found ≠ tag then throw unexpectedTag
  else do
    let version ← WireReader.takeU16
    if version ≠ protocolVersion then throw versionMismatch
    else takeFields version

/-- `try_from` of an envelope, with the messages of its two frame errors. -/
def openEnvelope (tooLong unexpectedTag : String) (tag : UInt8)
    (takeFields : UInt16 → WireReader α) (bytes : Bytes) : Except Report α := do
  failIf (maxAuthFrame < bytes.length) (invalidFrame tooLong)
  runAll trailingBytes (takeEnvelope (invalidFrame unexpectedTag) tag takeFields) bytes

def envelopeBytes (tag : UInt8) (version : UInt16) (fields : Bytes) : Bytes :=
  [tag] ++ leBytes version ++ fields

/-- The fields of a message are read back as they were pushed. -/
structure FieldCodec (version : α → UInt16) (fields : α → Bytes)
    (pushFields : α → WireWriter → WireWriter) (takeFields : UInt16 → WireReader α) : Prop where
  push : ∀ a w, pushFields a w = w ++ fields a
  take : ∀ v, Exact (takeFields v) (fun a bs => version a = v ∧ bs = fields a)
  fits : ∀ a, (fields a).length ≤ 128

variable {version : α → UInt16} {fields : α → Bytes} {pushFields : α → WireWriter → WireWriter}
  {takeFields : UInt16 → WireReader α}

section

variable (h : FieldCodec version fields pushFields takeFields)
include h

theorem FieldCodec.length_le (tag : UInt8)
    (a : α) : (envelopeBytes tag (version a) (fields a)).length ≤ maxAuthFrame := by
  have hfits := h.fits a
  have hlen : (leBytes (version a)).length = 2 := length_leBytes _
  simp only [envelopeBytes, List.length_append, hlen, List.length_cons, List.length_nil]
  unfold maxAuthFrame
  omega

theorem FieldCodec.exact_takeEnvelope (unexpectedTag : Report) (tag : UInt8) :
    Exact (takeEnvelope unexpectedTag tag takeFields) (fun a bs =>
      version a = protocolVersion ∧ bs = envelopeBytes tag (version a) (fields a)) := by
  refine ((Exact.takeByte _).bind fun found => Exact.reject _ fun _ => (Exact.takeLE _).bind
    fun v => reject _ fun _ => h.take v).congr fun a bs => ?_
  simp only [existsAndEq, and_assoc, true_and, not_not]
  refine and_congr_right fun hv => ?_
  simp [envelopeBytes, hv]

theorem FieldCodec.openEnvelope_eq_ok
    (tooLong unexpectedTag : String) (tag : UInt8) (bytes : Bytes) (a : α) :
    openEnvelope tooLong unexpectedTag tag takeFields bytes = .ok a ↔
      version a = protocolVersion ∧ bytes = envelopeBytes tag (version a) (fields a) := by
  rw [openEnvelope, check_bind_eq_ok, failIf_eq_ok, not_lt,
    (h.exact_takeEnvelope _ tag).runAll_eq_ok]
  constructor
  · rintro ⟨-, hv, hbytes⟩
    exact ⟨hv, hbytes⟩
  · rintro ⟨hv, rfl⟩
    exact ⟨h.length_le tag a, hv, rfl⟩

theorem FieldCodec.sealEnvelope_eq
    (tag : UInt8) (a : α) : sealEnvelope tag (version a) (pushFields a) =
      if version a = protocolVersion then .ok (envelopeBytes tag (version a) (fields a))
      else .error versionMismatch := by
  have hle := h.length_le tag a
  unfold sealEnvelope
  by_cases hv : version a = protocolVersion
  · rw [failIf, if_neg (not_not.2 hv), if_pos hv]
    show finish (pushFields a _) maxAuthFrame = _
    rw [h.push]
    exact if_neg (by simpa [envelopeBytes, pushU8, pushU16] using hle)
  · rw [failIf, if_pos hv, if_neg hv]
    rfl

theorem FieldCodec.head_of_sealEnvelope {tag : UInt8} {a : α}
    (hok : sealEnvelope tag (version a) (pushFields a) = .ok bytes) :
    bytes.length ≤ maxAuthFrame ∧ bytes.head? = some tag := by
  rw [h.sealEnvelope_eq] at hok
  split at hok <;> cases hok
  exact ⟨h.length_le tag a, rfl⟩

end

/-- The two halves of a codec are inverse to each other, and what has no frame is
refused for its version alone. -/
structure Canonical (version : α → UInt16) (toBytes : α → Except Report Bytes)
    (tryFrom : Bytes → Except Report α) : Prop where
  refused : ∀ a, version a ≠ protocolVersion → toBytes a = .error versionMismatch
  decode_encode : ∀ a, version a = protocolVersion →
    ∃ bytes, toBytes a = .ok bytes ∧ tryFrom bytes = .ok a
  encode_decode : ∀ bytes a, tryFrom bytes = .ok a → toBytes a = .ok bytes

theorem FieldCodec.canonical (h : FieldCodec version fields pushFields takeFields)
    (tooLong unexpectedTag : String) (tag : UInt8) :
    Canonical version (fun a => sealEnvelope tag (version a) (pushFields a))
      (openEnvelope tooLong unexpectedTag tag takeFields) where
  refused a hv := by
    show sealEnvelope tag (version a) (pushFields a) = _
    rw [h.sealEnvelope_eq, if_neg hv]
  decode_encode a hv := by
    refine ⟨envelopeBytes tag (version a) (fields a), ?_, ?_⟩
    · show sealEnvelope tag (version a) (pushFields a) = _
      rw [h.sealEnvelope_eq, if_pos hv]
    · exact (h.openEnvelope_eq_ok tooLong unexpectedTag tag _ a).2 ⟨hv, rfl⟩
  encode_decode bytes a hok := by
    obtain ⟨hv, rfl⟩ := (h.openEnvelope_eq_ok tooLong unexpectedTag tag bytes a).1 hok
    show sealEnvelope tag (version a) (pushFields a) = _
    rw [h.sealEnvelope_eq, if_pos hv]

theorem FieldCodec.head_of_openEnvelope (h : FieldCodec version fields pushFields takeFields)
    {tooLong unexpectedTag : String} {tag : UInt8} {a : α}
    (hok : openEnvelope tooLong unexpectedTag tag takeFields bytes = .ok a) :
    bytes.head? = some tag := by
  obtain ⟨-, rfl⟩ := (h.openEnvelope_eq_ok tooLong unexpectedTag tag bytes a).1 hok
  rfl

end

/-! ## `ReadyV1` -/

structure ReadyV1 where
  version : UInt16
  vmId : Block 16
  hostNonce : Block 32
  mac : Block 32
deriving DecidableEq

namespace ReadyV1

def pushFields (m : ReadyV1) (w : WireWriter) : WireWriter :=
  ((w.pushBytes m.vmId.1).pushBytes m.hostNonce.1).pushBytes m.mac.1

def takeFields (version : UInt16) : WireReader ReadyV1 := do
  let vmId ← WireReader.takeArray 16
  let hostNonce ← WireReader.takeArray 32
  let mac ← WireReader.takeArray 32
  pure ⟨version, vmId, hostNonce, mac⟩

def toBytes (m : ReadyV1) : Except Report Bytes := sealEnvelope readyTag m.version m.pushFields

def tryFrom : Bytes → Except Report ReadyV1 :=
  openEnvelope "READY frame exceeds its frame limit" "unexpected READY tag" readyTag takeFields

theorem fieldCodec : FieldCodec version (fun m => m.vmId.1 ++ (m.hostNonce.1 ++ m.mac.1))
    pushFields takeFields where
  push m w := by simp [pushFields, pushBytes]
  take v := by
    refine ((Exact.takeBlock _ 16).bind fun vmId => (Exact.takeBlock _ 32).bind fun nonce =>
      (Exact.takeBlock _ 32).bind fun mac => Exact.pure _).congr fun m bs => ?_
    simp only [existsAndEq, and_assoc, true_and, List.append_nil]
    constructor
    · rintro ⟨vmId, nonce, mac, rfl, rfl⟩
      exact ⟨rfl, rfl⟩
    · rintro ⟨rfl, rfl⟩
      exact ⟨m.vmId, m.hostNonce, m.mac, rfl, rfl⟩
  fits m := by simp [m.vmId.2, m.hostNonce.2, m.mac.2]

theorem canonical : Canonical version toBytes tryFrom := fieldCodec.canonical _ _ readyTag

end ReadyV1

/-! ## Authentication messages -/

theorem fieldCodec_block {α : Type} {version : α → UInt16} {field : α → Block 32}
    (make : UInt16 → Block 32 → α) (hmake : ∀ a, make (version a) (field a) = a)
    (hversion : ∀ v b, version (make v b) = v) (hfield : ∀ v b, field (make v b) = b) :
    FieldCodec version (fun a => (field a).1) (fun a w => w.pushBytes (field a).1)
      (fun v => do return make v (← WireReader.takeArray 32)) where
  push _ _ := rfl
  take v := by
    refine ((Exact.takeBlock _ 32).bind fun b => Exact.pure (make v b)).congr fun a bs => ?_
    simp only [existsAndEq, and_assoc, true_and, List.append_nil]
    constructor
    · rintro ⟨b, rfl, rfl⟩
      exact ⟨hversion v b, by rw [hfield]⟩
    · rintro ⟨rfl, rfl⟩
      exact ⟨field a, (hmake a).symm, rfl⟩
  fits a := by simp [(field a).2]

structure AuthChallengeV1 where
  version : UInt16
  challenge : Block 32
deriving DecidableEq

namespace AuthChallengeV1

def toBytes (m : AuthChallengeV1) : Except Report Bytes :=
  sealEnvelope authChallengeTag m.version fun w => w.pushBytes m.challenge.1

def tryFrom : Bytes → Except Report AuthChallengeV1 :=
  openEnvelope "authentication challenge exceeds its frame limit"
    "unexpected authentication challenge tag" authChallengeTag
    fun version => do return ⟨version, ← WireReader.takeArray 32⟩

theorem fieldCodec : FieldCodec version (fun m => m.challenge.1) (fun m w => w.pushBytes m.challenge.1)
    (fun v => do return (⟨v, ← WireReader.takeArray 32⟩ : AuthChallengeV1)) :=
  fieldCodec_block AuthChallengeV1.mk (fun _ => rfl) (fun _ _ => rfl) (fun _ _ => rfl)

theorem canonical : Canonical version toBytes tryFrom := fieldCodec.canonical _ _ authChallengeTag

end AuthChallengeV1

structure AuthResponseV1 where
  version : UInt16
  mac : Block 32
deriving DecidableEq

namespace AuthResponseV1

def toBytes (m : AuthResponseV1) : Except Report Bytes :=
  sealEnvelope authResponseTag m.version fun w => w.pushBytes m.mac.1

def tryFrom : Bytes → Except Report AuthResponseV1 :=
  openEnvelope "authentication response exceeds its frame limit"
    "unexpected authentication response tag" authResponseTag
    fun version => do return ⟨version, ← WireReader.takeArray 32⟩

theorem fieldCodec : FieldCodec version (fun m => m.mac.1) (fun m w => w.pushBytes m.mac.1)
    (fun v => do return (⟨v, ← WireReader.takeArray 32⟩ : AuthResponseV1)) :=
  fieldCodec_block AuthResponseV1.mk (fun _ => rfl) (fun _ _ => rfl) (fun _ _ => rfl)

theorem canonical : Canonical version toBytes tryFrom := fieldCodec.canonical _ _ authResponseTag

end AuthResponseV1

structure AuthAcceptedV1 where
  version : UInt16
deriving DecidableEq

namespace AuthAcceptedV1

def toBytes (m : AuthAcceptedV1) : Except Report Bytes :=
  sealEnvelope authAcceptedTag m.version id

def tryFrom : Bytes → Except Report AuthAcceptedV1 :=
  openEnvelope "authentication acknowledgement exceeds its frame limit"
    "unexpected authentication accepted tag" authAcceptedTag fun version => pure ⟨version⟩

theorem fieldCodec : FieldCodec version (fun _ => []) (fun _ => id)
    (fun v => pure (⟨v⟩ : AuthAcceptedV1)) where
  push _ w := (List.append_nil w).symm
  take v := (pure _).congr fun m bs => by
    constructor
    · rintro ⟨rfl, rfl⟩; exact ⟨rfl, rfl⟩
    · rintro ⟨rfl, rfl⟩; exact ⟨rfl, rfl⟩
  fits _ := by simp

theorem canonical : Canonical version toBytes tryFrom := fieldCodec.canonical _ _ authAcceptedTag

end AuthAcceptedV1

/-! ## `BootstrapResultV1` -/

structure BootstrapResultV1 where
  version : UInt16
  status : UInt8
  exitCode : Option UInt32
  artifactLen : UInt64
  artifactDigest : Block 32
deriving DecidableEq

namespace BootstrapResultV1

def success : UInt8 := 0
def commandFailed : UInt8 := 1
def artifactUnavailable : UInt8 := 2

def maxBootstrapArtifactBytes : UInt64 := 256 * 1024 * 1024

def validateArtifact (r : BootstrapResultV1) : Except Report Unit :=
  if r.status = success then do
    failIf (r.artifactLen = 0 ∨ maxBootstrapArtifactBytes < r.artifactLen)
      (invalidValue "bootstrap artifact size is outside its bounds")
    failIf (r.exitCode ≠ some 0)
      (invalidValue "successful bootstrap result has a nonzero exit code")
  else
    failIf (r.artifactLen ≠ 0 ∨ r.artifactDigest.1 ≠ List.replicate 32 0)
      (invalidValue "failed bootstrap result unexpectedly contains artifact metadata")

def validate (r : BootstrapResultV1) : Except Report Unit := do
  failIf (r.version ≠ protocolVersion) versionMismatch
  failIf (¬ (r.status = success ∨ r.status = commandFailed ∨ r.status = artifactUnavailable))
    (invalidValue "invalid bootstrap result status")
  r.validateArtifact

/-- `u32::MAX` stands for "no exit code". -/
def noExitCode : UInt32 := 0xffffffff

def exitWord (exitCode : Option UInt32) : UInt32 := exitCode.getD noExitCode

def ofExitWord (word : UInt32) : Option UInt32 := if word ≠ noExitCode then some word else none

def toBytes (r : BootstrapResultV1) : Except Report Bytes := do
  r.validate
  let w := (WireWriter.pushU8 [] bootstrapResultTag).pushU16 r.version
  let w := (w.pushU8 r.status).pushU32 (exitWord r.exitCode)
  let w := (w.pushU64 r.artifactLen).pushBytes r.artifactDigest.1
  w.finish maxAuthFrame

def takeFields : WireReader BootstrapResultV1 := do
  let tag ← WireReader.takeU8
  if tag ≠ bootstrapResultTag then throw (invalidFrame "unexpected bootstrap result tag")
  else do
    let version ← WireReader.takeU16
    let status ← WireReader.takeU8
    let encodedExitCode ← WireReader.takeU32
    let artifactLen ← WireReader.takeU64
    let artifactDigest ← WireReader.takeArray 32
    pure ⟨version, status, ofExitWord encodedExitCode, artifactLen, artifactDigest⟩

def tryFrom (bytes : Bytes) : Except Report BootstrapResultV1 := do
  failIf (maxAuthFrame < bytes.length) (invalidFrame "bootstrap result exceeds its frame limit")
  let result ← runAll trailingBytes takeFields bytes
  result.validate
  return result

def resultBytes (r : BootstrapResultV1) : Bytes :=
  [bootstrapResultTag] ++ (leBytes r.version ++ ([r.status] ++ (leBytes (exitWord r.exitCode) ++
    (leBytes r.artifactLen ++ r.artifactDigest.1))))

theorem length_resultBytes (r : BootstrapResultV1) : r.resultBytes.length = 48 := by
  simp [resultBytes, r.artifactDigest.2, Word.bytes]

theorem exitWord_ofExitWord (word : UInt32) : exitWord (ofExitWord word) = word := by
  by_cases h : word = noExitCode <;> simp [exitWord, ofExitWord, h]

theorem ofExitWord_exitWord (exitCode : Option UInt32) :
    ofExitWord (exitWord exitCode) = exitCode ↔ exitCode ≠ some noExitCode := by
  cases exitCode with
  | none => simp [exitWord, ofExitWord]
  | some code => by_cases h : code = noExitCode <;> simp [exitWord, ofExitWord, h]

theorem exact_takeFields : Exact takeFields (fun r bs =>
    r.exitCode ≠ some noExitCode ∧ bs = r.resultBytes) := by
  refine ((Exact.takeByte _).bind fun tag => Exact.reject _ fun _ => (Exact.takeLE _).bind
    fun version => (Exact.takeByte _).bind fun status => (Exact.takeLE _).bind fun word =>
      (Exact.takeLE _).bind fun len => (Exact.takeBlock _ 32).bind fun digest =>
        pure _).congr fun r bs => ?_
  simp only [existsAndEq, and_assoc, true_and, List.append_nil, not_not]
  constructor
  · rintro ⟨version, status, word, len, digest, rfl, rfl⟩
    have hword := exitWord_ofExitWord word
    refine ⟨(ofExitWord_exitWord _).1 (by rw [hword]), ?_⟩
    simp [resultBytes, hword]
  · rintro ⟨hexit, rfl⟩
    have hword := (ofExitWord_exitWord r.exitCode).2 hexit
    exact ⟨r.version, r.status, exitWord r.exitCode, r.artifactLen, r.artifactDigest,
      by rw [hword], by simp [resultBytes]⟩

theorem tryFrom_eq_ok (bytes : Bytes) (r : BootstrapResultV1) : tryFrom bytes = .ok r ↔
      r.validate = .ok () ∧ r.exitCode ≠ some noExitCode ∧ bytes = r.resultBytes := by
  rw [tryFrom, check_bind_eq_ok, failIf_eq_ok, not_lt, bind_eq_ok]
  simp only [check_bind_eq_ok, pure_eq_ok, exact_takeFields.runAll_eq_ok]
  constructor
  · rintro ⟨-, r', ⟨hexit, hbytes⟩, hv, rfl⟩
    exact ⟨hv, hexit, hbytes⟩
  · rintro ⟨hv, hexit, rfl⟩
    refine ⟨?_, r, ⟨hexit, rfl⟩, hv, rfl⟩
    rw [length_resultBytes]
    decide

theorem toBytes_eq_ok (r : BootstrapResultV1) (bytes : Bytes) :
    r.toBytes = .ok bytes ↔ r.validate = .ok () ∧ bytes = r.resultBytes := by
  have hfinish : ∀ w : WireWriter, w = r.resultBytes → w.finish maxAuthFrame = .ok w := by
    rintro w rfl
    exact if_neg (by rw [length_resultBytes]; decide)
  rw [toBytes, check_bind_eq_ok, hfinish _ (by
    simp [resultBytes, pushU8, pushU16, pushU32, pushU64, pushBytes])]
  refine and_congr_right fun _ => ?_
  simp [resultBytes, pushU8, pushU16, pushU32, pushU64, pushBytes, eq_comm]

/-- What is accepted re-encodes to itself; a failure with the exit code
`u32::MAX` is the one value that comes back as another. -/
theorem tryFrom_iff_toBytes (r : BootstrapResultV1) (bytes : Bytes) :
    tryFrom bytes = .ok r ↔ r.toBytes = .ok bytes ∧ r.exitCode ≠ some noExitCode := by
  rw [tryFrom_eq_ok, toBytes_eq_ok]
  tauto

variable {r : BootstrapResultV1}

theorem validate_without_exitCode (h : r.validate = .ok ())
    (hexit : r.exitCode = some noExitCode) : { r with exitCode := none }.validate = .ok () := by
  rw [validate, check_bind_eq_ok, failIf_eq_ok, check_bind_eq_ok, failIf_eq_ok] at h ⊢
  obtain ⟨hversion, hstatus, hartifact⟩ := h
  refine ⟨hversion, hstatus, ?_⟩
  unfold validateArtifact at hartifact ⊢
  by_cases hsuccess : r.status = success
  · rw [if_pos hsuccess, check_bind_eq_ok, failIf_eq_ok, failIf_eq_ok, hexit] at hartifact
    exact absurd (not_not.1 hartifact.2) (by decide)
  · rw [if_neg hsuccess] at hartifact ⊢
    exact hartifact

theorem tryFrom_of_toBytes (h : r.toBytes = .ok bytes) :
    tryFrom bytes = .ok { r with exitCode := ofExitWord (exitWord r.exitCode) } := by
  by_cases hexit : r.exitCode = some noExitCode
  · obtain ⟨hvalid, rfl⟩ := (toBytes_eq_ok r bytes).1 h
    have hnone : ofExitWord (exitWord r.exitCode) = none := by
      rw [hexit]
      rfl
    rw [hnone, tryFrom_eq_ok]
    refine ⟨validate_without_exitCode hvalid hexit, by simp, ?_⟩
    simp [resultBytes, hexit, exitWord]
  · rw [(ofExitWord_exitWord r.exitCode).2 hexit]
    exact (tryFrom_iff_toBytes r bytes).2 ⟨h, hexit⟩

/-- **The bootstrap result codec.**  An encoding decodes to the result it was made of
unless the exit code is `u32::MAX`, which comes back as none; whatever is accepted is the
encoding of what it decodes to. -/
theorem bootstrapResult_codec (r : BootstrapResultV1) (bytes : Bytes) : (r.toBytes = .ok bytes →
      tryFrom bytes = .ok { r with exitCode := ofExitWord (exitWord r.exitCode) } ∧
      (tryFrom bytes = .ok r ↔ r.exitCode ≠ some noExitCode)) ∧
    (tryFrom bytes = .ok r → r.toBytes = .ok bytes) := by
  refine ⟨fun h => ⟨tryFrom_of_toBytes h, ?_⟩, fun h => ((tryFrom_iff_toBytes r bytes).1 h).1⟩
  rw [tryFrom_iff_toBytes]
  exact ⟨fun hdecode => hdecode.2, fun hexit => ⟨h, hexit⟩⟩

def failedWith (code : UInt32) : BootstrapResultV1 := ⟨1, commandFailed, some code, 0, default⟩

theorem failedWith_toBytes (code : UInt32) :
    (failedWith code).toBytes = .ok (failedWith code).resultBytes :=
  (toBytes_eq_ok _ _).2 ⟨rfl, rfl⟩

theorem failedWith_decoded : (failedWith 7).toBytes = .ok (failedWith 7).resultBytes ∧
      tryFrom (failedWith 7).resultBytes = .ok (failedWith 7) := by
  have hbytes := failedWith_toBytes 7
  exact ⟨hbytes, ((bootstrapResult_codec _ _).1 hbytes).2.2 (by decide)⟩

/-- The exit code `u32::MAX` is lost. -/
theorem exit_code_lost : (failedWith noExitCode).toBytes = .ok (failedWith noExitCode).resultBytes ∧
      tryFrom (failedWith noExitCode).resultBytes =
        .ok { failedWith noExitCode with exitCode := none } ∧
      tryFrom (failedWith noExitCode).resultBytes ≠ .ok (failedWith noExitCode) := by
  have hbytes := failedWith_toBytes noExitCode
  have hdecoded := tryFrom_of_toBytes hbytes
  refine ⟨hbytes, hdecoded, ?_⟩
  rw [hdecoded]
  decide

end BootstrapResultV1

/-! ## Six kinds of message -/

inductive MessageKind
  | bootConfig | ready | bootstrapResult | authChallenge | authResponse | authAccepted
deriving DecidableEq

namespace MessageKind

def tag : MessageKind → UInt8
  | bootConfig => bootConfigTag
  | ready => readyTag
  | bootstrapResult => bootstrapResultTag
  | authChallenge => authChallengeTag
  | authResponse => authResponseTag
  | authAccepted => authAcceptedTag

/-- The bytes are a message of this kind. -/
def Accepts : MessageKind → Bytes → Prop
  | bootConfig, bytes => ∃ m, BootConfigV1.tryFrom bytes = .ok m
  | ready, bytes => ∃ m, ReadyV1.tryFrom bytes = .ok m
  | bootstrapResult, bytes => ∃ m, BootstrapResultV1.tryFrom bytes = .ok m
  | authChallenge, bytes => ∃ m, AuthChallengeV1.tryFrom bytes = .ok m
  | authResponse, bytes => ∃ m, AuthResponseV1.tryFrom bytes = .ok m
  | authAccepted, bytes => ∃ m, AuthAcceptedV1.tryFrom bytes = .ok m

theorem tag_injective : Function.Injective tag := by
  intro k k' h
  cases k <;> cases k' <;> first | rfl | exact absurd h (by decide)

theorem Accepts.head {kind : MessageKind} (h : kind.Accepts bytes) :
    bytes.head? = some kind.tag := by
  cases kind with
  | bootConfig =>
    obtain ⟨m, h⟩ := h
    obtain ⟨-, -, rfl⟩ := (BootConfigV1.tryFrom_eq_ok bytes m).1 h
    rfl
  | ready => exact ReadyV1.fieldCodec.head_of_openEnvelope h.choose_spec
  | bootstrapResult =>
    obtain ⟨m, h⟩ := h
    obtain ⟨-, -, rfl⟩ := (BootstrapResultV1.tryFrom_eq_ok bytes m).1 h
    rfl
  | authChallenge => exact AuthChallengeV1.fieldCodec.head_of_openEnvelope h.choose_spec
  | authResponse => exact AuthResponseV1.fieldCodec.head_of_openEnvelope h.choose_spec
  | authAccepted => exact AuthAcceptedV1.fieldCodec.head_of_openEnvelope h.choose_spec

end MessageKind

/-- **The envelopes are separate and canonical.**  A byte string is a message of
at most one kind; READY and the three authentication messages decode from their
encodings, and whatever is accepted is the encoding of what it decodes to. -/
theorem envelopes_separate : (∀ (bytes : Bytes) (kind kind' : MessageKind),
      kind.Accepts bytes → kind'.Accepts bytes → kind = kind') ∧
    Canonical ReadyV1.version ReadyV1.toBytes ReadyV1.tryFrom ∧
    Canonical AuthChallengeV1.version AuthChallengeV1.toBytes AuthChallengeV1.tryFrom ∧
    Canonical AuthResponseV1.version AuthResponseV1.toBytes AuthResponseV1.tryFrom ∧
    Canonical AuthAcceptedV1.version AuthAcceptedV1.toBytes AuthAcceptedV1.tryFrom := by
  refine ⟨fun bytes kind kind' h h' => ?_, ReadyV1.canonical, AuthChallengeV1.canonical,
    AuthResponseV1.canonical, AuthAcceptedV1.canonical⟩
  have htag : some kind.tag = some kind'.tag := by rw [← h.head, h'.head]
  exact MessageKind.tag_injective (Option.some.inj htag)

end Jyth.Protocol
