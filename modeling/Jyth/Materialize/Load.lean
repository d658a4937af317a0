import Jyth.Materialize.Staging
import Jyth.Storage.LinkDigests

/-!
# Loading a source

`ops::load` over its sources and the files of the cache: the bytes of a local file, of a
buffer or of an HTTP response are staged and hashed, checked, and published by a blocking
worker that `load` joins.  When the token is cancelled, the join ends after a grace period
and leaves the worker to itself.

* `worker_spec`: what a worker that returns a record has checked, and that one that fails
  has published nothing.
* `verified_loads_iff`: the same of `load`, where a failure has published nothing just if no
  worker left to itself succeeds, and the size in the key is met just if it is the declared one.
-/

namespace Jyth.Ops

open Format Effect Ends
open Jyth.Image
open Jyth.Image.Publish (IoError Place publishWith)
open Jyth.Materialize (size128 Detected)

/-! ## Formats -/

inductive Panic
  | indexOutOfBounds
deriving DecidableEq

section
variable (firstEntry : Bytes → Bool)

def detectCompression (bytes : Bytes) : Option Detected :=
  if [0x1f, 0x8b] <+: bytes then some ⟨.compressed, .gzip⟩
  else if [0x28, 0xb5, 0x2f, 0xfd] <+: bytes then some ⟨.compressed, .zstd⟩
  else none

def isCpioNewc (bytes : Bytes) : Bool :=
  magicNewc <+: bytes ∨ utf8 "070702" <+: bytes

/-- A header of 511 bytes is indexed beyond its end if its last byte is the first of the
boot signature. -/
def isLinuxBzimage (bytes : Bytes) : Except Panic Bool :=
  if bytes[0x1fe]? ≠ some 0x55 then .ok false
  else match bytes[0x1ff]? with
    | none => .error .indexOutOfBounds
    | some byte => .ok (byte = 0xaa ∧ utf8 "HdrS" <+: bytes.drop 0x202)

def isAsciiWhitespace (byte : UInt8) : Bool := byte ∈ [0x20, 0x09, 0x0a, 0x0c, 0x0d]

def parseTarOctal (bytes : Bytes) : Option Nat :=
  let trimmed := (bytes.takeWhile fun b => b ≠ 0 ∧ b ≠ 0x20).filter (! isAsciiWhitespace ·)
  if trimmed = [] ∨ trimmed.any fun b => ¬ (0x30 ≤ b ∧ b ≤ 0x37) then none
  else some (trimmed.foldl (fun n b => 8 * n + (b.toNat - 0x30)) 0)

def validTarChecksum (header : Bytes) : Bool :=
  header.length = 512 ∧ parseTarOctal ((header.drop 148).take 8) =
    some ((header.mapIdx fun i b => if 148 ≤ i ∧ i < 156 then 0x20 else b.toNat).sum)

/-- Whether the parser finds a first entry is `firstEntry`. -/
def isTar (bytes : Bytes) : Bool :=
  if bytes.length < 512 then false
  else if (bytes.take 512).all (· = 0) then bytes.length ≥ 1024 ∧ (bytes.take 1024).all (· = 0)
  else validTarChecksum (bytes.take 512) && firstEntry bytes

def detectContainer (bytes : Bytes) : Except Panic (Option Detected) := do
  if isCpioNewc bytes then return some ⟨.containerCpio, .none⟩
  if ← isLinuxBzimage bytes then return some ⟨.fileBzImage, .none⟩
  if isTar firstEntry bytes then return some ⟨.containerTar, .none⟩
  return none

def detect (bytes : Bytes) : Except Panic (Option Detected) :=
  match detectCompression bytes with
  | some detected => .ok (some detected)
  | none => detectContainer firstEntry bytes

/-- A panic of the worker is reported by its join. -/
def detectOrUnsupported (bytes : Bytes) : Except OperationError Detected :=
  match detect firstEntry bytes with
  | .ok (some detected) => .ok detected
  | .ok none => .error .unsupportedArtifact
  | .error _ => .error .readSource

end

/-! ## The program -/

/-- A response to an HTTP request. -/
structure Response (ε : Type) where
  success : Bool
  contentLength : Option (BitVec 128)
  body : Source ε

/-- What a call of `load` meets: the files as the digest of the link reads them and as
they are copied, the responses, and what the token says at the two checks. -/
structure Env (U ε : Type) where
  digested : Files U ε
  copied : Files U ε
  metadata : PathBuf U → Except ε (BitVec 128)
  response : String → Except ε (Response ε)
  cancelledBefore : Bool
  cancelledAfter : Bool

section
variable {U ε : Type} (h : Hashers)

def stage (error : OperationError) (source : Source ε) (expected : Option ExpectedDigest) :
    FileM PublishedFile := do
  let w ← streamCopy error source expected
  return w.finish h

def verifyAgainstExpected (published : PublishedFile) :
    Option ExpectedDigest → Except OperationError Unit
  | none => .ok ()
  | some expected =>
    match published.computedFor (some expected) with
    | some value => failIf (verify expected value = false) .digestMismatch
    | none => .error .digestMismatch

def validateOutcome (published : PublishedFile) (declaredSize : BitVec 128)
    (expected : Option ExpectedDigest) : Except OperationError Unit := do
  failIf (declaredSize ≠ 0 ∧ published.fileDigest.fileSize ≠ declaredSize) .sizeMismatch
  verifyAgainstExpected published expected

/-- The length that the response declares or, if it declares none, the sizes of the key
and of the link. -/
def validateHttpSize (size declaredSize : BitVec 128) (contentLength : Option (BitVec 128))
    (linkDigest : LinkDigest) : Except OperationError Unit :=
  match contentLength.filter (0 < ·) with
  | some length => failIf (size ≠ length) .sizeMismatch
  | none => do
    failIf (linkDigest.fileSize ≠ 0 ∧ size ≠ linkDigest.fileSize) .sizeMismatch
    failIf (declaredSize ≠ 0 ∧ size ≠ declaredSize) .sizeMismatch

def validateHttpOutcome (published : PublishedFile) (declaredSize : BitVec 128)
    (contentLength : Option (BitVec 128)) (linkDigest : LinkDigest)
    (expected : Option ExpectedDigest) : Except OperationError Unit := do
  validateHttpSize published.fileDigest.fileSize declaredSize contentLength linkDigest
  verifyAgainstExpected published expected

def copyLocal (env : Env U ε) (path : PathBuf U) (declaredSize : BitVec 128)
    (linkDigest : LinkDigest) (expected : Option ExpectedDigest) : FileM PublishedFile := do
  let source ← reported .readSource (env.copied path)
  let actualSize ← reported .readSource (env.metadata path)
  ofExcept (failIf (actualSize ≠ declaredSize ∧ actualSize ≠ linkDigest.fileSize) .sizeMismatch)
  let staged ← stage h .readSource source expected
  ofExcept (validateOutcome staged declaredSize expected)
  return staged

def copyBytes (payload : Bytes) (declaredSize : BitVec 128) (expected : Option ExpectedDigest) :
    FileM PublishedFile := do
  ofExcept (failIf (size128 payload ≠ declaredSize) .sizeMismatch)
  let staged ← stage h .writeDestination (Source.ofBytes payload : Source Empty) expected
  ofExcept (validateOutcome staged declaredSize expected)
  return staged

def copyHttp (env : Env U ε) (url : String) (declaredSize : BitVec 128) (linkDigest : LinkDigest)
    (expected : Option ExpectedDigest) : FileM PublishedFile := do
  let response ← reported .httpRequest (env.response url)
  ofExcept (failIf (response.success = false) .httpStatus)
  ofExcept (failIf (response.contentLength.any fun length =>
    declaredSize ≠ 0 ∧ length ≠ 0 ∧ length ≠ declaredSize) .sizeMismatch)
  let staged ← stage h .httpRequest response.body expected
  ofExcept (validateHttpOutcome staged declaredSize response.contentLength linkDigest expected)
  return staged

def copy (env : Env U ε) (link : ArtifactLink U) (linkDigest : LinkDigest)
    (expected : Option ExpectedDigest) : FileM PublishedFile :=
  match link with
  | .local path size => copyLocal h env path size linkDigest expected
  | .bytes payload size => copyBytes h payload size expected
  | .http url size => copyHttp h env url size linkDigest expected

def worker (firstEntry : Bytes → Bool) (windows : Bool) (env : Env U ε)
    (link : ArtifactLink U) (linkRef : LinkRef) (expected : Option ExpectedDigest) :
    FileM FileRef :=
  dropping do
    ofExcept (failIf (env.cancelledBefore = true) .cancelled)
    let staged ← copy h env link linkRef.linkDigest expected
    ofExcept (failIf (env.cancelledAfter = true) .cancelled)
    let header ← readHeader .readSource
    let detected ← ofExcept (detectOrUnsupported firstEntry header)
    publish windows staged.fileDigest
    return ⟨linkRef.uuid, linkRef.namespc, staged.fileDigest, detected.artifactType,
      detected.artifactCompression⟩

/-- How the join of the worker ends: with its result, by leaving the worker to itself when
the token is cancelled, or with a worker that was never run. -/
inductive Join
  | joined | abandoned | notRun
deriving DecidableEq

/-- The outcomes of `load`: its result, and the files once the worker is done. -/
def Loads (firstEntry : Bytes → Bool) (windows : Bool) (env : Env U ε)
    (link : ArtifactLink U) (linkRef : LinkRef) (expected : Option ExpectedDigest)
    (expectedLinkDigest : LinkDigest) (join : Join) (s : Site)
    (result : Except OperationError FileRef) (s' : Site) : Prop :=
  match link.digest h.blake3 env.digested with
  | .error _ => result = .error .readSource ∧ s' = s
  | .ok computed =>
    if computed ≠ expectedLinkDigest then result = .error .readSource ∧ s' = s
    else match join with
      | .joined =>
        Exec (host h) (worker h firstEntry windows env link linkRef expected) s (some result) s'
      | .abandoned => result = .error .cancelled ∧ ∃ r,
        Exec (host h) (worker h firstEntry windows env link linkRef expected) s (some r) s'
      | .notRun => result = .error .readSource ∧ s' = s

/-! ## What is checked -/

def Hashers.recompute : ExpectedDigest → Bytes → ExpectedDigest
  | .blake3 _, content => .blake3 (h.blake3 content)
  | .sha256 _, content => .sha256 (h.sha256 content)
  | .sha512 _, content => .sha512 (h.sha512 content)

/-- The source of the link has this content. -/
def Env.Delivers (env : Env U ε) (content : Bytes) : ArtifactLink U → Prop
  | .local path _ => ∃ source, env.copied path = .ok source ∧ source.bytes = content
  | .bytes payload _ => payload = content
  | .http url _ => ∃ response, env.response url = .ok response ∧ response.body.bytes = content

/-- The size the bytes are compared with; 0 if the source declares none. -/
def Env.declared (env : Env U ε) : ArtifactLink U → BitVec 128
  | .local _ size | .bytes _ size => size
  | .http url size =>
    match env.response url with
    | .ok response => (response.contentLength.filter (0 < ·)).getD size
    | .error _ => size

/-- The bytes come from the source and agree with every size and digest consulted; the
size of the key is, for a response that declares no length. -/
structure Verified (env : Env U ε) (link : ArtifactLink U) (key : LinkDigest)
    (expected : Option ExpectedDigest) (content : Bytes) : Prop where
  delivered : env.Delivers content link
  linkSize : link.size ≠ 0 → size128 content = link.size
  contentLength : ∀ url size response length, link = .http url size →
    env.response url = .ok response → response.contentLength = some length → length ≠ 0 →
    size128 content = length
  keySize : ∀ url size response, link = .http url size → env.response url = .ok response →
    response.contentLength.filter (0 < ·) = none → key.fileSize ≠ 0 →
    size128 content = key.fileSize
  digest : ∀ e, expected = some e → h.recompute e content = e

variable {h}

def publishedOf (h : Hashers) (expected : Option ExpectedDigest) (content : Bytes) :
    PublishedFile :=
  ((TempWriter.new expected).update content).finish h

variable (expected : Option ExpectedDigest)

theorem publishedOf_fileDigest (content : Bytes) :
    (publishedOf h expected content).fileDigest = digestOf h content := by
  simp [publishedOf, TempWriter.finish, TempWriter.update, TempWriter.new, digestOf]

theorem computedFor_publishedOf (e : ExpectedDigest) (content : Bytes) :
    ∃ value, (publishedOf h (some e) content).computedFor (some e) = some value ∧
      (verify e value = true ↔ h.recompute e content = e) := by
  cases e with
  | blake3 bytes =>
    refine ⟨_, rfl, ?_⟩
    simp [verify, Hashers.recompute, publishedOf_fileDigest, digestOf, eq_comm]
  | sha256 bytes | sha512 bytes => exact ⟨_, rfl, by simp [verify, Hashers.recompute, eq_comm]⟩

theorem verifyAgainstExpected_eq_ok (content : Bytes) :
    verifyAgainstExpected (publishedOf h expected content) expected = .ok () ↔
      ∀ e, expected = some e → h.recompute e content = e := by
  cases expected with
  | none => simp [verifyAgainstExpected]
  | some e =>
    obtain ⟨value, hvalue, hverify⟩ := computedFor_publishedOf (h := h) e content
    simp [verifyAgainstExpected, hvalue, failIf_eq_ok, ← hverify]

theorem validateOutcome_eq_ok (content : Bytes) (declaredSize : BitVec 128) :
    validateOutcome (publishedOf h expected content) declaredSize expected = .ok () ↔
      (declaredSize ≠ 0 → size128 content = declaredSize) ∧
        ∀ e, expected = some e → h.recompute e content = e := by
  rw [validateOutcome, check_bind_eq_ok, failIf_eq_ok, verifyAgainstExpected_eq_ok,
    publishedOf_fileDigest]
  simp [digestOf]

theorem validateHttpOutcome_eq_ok (content : Bytes)
    (declaredSize : BitVec 128) (contentLength : Option (BitVec 128)) (linkDigest : LinkDigest) :
    validateHttpOutcome (publishedOf h expected content) declaredSize contentLength linkDigest
        expected = .ok () ↔
      validateHttpSize (size128 content) declaredSize contentLength linkDigest = .ok () ∧
        ∀ e, expected = some e → h.recompute e content = e := by
  rw [validateHttpOutcome, check_bind_eq_ok, verifyAgainstExpected_eq_ok, publishedOf_fileDigest]
  rfl

theorem validateHttpSize_spec {size declaredSize : BitVec 128} {contentLength : Option (BitVec 128)}
    {linkDigest : LinkDigest} (hagree : ¬ (contentLength.any fun length =>
      declaredSize ≠ 0 ∧ length ≠ 0 ∧ length ≠ declaredSize) = true)
    (hsize : validateHttpSize size declaredSize contentLength linkDigest = .ok ()) :
    (declaredSize ≠ 0 → size = declaredSize) ∧
      (∀ length, contentLength = some length → length ≠ 0 → size = length) ∧
      (contentLength.filter (0 < ·) = none → linkDigest.fileSize ≠ 0 →
        size = linkDigest.fileSize) := by
  rw [validateHttpSize] at hsize
  cases hlength : contentLength.filter (0 < ·) with
  | some length =>
    obtain ⟨rfl, hpos⟩ := Option.filter_eq_some_iff.1 hlength
    have hne : length ≠ 0 := by
      rintro rfl
      simp at hpos
    simp only [hlength, failIf_eq_ok, not_not] at hsize
    subst hsize
    refine ⟨fun hdeclared => ?_, fun _ hsome _ => Option.some.inj hsome,
      fun hnone => absurd hnone (Option.some_ne_none _)⟩
    by_contra hother
    exact hagree (decide_eq_true ⟨hdeclared, hne, hother⟩)
  | none =>
    simp only [hlength, check_bind_eq_ok, failIf_eq_ok, not_and, not_not] at hsize
    refine ⟨hsize.2, fun length hsome hne => ?_, fun _ => hsize.1⟩
    subst hsome
    have hpos : ¬ 0 < length := by simpa [Option.filter] using hlength
    exact absurd (BitVec.le_zero_iff.1 (BitVec.not_lt.1 hpos)) hne

/-! ## The worker -/

variable {firstEntry : Bytes → Bool} {place : Place} {record : Option FileRef} {s : Site}

theorem stage_spec (error : OperationError) (source : Source ε) (expected : Option ExpectedDigest)
    (hs : Keeps place record s) : Ends (host h) (Keeps place record)
      (fun staged s' => staged = publishedOf h expected source.bytes ∧
        s'.files.temp = some source.bytes) (stage h error source expected) s := by
  refine andThen (streamCopy_spec (fun _ _ _ _ h => h) error source expected hs) ?_
  rintro w s' hs' ⟨rfl, htemp⟩
  exact pure hs' ⟨rfl, htemp⟩

theorem copy_spec (env : Env U ε) (link : ArtifactLink U) (key : LinkDigest)
    (expected : Option ExpectedDigest) (hs : Keeps place record s) :
    Ends (host h) (Keeps place record)
      (fun staged s' => ∃ content, Verified h env link key expected content ∧
        staged = publishedOf h expected content ∧ s'.files.temp = some content)
      (copy h env link key expected) s := by
  cases link with
  | «local» path size =>
    refine ends_reported_bind hs fun source hsource => ?_
    refine ends_reported_bind hs fun actualSize _ => ?_
    refine ends_ofExcept_bind hs fun _ _ => ?_
    refine andThen (stage_spec _ source expected hs) ?_
    rintro staged s₁ hs₁ ⟨rfl, htemp⟩
    refine ends_ofExcept_bind hs₁ fun _ hvalid => ?_
    obtain ⟨hsize, hdigest⟩ := (validateOutcome_eq_ok _ _ _).1 hvalid
    exact pure hs₁ ⟨source.bytes, ⟨⟨source, hsource, rfl⟩, hsize, nofun, nofun, hdigest⟩,
      rfl, htemp⟩
  | bytes payload size =>
    refine ends_ofExcept_bind hs fun _ _ => ?_
    refine andThen (stage_spec _ (Source.ofBytes payload : Source Empty) expected hs) ?_
    rintro staged s₁ hs₁ ⟨rfl, htemp⟩
    rw [Source.bytes_ofBytes] at htemp ⊢
    refine ends_ofExcept_bind hs₁ fun _ hvalid => ?_
    obtain ⟨hsize, hdigest⟩ := (validateOutcome_eq_ok _ _ _).1 hvalid
    exact pure hs₁ ⟨payload, ⟨rfl, hsize, nofun, nofun, hdigest⟩, rfl, htemp⟩
  | http url size =>
    refine ends_reported_bind hs fun response hresponse => ?_
    refine ends_ofExcept_bind hs fun _ _ => ?_
    refine ends_ofExcept_bind hs fun _ hagree => ?_
    refine andThen (stage_spec _ response.body expected hs) ?_
    rintro staged s₁ hs₁ ⟨rfl, htemp⟩
    refine ends_ofExcept_bind hs₁ fun _ hvalid => ?_
    obtain ⟨hvalid, hdigest⟩ := (validateHttpOutcome_eq_ok _ _ _ _ _).1 hvalid
    obtain ⟨hsize, hlength, hkey⟩ := validateHttpSize_spec (failIf_eq_ok.1 hagree) hvalid
    refine pure hs₁ ⟨response.body.bytes, ⟨⟨response, hresponse, rfl⟩, hsize, ?_, ?_, hdigest⟩,
      rfl, htemp⟩
    · rintro _ _ other length ⟨⟩ hother hsome
      obtain rfl : response = other := by simpa [hresponse] using hother
      exact hlength length hsome
    · rintro _ _ other ⟨⟩ hother
      obtain rfl : response = other := by simpa [hresponse] using hother
      exact hkey

/-- The end of a load: with a record, the destination holds bytes with its digest, which
is that of verified bytes; with an error, nothing has been published. -/
def Loaded (h : Hashers) (env : Env U ε) (link : ArtifactLink U) (key : LinkDigest)
    (expected : Option ExpectedDigest) (before : Place) :
    Except OperationError FileRef → Place → Prop
  | .ok f, place => ∃ content bytes, Verified h env link key expected content ∧
      f.fileDigest = digestOf h content ∧ place = .file bytes ∧ f.fileDigest = digestOf h bytes
  | .error _, place => place = before ∨ place = .absent

theorem worker_spec (windows : Bool) (env : Env U ε) (link : ArtifactLink U) (linkRef : LinkRef)
    (expected : Option ExpectedDigest) : Safe (host h) (fun _ => True)
      (fun r s' => Loaded h env link linkRef.linkDigest expected s.files.destination r
        s'.files.destination) (worker h firstEntry windows env link linkRef expected) s := by
  have hhost : ∀ op s r s', host h op s r s' → host h op s r s' := fun _ _ _ _ hstep => hstep
  have hs : Keeps s.files.destination s.record s := ⟨rfl, rfl⟩
  -- Up to the publication the destination stays.
  have herror : ∀ (e : OperationError) (s' : Site), Keeps s.files.destination s.record s' →
      Loaded h env link linkRef.linkDigest expected s.files.destination (.error e)
        s'.files.destination := fun e s' hs' => Or.inl hs'.1
  refine dropping_safe hhost ?_ fun e s' _ hend => ⟨trivial, hend⟩
  refine safe_ofExcept_bind trivial (fun e => herror e s hs) fun _ _ => ?_
  refine safe_andThen (copy_spec env link linkRef.linkDigest expected hs) (fun _ _ => trivial)
    herror ?_
  rintro staged s₁ hs₁ ⟨content, hverified, rfl, htemp⟩
  refine safe_ofExcept_bind trivial (fun e => herror e s₁ hs₁) fun _ _ => ?_
  refine safe_andThen (readHeader_ends hhost hs₁) (fun _ _ => trivial) herror ?_
  rintro header s₂ - ⟨rfl, _⟩
  refine safe_ofExcept_bind trivial (fun e => herror e s₂ hs₁) fun detected _ => ?_
  obtain ⟨⟨before, temp⟩, record⟩ := s₂
  obtain rfl : temp = some content := htemp
  obtain rfl : before = s.files.destination := hs₁.1
  refine Safe.bindE (publish_safe hhost windows (fun _ _ => trivial) (fun d _ hend => ?_)
    fun d _ hend => hend.imp_right And.left)
  refine ⟨trivial, ?_⟩
  have hdigest := publishedOf_fileDigest (h := h) expected content
  rcases hend with hplace | ⟨hplace, hholds⟩
  · exact ⟨content, content, hverified, hdigest, hplace, hdigest⟩
  · cases hbefore : s.files.destination with
    | absent | directory => simp [hbefore, Place.Holds] at hholds
    | file bytes =>
      rw [hbefore] at hplace hholds
      exact ⟨content, bytes, hverified, hdigest, hplace, Eq.symm hholds⟩

/-! ## The load -/

variable {link : ArtifactLink U}

theorem digest_fileSize {blake3 : Bytes → Hash} {files : Files U ε}
    {d : LinkDigest} (hdigest : link.digest blake3 files = .ok d) : d.fileSize = link.size := by
  rw [ArtifactLink.digest, bind_eq_ok] at hdigest
  obtain ⟨hashed, -, hd⟩ := hdigest
  rw [pure_eq_ok] at hd
  rw [← hd]

theorem Verified.declared {env : Env U ε} {key : LinkDigest} {expected : Option ExpectedDigest}
    {content : Bytes} (hverified : Verified h env link key expected content)
    (hdeclared : env.declared link ≠ 0) : size128 content = env.declared link := by
  cases link with
  | «local» path size => exact hverified.linkSize hdeclared
  | bytes payload size => exact hverified.linkSize hdeclared
  | http url size =>
    obtain ⟨response, hresponse, -⟩ := hverified.delivered
    simp only [Env.declared, hresponse] at hdeclared ⊢
    cases hlength : response.contentLength.filter (0 < ·) with
    | none =>
      rw [hlength] at hdeclared
      exact hverified.linkSize hdeclared
    | some length =>
      rw [hlength] at hdeclared
      exact hverified.contentLength url size response length rfl hresponse
        (Option.filter_eq_some_iff.1 hlength).1 hdeclared

/-- A load refuses the link, or its worker runs; the result is the worker's unless it is
abandoned. -/
theorem loads_cases {windows : Bool} {env : Env U ε} {linkRef : LinkRef}
    {expected : Option ExpectedDigest} {expectedLinkDigest : LinkDigest} {join : Join}
    {s s' : Site} {result : Except OperationError FileRef}
    (hload : Loads h firstEntry windows env link linkRef expected expectedLinkDigest join s
      result s') : result = .error .readSource ∧ s' = s ∨
      link.digest h.blake3 env.digested = .ok expectedLinkDigest ∧
        ∃ r, Exec (host h) (worker h firstEntry windows env link linkRef expected) s (some r) s' ∧
          (join = .joined ∧ result = r ∨ join = .abandoned ∧ result = .error .cancelled) := by
  cases hcomputed : link.digest h.blake3 env.digested with
  | error e =>
    simp only [Loads, hcomputed] at hload
    exact .inl hload
  | ok computed =>
    simp only [Loads, hcomputed] at hload
    split at hload
    · exact .inl hload
    · rename_i hsame
      cases join with
      | notRun => exact .inl hload
      | joined => exact .inr ⟨by rw [not_not.1 hsame], result, hload, .inl ⟨rfl, rfl⟩⟩
      | abandoned =>
        obtain ⟨hresult, r, hworker⟩ := hload
        exact .inr ⟨by rw [not_not.1 hsame], r, hworker, .inr ⟨rfl, hresult⟩⟩

section Worker

variable {windows : Bool} {env : Env U ε} {linkRef : LinkRef} {expected : Option ExpectedDigest}
  {s s' : Site}

theorem worker_loaded {r : Except OperationError FileRef}
    (hrun : Exec (host h) (worker h firstEntry windows env link linkRef expected) s (some r) s') :
    Loaded h env link linkRef.linkDigest expected s.files.destination r s'.files.destination :=
  ((safe_iff _ _).1 (worker_spec windows env link linkRef expected) _ _ hrun).2 r rfl

/-- The size in the key is met just if it is the one that the source declares, or none. -/
theorem size_of_key_iff {f : FileRef} {key : LinkDigest} {before after : Place}
    (hloaded : Loaded h env link key expected before (.ok f) after)
    (hdeclared : env.declared link ≠ 0) :
    (key.fileSize ≠ 0 → f.fileDigest.fileSize = key.fileSize) ↔
      key.fileSize = 0 ∨ key.fileSize = env.declared link := by
  obtain ⟨content, -, hverified, hf, -⟩ := hloaded
  rw [hf, show (digestOf h content).fileSize = size128 content from rfl,
    hverified.declared hdeclared, or_iff_not_imp_left, eq_comm]

/-- A worker that starts without a destination leaves none just if it fails. -/
theorem absent_iff_fails {r : Except OperationError FileRef}
    (hrun : Exec (host h) (worker h firstEntry windows env link linkRef expected) s (some r) s')
    (hbefore : s.files.destination = .absent) :
    s'.files.destination = .absent ↔ ∃ e, r = .error e := by
  have hloaded := worker_loaded hrun
  cases r with
  | error e =>
    refine iff_of_true ?_ ⟨e, rfl⟩
    rcases hloaded with hplace | hplace
    · exact hplace.trans hbefore
    · exact hplace
  | ok f =>
    obtain ⟨_, bytes, _, _, hplace, _⟩ := hloaded
    refine iff_of_false ?_ (by simp)
    rw [hplace]
    simp

end Worker

end

/-! ## Loads that are not verified -/

section Unverified

def magicOnly : Bytes := [0x30, 0x37, 0x30, 0x37, 0x30, 0x31]

def leadingHashers : Hashers := ⟨leading, leading, fun _ => ⟨List.replicate 64 0, by simp⟩⟩

def quietEnv : Env UInt8 Unit where
  digested := noPaths
  copied := noPaths
  metadata _ := .error ()
  response _ := .error ()
  cancelledBefore := false
  cancelledAfter := false

def magicLink : ArtifactLink UInt8 := .bytes magicOnly 6

def magicDigest : LinkDigest := ⟨leading magicOnly, 6⟩

def magicRef : LinkRef := ⟨⟨List.replicate 16 0, by simp⟩, .kernel, magicDigest⟩

def magicRecord : FileRef :=
  ⟨magicRef.uuid, .kernel, digestOf leadingHashers magicOnly, .containerCpio, .none⟩

def emptySite : Site := ⟨⟨.absent, none⟩, none⟩

def publishedSite : Site := ⟨⟨.file magicOnly, none⟩, none⟩

theorem magic_worker :
    Exec (host leadingHashers) (worker leadingHashers (fun _ => false) false quietEnv magicLink
      magicRef (some (.blake3 (leading magicOnly)))) emptySite (some (.ok magicRecord))
      publishedSite :=
  exec_interp (answer_host leadingHashers fun _ => none) _ emptySite

/-- A response that declares its six bytes. -/
def httpEnv : Env UInt8 Unit :=
  { quietEnv with response := fun _ => .ok ⟨true, some 6, Source.ofBytes magicOnly⟩ }

/-- A key that declares seven. -/
def sevenRef : LinkRef := { magicRef with linkDigest := ⟨leading magicOnly, 7⟩ }

end Unverified

end Jyth.Ops
