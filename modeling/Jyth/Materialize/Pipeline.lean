import Jyth.Lib.Effect
import Jyth.Registry.Manifest
import Jyth.Storage.Index

/-!
# The materialization pipeline

`resolver.rs`, `ops/load.rs`, `ops/blueprint.rs` and `materialize.rs` of
`image-core`, and the services of `rootfs` and `kernel`, as programs over two
kinds of operations: requests to the outside (`Outside`) and operations on the
cache (`StoreOp`).

A link reference is its namespaced digest: a reservation, once made, stays
(`reservations_stable`).  A record holds the bytes its file digest stands for; it
is valid while the file on disk has these bytes.  What the archive tools compute
is a parameter (`Tools`); which artifacts they are applied to, what is checked
before, and what is stored after is modelled here.
-/

namespace Jyth.Materialize

open Format Effect Registry
open Jyth.Image (OperationError Report normalizePath text)

export Registry (Layer ArtifactLink LinkDigest)

inductive Failure
  | operation (report : Report)
  | index (error : IndexError)
  | link
  | reference (error : OciReferenceError)
  /-- `layer materialized as unsupported artifact …` -/
  | layerArtifact (ty : ArtifactType)
  /-- `kernel source materialized as unsupported artifact …` -/
  | kernelArtifact (ty : ArtifactType)
  /-- `rootfs materialized as unsupported artifact …` -/
  | rootfsArtifact (ty : ArtifactType)
  /-- `raw kernel source materialized as an archive; no kernel entry path was requested` -/
  | rawArchive
  /-- `archive extraction requires a kernel entry path` -/
  | missingKernelPath
deriving DecidableEq

/-- `NamespacedLinkDigest`, and the `LinkRef` reserved for it. -/
structure Key where
  namespc : Namespace
  linkDigest : LinkDigest
deriving DecidableEq

/-- A `FileRef` with the bytes its digest stands for. -/
structure Artifact where
  artifactType : ArtifactType
  artifactCompression : ArtifactCompression
  content : Bytes
deriving DecidableEq

/-- `Blueprint`; its target is the key it is stored under. -/
structure Blueprint where
  layers : List Layer
  extract : Option Text
deriving DecidableEq

inductive Link
  | «local» (path : Text)
  | bytes (payload : Bytes)
  | http (url : Text)
  | image (reference : Text)
deriving DecidableEq

structure ResolvedSource where
  link : ArtifactLink
  isImage : Bool
  sourceDigest : LinkDigest
deriving DecidableEq

structure Detected where
  artifactType : ArtifactType
  artifactCompression : ArtifactCompression

/-- What the archive tools and parsers compute, and the host's architecture. -/
structure Tools where
  parseUrl : Text → Option OciReference.Url
  parseImage : Bytes → Option ImageManifest
  parseIndex : Bytes → Option IndexManifest
  hostArch : Arch
  /-- `format::detect` of the leading bytes. -/
  detect : Bytes → Option Detected
  detect_compression : ∀ {header detected}, detect header = some detected →
    (detected.artifactCompression = .none ↔ detected.artifactType ≠ .compressed)
  decompress : ArtifactCompression → Bytes → Except Report Bytes
  convert : Bytes → Except Report Bytes
  flatten : List Bytes → Except Report Bytes
  extractKernel : Text → Bytes → Except Report Bytes
  extractModules : Bytes → Except Report (Option Bytes)
  validateCpio : Bytes → Except Report Unit

theorem Detected.containerCpio_compression {header : Bytes} {detected : Detected}
    (h : (fun _ : Bytes => some (⟨.containerCpio, .none⟩ : Detected)) header = some detected) :
    detected.artifactCompression = .none ↔ detected.artifactType ≠ .compressed := by
  cases h
  decide

/-! ## Requests to the outside -/

/-- Why a manifest is fetched: to resolve a tag, for the blueprint stored under a
key, or as the platform entry of an index.  The request carries only the URL. -/
inductive Purpose
  | probe
  | target (key : Key)
  | entry (digest : Text)
deriving DecidableEq

/-- The calls to the file system and the network. -/
inductive Outside
  | metadata (path : Text)
  | readLocal (path : Text)
  | head (url : Text)
  | headManifest (url : Text)
  | getManifest (url : Text) (purpose : Purpose)
  | getBody (url : Text)
  /-- A local step that can fail or be cancelled. -/
  | work

structure ProbeReply where
  contentLength : Option (BitVec 128)
  contentDigest : Option Text

structure BodyReply where
  contentLength : Option (BitVec 128)
  body : Bytes

@[reducible] def Outside.Result : Outside → Type
  | metadata _ => BitVec 128
  | readLocal _ => Bytes
  | head _ => Option (BitVec 128)
  | headManifest _ => ProbeReply
  | getManifest _ _ => ManifestReply
  | getBody _ => BodyReply
  | work => Unit

abbrev Outside.Ans (op : Outside) : Type := Except Failure op.Result

/-- Programs that only talk to the outside. -/
abbrev Fetch := Fallible Outside Outside.Ans Failure

def ask (op : Outside) : Fetch op.Result := ExceptT.mk (Prog.call op)

def ofReport {α : Type} (r : Except Report α) : Fetch α :=
  ExceptT.mk (Prog.done (r.mapError .operation))

def failWhen (c : Prop) [Decidable c] (report : Report) : Fetch Unit := ofReport (failIf c report)

/-! ## Resolution -/

section Resolve

variable (hashes : Hashes)

def linkDigest : ArtifactLink → Fetch LinkDigest
  | .local path size => do
    let content ← ask (.readLocal path)
    return ⟨hashes.blake3 content, size⟩
  | .bytes payload size => return ⟨hashes.blake3 payload, size⟩
  | .http url size => return httpDigest hashes url size

def size128 (content : Bytes) : BitVec 128 := BitVec.ofNat 128 content.length

/-- What the local, bytes and HTTP resolvers do once the link is known. -/
def resolveLink (link : ArtifactLink) : Fetch ResolvedSource := do
  let sourceDigest ← linkDigest hashes link
  return ⟨link, false, sourceDigest⟩

structure ManifestProbe where
  contentLength : BitVec 128
  contentDigest : Option Text

def headManifest (url : Text) : Fetch ManifestProbe := do
  let reply ← ask (.headManifest url)
  let contentDigest ← ofReport (validateContentDigestHeader reply.contentDigest)
  return ⟨reply.contentLength.getD 0, contentDigest⟩

def fetchManifest (url : Text) (purpose : Purpose) : Fetch ManifestResponse := do
  let reply ← ask (.getManifest url purpose)
  ofReport (acceptManifest hashes url reply)

/-- The digest the registry reports, or that of the body it delivers. -/
def manifestDigest (url : Text) (probe : ManifestProbe) : Fetch Text :=
  match probe.contentDigest with
  | some digest => return digest
  | none => do
    let manifest ← fetchManifest hashes url .probe
    return hashes.manifestBodyDigest manifest.bytes

def parseReference (reference : Text) : Fetch OciReference :=
  ExceptT.mk (Prog.done ((OciReference.parse reference).mapError .reference))

def resolveImage (reference : Text) : Fetch ResolvedSource := do
  let reference ← parseReference reference
  let manifestUrl := reference.manifestUrl
  let probe ← headManifest manifestUrl
  let digest ← manifestDigest hashes manifestUrl probe
  return ⟨.http manifestUrl probe.contentLength, true,
    ociSourceDigest hashes reference.host reference.repository digest⟩

def resolveSource : Link → Fetch ResolvedSource
  | .local path => do
    let size ← ask (.metadata path)
    resolveLink hashes (.local path size)
  | .bytes payload => resolveLink hashes (.bytes payload (size128 payload))
  | .http url => do
    let contentLength ← ask (.head url)
    resolveLink hashes (.http url (contentLength.getD 0))
  | .image reference => resolveImage hashes reference

end Resolve

/-! ## Blueprints -/

section Blueprint

variable (hashes : Hashes) (tools : Tools)

/-- A path inside an archive, as a caller requests it: `what` is how errors name it. -/
def validateArchivePath (what : String) (path : Text) : Except Report Text := do
  failIf (path = []) (fault .unsafePath (what ++ " is empty"))
  failIf (path.head? = some slash) (fault .unsafePath (what ++ " is absolute: " ++ text path))
  failIf (path[1]? = some colon)
    (fault .unsafePath (what ++ " contains a Windows drive prefix: " ++ text path))
  normalizePath path

def validateExtractPath (path : Text) : Except Report Text := validateArchivePath "extract path" path

def manifestUrlOf : ArtifactLink → Fetch Text
  | .http url _ => return url
  | _ => ofReport (throw (fault .unsupportedArtifact
      "blueprint requires an ArtifactLink::Http pointing at a manifest"))

def validateExtract : Option Text → Fetch Unit
  | none => return ()
  | some path => do
    let _ ← ofReport (validateExtractPath path)

def referenceFromManifestUrl (url : Text) : Fetch OciReference :=
  ExceptT.mk (Prog.done ((OciReference.fromManifestUrl tools.parseUrl url).mapError fun _ =>
    .operation ⟨.invalidManifest, none⟩))

def parseManifest {α : Type} (parsed : Option α) : Fetch α :=
  ofReport (parsed.elim (throw ⟨.invalidManifest, none⟩) pure)

def platformManifest (reference : OciReference) (manifest : ManifestResponse) :
    Fetch ManifestResponse := do
  let index ← parseManifest (tools.parseIndex manifest.bytes)
  let target ← ofReport (selectPlatform index tools.hostArch)
  fetchManifest hashes (reference.manifestUrlForDigest target.digest) (.entry target.digest)

def imageManifest (reference : OciReference) (kind : ManifestKind)
    (manifest : ManifestResponse) : Fetch ManifestResponse :=
  match kind with
  | .ociImage | .dockerManifest => return manifest
  | .ociIndex | .dockerList => platformManifest hashes tools reference manifest

def blueprint (key : Key) (link : ArtifactLink) (extract : Option Text)
    (expectedLinkDigest : LinkDigest) : Fetch Blueprint := do
  let manifestUrl ← manifestUrlOf link
  let digest ← linkDigest hashes link
  failWhen (digest ≠ expectedLinkDigest) (fault .readSource
    "blueprint: link.digest() does not match the caller's expected digest")
  failWhen (key.namespc ≠ .kernel ∧ key.namespc ≠ .rootfs) (fault .unsupportedArtifact
    "blueprint requires Namespace::Kernel or Namespace::Rootfs")
  failWhen (key.namespc = .kernel ∧ extract = none) (fault .unsupportedArtifact
    "blueprint: extract path is required for a kernel stored inside an image")
  validateExtract extract
  let reference ← referenceFromManifestUrl tools manifestUrl
  let manifest ← fetchManifest hashes manifestUrl (.target key)
  let kind ← ofReport (classifyMediaType manifest.mediaType)
  let imageBytes ← imageManifest hashes tools reference kind manifest
  let image ← parseManifest (tools.parseImage imageBytes.bytes)
  let layers ← ofReport (buildLayers hashes reference image)
  return ⟨layers, extract⟩

end Blueprint

/-! ## Loading -/

section Load

variable (hashes : Hashes) (tools : Tools)

def sizeMismatch : Report := ⟨.sizeMismatch, none⟩

def verifyAgainstExpected (expected : Option ExpectedDigest) (content : Bytes) :
    Except Report Unit :=
  failIf (expected.any fun e => ! hashes.verify e content) ⟨.digestMismatch, none⟩

def validateOutcome (declaredSize : BitVec 128) (expected : Option ExpectedDigest)
    (content : Bytes) : Except Report Unit := do
  failIf (declaredSize ≠ 0 ∧ size128 content ≠ declaredSize) sizeMismatch
  verifyAgainstExpected hashes expected content

/-- The size of an HTTP body is compared with the length the response declares or,
if it declares none, with the sizes the key and the link know. -/
def validateHttpSize (declaredSize : BitVec 128) (contentLength : Option (BitVec 128))
    (linkSize : BitVec 128) (content : Bytes) : Except Report Unit :=
  match contentLength.filter (0 < ·) with
  | some length => failIf (size128 content ≠ length) sizeMismatch
  | none => do
    failIf (linkSize ≠ 0 ∧ size128 content ≠ linkSize) sizeMismatch
    failIf (declaredSize ≠ 0 ∧ size128 content ≠ declaredSize) sizeMismatch

def validateHttpOutcome (declaredSize : BitVec 128) (contentLength : Option (BitVec 128))
    (linkSize : BitVec 128) (expected : Option ExpectedDigest) (content : Bytes) :
    Except Report Unit := do
  validateHttpSize declaredSize contentLength linkSize content
  verifyAgainstExpected hashes expected content

def copyLocal (path : Text) (declaredSize linkSize : BitVec 128)
    (expected : Option ExpectedDigest) : Fetch Bytes := do
  let actualSize ← ask (.metadata path)
  failWhen (actualSize ≠ declaredSize ∧ actualSize ≠ linkSize) sizeMismatch
  let content ← ask (.readLocal path)
  ofReport (validateOutcome hashes declaredSize expected content)
  return content

def copyBytes (payload : Bytes) (declaredSize : BitVec 128) (expected : Option ExpectedDigest) :
    Fetch Bytes := do
  failWhen (size128 payload ≠ declaredSize) sizeMismatch
  ofReport (validateOutcome hashes declaredSize expected payload)
  return payload

def copyHttp (url : Text) (declaredSize linkSize : BitVec 128)
    (expected : Option ExpectedDigest) : Fetch Bytes := do
  let reply ← ask (.getBody url)
  failWhen (reply.contentLength.any fun length =>
    declaredSize ≠ 0 ∧ length ≠ 0 ∧ length ≠ declaredSize) sizeMismatch
  ofReport (validateHttpOutcome hashes declaredSize reply.contentLength linkSize expected reply.body)
  return reply.body

def copy (link : ArtifactLink) (linkSize : BitVec 128) (expected : Option ExpectedDigest) :
    Fetch Bytes :=
  match link with
  | .local path size => copyLocal hashes path size linkSize expected
  | .bytes payload size => copyBytes hashes payload size expected
  | .http url size => copyHttp hashes url size linkSize expected

def minHeaderLen : Nat := 0x400

def detectOrUnsupported (content : Bytes) : Except Report Detected :=
  (tools.detect (content.take minHeaderLen)).elim (throw ⟨.unsupportedArtifact, none⟩) pure

/-- `ops::load` up to the publication of the staged file; `linkSize` is the size
in the destination's key. -/
def loadStaged (link : ArtifactLink) (linkSize : BitVec 128) (expected : Option ExpectedDigest)
    (expectedLinkDigest : LinkDigest) : Fetch Artifact := do
  let computed ← linkDigest hashes link
  failWhen (computed ≠ expectedLinkDigest) ⟨.readSource, none⟩
  ask .work
  let content ← copy hashes link linkSize expected
  let detected ← ofReport (detectOrUnsupported tools content)
  return ⟨detected.artifactType, detected.artifactCompression, content⟩

end Load

/-! ## Transformations of artifacts -/

section Transform

variable (tools : Tools)

def cpioArtifact (content : Bytes) : Artifact := ⟨.containerCpio, .none, content⟩

def maxDecompressedBytes : Nat := 4 * 1024 * 1024 * 1024

/-- The operations on archives require an uncompressed artifact of a type. -/
def expectPlain (ty : ArtifactType) (a : Artifact) : Except Report Unit := do
  failIf (a.artifactType ≠ ty) ⟨.unsupportedArtifact, none⟩
  failIf (a.artifactCompression ≠ .none) ⟨.unsupportedCompression, none⟩

def expectNamespace (namespc : Namespace) (key : Key) : Except Report Unit :=
  failIf (key.namespc ≠ namespc) ⟨.unsupportedArtifact, none⟩

def decompressStage (a : Artifact) : Except Report Artifact := do
  failIf (a.artifactType ≠ .compressed) ⟨.unsupportedArtifact, none⟩
  failIf (a.artifactCompression = .none) ⟨.unsupportedCompression, none⟩
  let content ← tools.decompress a.artifactCompression a.content
  failIf (max maxDecompressedBytes a.content.length < content.length) sizeMismatch
  let detected ← detectOrUnsupported tools content
  failIf (detected.artifactType = .compressed) ⟨.unsupportedArtifact, none⟩
  return ⟨detected.artifactType, .none, content⟩

def intoCpio (a : Artifact) : Except Report Artifact := do
  expectPlain .containerTar a
  let content ← tools.convert a.content
  return cpioArtifact content

def flatten (layers : List Artifact) (destination : Key) : Except Report Artifact := do
  expectNamespace .rootfs destination
  layers.forM (expectPlain .containerCpio)
  let content ← tools.flatten (layers.map Artifact.content)
  return cpioArtifact content

def validateRequestPath (path : Text) : Except Report Text :=
  validateArchivePath "kernel request path" path

def extractKernel (path : Text) (source : Artifact) (destination : Key) :
    Except Report Artifact := do
  expectPlain .containerCpio source
  expectNamespace .kernel destination
  let requested ← validateRequestPath path
  let content ← tools.extractKernel requested source.content
  return ⟨.fileBzImage, .none, content⟩

def extractModules (source : Artifact) (destination : Key) : Except Report (Option Artifact) := do
  expectPlain .containerCpio source
  expectNamespace .modules destination
  let content ← tools.extractModules source.content
  return content.map cpioArtifact

def validateCpio (a : Artifact) : Except Report Unit := do
  expectPlain .containerCpio a
  tools.validateCpio a.content

end Transform

/-! ## The cache -/

/-- The calls to the store. -/
inductive StoreOp
  | reserve (key : Key)
  | readFile (key : Key)
  | publishFile (key : Key) (artifact : Artifact)
  | replaceFile (key : Key) (artifact : Artifact)
  /-- The file of a key is replaced by staged bytes. -/
  | writeFile (key : Key) (content : Bytes)
  | readBlueprint (key : Key)
  | publishBlueprint (key : Key) (value : Blueprint)

@[reducible] def StoreOp.Result : StoreOp → Type
  | reserve _ => Unit
  | readFile _ => Option Artifact
  | publishFile _ _ => Unit
  | replaceFile _ _ => Unit
  | writeFile _ _ => Unit
  | readBlueprint _ => Option Blueprint
  | publishBlueprint _ _ => Unit

abbrev StoreOp.Ans (op : StoreOp) : Type := Except Failure op.Result

/-- The index and the files behind it. -/
structure Store where
  records : Table Key Artifact
  disk : Table Key Bytes
  blueprints : Table Key Blueprint

namespace Store

def empty : Store := ⟨fun _ => none, fun _ => none, fun _ => none⟩

/-- The record of a key, if its file has the recorded bytes. -/
def lookup (s : Store) (key : Key) : Option Artifact :=
  (s.records key).filter fun a => s.disk key = some a.content

/-- Reading a record whose file does not match removes it. -/
def settle (s : Store) (key : Key) : Store :=
  if (s.lookup key).isSome then s else { s with records := s.records.remove key }

def publish (s : Store) (key : Key) (a : Artifact) : Store :=
  { s with records := s.records.insert key a }

/-- What an operation answers and does if it does not fail. -/
def apply (s : Store) : (op : StoreOp) → Except IndexError (op.Result × Store)
  | .reserve _ => .ok ((), s)
  | .readFile key => .ok (s.lookup key, s.settle key)
  | .publishFile key a => .ok ((), s.publish key a)
  | .replaceFile key a =>
    if (s.records key).isSome then .ok ((), s.publish key a) else .error .missingPrevious
  | .writeFile key content => .ok ((), { s with disk := s.disk.insert key content })
  | .readBlueprint key => .ok (s.blueprints key, s)
  | .publishBlueprint key value => .ok ((), { s with blueprints := s.blueprints.insert key value })

/-- An operation succeeds as `apply` says, or fails and changes nothing. -/
def world : World Store StoreOp StoreOp.Ans := fun op s r s' =>
  (∃ v, s.apply op = .ok (v, s') ∧ r = .ok v) ∨ (∃ e, r = .error e) ∧ s' = s

end Store

/-! ## Layers -/

abbrev M := Fallible (Outside ⊕ StoreOp) (Sum.rec Outside.Ans StoreOp.Ans) Failure

def fetch {α : Type} (p : Fetch α) : M α := Prog.outside StoreOp.Ans p

def perform (op : StoreOp) : M op.Result := ExceptT.mk (Prog.call (Sum.inr op))

/-- A transformation: it can be cancelled or fail before it computes. -/
def transform {α : Type} (r : Except Report α) : M α := do
  fetch (ask .work)
  fetch (ofReport r)

section Layers

variable (hashes : Hashes) (tools : Tools)

/-- `ops::load`. -/
def load (key : Key) (link : ArtifactLink) (expected : Option ExpectedDigest)
    (expectedLinkDigest : LinkDigest) : M Artifact := do
  let artifact ← fetch (loadStaged hashes tools link key.linkDigest.fileSize expected
    expectedLinkDigest)
  perform (.writeFile key artifact.content)
  return artifact

def readOrLoad (key : Key) (link : ArtifactLink) (expected : Option ExpectedDigest)
    (expectedLinkDigest : M LinkDigest) : M Artifact := do
  match ← perform (.readFile key) with
  | some entry => return entry
  | none => do
    let expectedLinkDigest ← expectedLinkDigest
    let entry ← load hashes tools key link expected expectedLinkDigest
    perform (.publishFile key entry)
    return entry

/-- The index is updated before the staged bytes replace the compressed ones. -/
def decompressInPlace (key : Key) (a : Artifact) : M Artifact := do
  let staged ← transform (decompressStage tools a)
  perform (.replaceFile key staged)
  perform (.writeFile key staged.content)
  return staged

/-- The conversion replaces the bytes before the index is updated. -/
def convertInPlace (key : Key) (a : Artifact) : M Artifact := do
  let cpio ← transform (intoCpio tools a)
  perform (.writeFile key cpio.content)
  perform (.replaceFile key cpio)
  return cpio

def decompressIfNeeded (key : Key) (a : Artifact) : M Artifact :=
  if a.artifactCompression = .none then return a else decompressInPlace tools key a

def convertIfNeeded (key : Key) (a : Artifact) : M Artifact :=
  if a.artifactType = .containerTar then convertInPlace tools key a else return a

def normalizeArtifact (key : Key) (a : Artifact) : M Artifact := do
  let a ← decompressIfNeeded tools key a
  convertIfNeeded tools key a

def getOrBuildBlueprint (target : Key) (link : ArtifactLink) (extract : Option Text)
    (expectedLinkDigest : LinkDigest) : M Blueprint := do
  match ← perform (.readBlueprint target) with
  | some value => return value
  | none => do
    let value ← fetch (blueprint hashes tools target link extract expectedLinkDigest)
    perform (.publishBlueprint target value)
    return value

def expectCpio (failure : ArtifactType → Failure) (a : Artifact) : M Unit :=
  if a.artifactType = .containerCpio then return () else throw (failure a.artifactType)

def materializeLayer (layer : Layer) : M Artifact := do
  let key : Key := ⟨.layers, layer.linkDigest⟩
  perform (.reserve key)
  let artifact ← readOrLoad hashes tools key layer.link (some layer.expectedDigest)
    (return layer.linkDigest)
  let artifact ← normalizeArtifact tools key artifact
  expectCpio .layerArtifact artifact
  return artifact

def materializeEach : List Layer → M (List Artifact)
  | [] => return []
  | layer :: layers => do
    let artifact ← materializeLayer hashes tools layer
    let rest ← materializeEach layers
    return artifact :: rest

def materializeLayers (layers : List Layer) (destination : Key) : M Artifact := do
  let artifacts ← materializeEach hashes tools layers
  let rootfs ← transform (flatten tools artifacts destination)
  perform (.writeFile destination rootfs.content)
  return rootfs

end Layers

/-! ## The rootfs service -/

section Rootfs

variable (hashes : Hashes) (tools : Tools)

def imageRootfs (blueprintKey rootfsKey : Key) (link : ArtifactLink) (extract : Option Text) :
    M Artifact := do
  let expectedLinkDigest ← fetch (linkDigest hashes link)
  let blueprint ← getOrBuildBlueprint hashes tools blueprintKey link extract expectedLinkDigest
  materializeLayers hashes tools blueprint.layers rootfsKey

def archiveRootfs (key : Key) (link : ArtifactLink) : M Artifact := do
  let expectedLinkDigest ← fetch (linkDigest hashes link)
  let artifact ← load hashes tools key link none expectedLinkDigest
  perform (.publishFile key artifact)
  let artifact ← normalizeArtifact tools key artifact
  expectCpio .rootfsArtifact artifact
  transform (validateCpio tools artifact)
  return artifact

def isCpio (a : Artifact) : Bool := a.artifactType = .containerCpio

def freshRootfs (key : Key) (resolved : ResolvedSource) : M Artifact :=
  if resolved.isImage then imageRootfs hashes tools key key resolved.link none
  else archiveRootfs hashes tools key resolved.link

def publishFreshRootfs (key : Key) (resolved : ResolvedSource) : M Artifact := do
  let rootfs ← freshRootfs hashes tools key resolved
  perform (.publishFile key rootfs)
  return rootfs

def buildRootfs (source : Link) : M Artifact := do
  let resolved ← fetch (resolveSource hashes source)
  let key : Key := ⟨.rootfs, resolved.sourceDigest⟩
  perform (.reserve key)
  let cached ← perform (.readFile key)
  match cached.filter isCpio with
  | some entry => do
    transform (validateCpio tools entry)
    return entry
  | none => publishFreshRootfs hashes tools key resolved

end Rootfs

/-! ## The kernel service -/

section Kernel

variable (hashes : Hashes) (tools : Tools)

structure ExternalKernelPlan where
  link : Link
  kernelPath : Option Text

structure MaterializedKernel where
  kernel : Bytes
  modules : Option Bytes
deriving DecidableEq

def isBzImage (a : Artifact) : Bool := a.artifactType = .fileBzImage

def isModules (a : Artifact) : Bool :=
  a.artifactType = .containerCpio && a.artifactCompression = .none

def cachedModules (modulesKey : Key) : M (Option Artifact) := do
  let entry ← perform (.readFile modulesKey)
  return entry.filter isModules

def publishModules (modulesKey : Key) : Option Artifact → M (Option Artifact)
  | none => return none
  | some modules => do
    perform (.writeFile modulesKey modules.content)
    perform (.publishFile modulesKey modules)
    return some modules

def extractModulesIfNeeded (source : Artifact) (modulesKey : Key) : M (Option Artifact) := do
  let modules ← transform (extractModules tools source modulesKey)
  publishModules modulesKey modules

/-- The modules cached for a source, or those extracted from its tree. -/
def modulesOf (source : Artifact) (modulesKey : Key) : M (Option Artifact) := do
  match ← cachedModules modulesKey with
  | some modules => return some modules
  | none => extractModulesIfNeeded tools source modulesKey

def publishTransformed (target : Key) (transformed : Artifact) : M Unit := do
  match ← perform (.readFile target) with
  | some _ => perform (.replaceFile target transformed)
  | none => perform (.publishFile target transformed)

def extractFreshKernel (source : Artifact) (kernelPath : Option Text) (kernelKey : Key) :
    M Artifact :=
  match kernelPath with
  | none => throw .missingKernelPath
  | some requested => do
    let extracted ← transform (extractKernel tools requested source kernelKey)
    perform (.writeFile kernelKey extracted.content)
    publishTransformed kernelKey extracted
    return extracted

def kernelOf (source : Artifact) (kernelPath : Option Text) (kernelKey : Key) : M Artifact := do
  let cached ← perform (.readFile kernelKey)
  match cached.filter isBzImage with
  | some kernel => return kernel
  | none => extractFreshKernel tools source kernelPath kernelKey

def extractKernelResult (source : Artifact) (kernelPath : Option Text)
    (kernelKey modulesKey : Key) : M MaterializedKernel := do
  expectCpio .kernelArtifact source
  let modules ← modulesOf tools source modulesKey
  let kernel ← kernelOf tools source kernelPath kernelKey
  return ⟨kernel.content, modules.map Artifact.content⟩

/-- A cached kernel of an image is kept; its modules come from the cache or, if
the rootfs is cached, from there. -/
def keepKernel (kernel : Artifact) (cachedRootfs : Option Artifact) (modulesKey : Key) :
    M MaterializedKernel := do
  let modules ← cachedModules modulesKey
  match modules, cachedRootfs with
  | none, some rootfs => do
    let modules ← extractModulesIfNeeded tools rootfs modulesKey
    return ⟨kernel.content, modules.map Artifact.content⟩
  | modules, _ => return ⟨kernel.content, modules.map Artifact.content⟩

/-- The rootfs a kernel is extracted from; its blueprint is cached under the
kernel's key. -/
def kernelRootfs (plan : ExternalKernelPlan) (link : ArtifactLink) (kernelKey rootfsKey : Key) :
    Option Artifact → M Artifact
  | some rootfs => return rootfs
  | none => do
    let rootfs ← imageRootfs hashes tools kernelKey rootfsKey link plan.kernelPath
    perform (.publishFile rootfsKey rootfs)
    return rootfs

def buildFromImage (plan : ExternalKernelPlan) (resolved : ResolvedSource)
    (kernelKey modulesKey : Key) : M MaterializedKernel := do
  let rootfsKey : Key := ⟨.rootfs, resolved.sourceDigest⟩
  perform (.reserve rootfsKey)
  let cachedKernel ← perform (.readFile kernelKey)
  let cachedRootfs ← perform (.readFile rootfsKey)
  match cachedKernel.filter isBzImage with
  | some kernel => keepKernel tools kernel (cachedRootfs.filter isCpio) modulesKey
  | none => do
    let rootfs ← kernelRootfs hashes tools plan resolved.link kernelKey rootfsKey
      (cachedRootfs.filter isCpio)
    extractKernelResult tools rootfs plan.kernelPath kernelKey modulesKey

/-- A raw kernel is returned with the modules cached for its source. -/
def finishArchive (artifact : Artifact) (kernelPath : Option Text) (kernelKey modulesKey : Key) :
    M MaterializedKernel :=
  if isBzImage artifact then do
    let modules ← cachedModules modulesKey
    return ⟨artifact.content, modules.map Artifact.content⟩
  else if kernelPath = none then throw .rawArchive
  else extractKernelResult tools artifact kernelPath kernelKey modulesKey

def buildFromArchive (plan : ExternalKernelPlan) (resolved : ResolvedSource)
    (kernelKey modulesKey : Key) : M MaterializedKernel := do
  let artifact ← readOrLoad hashes tools kernelKey resolved.link none
    (fetch (linkDigest hashes resolved.link))
  let artifact ← normalizeArtifact tools kernelKey artifact
  finishArchive tools artifact plan.kernelPath kernelKey modulesKey

def buildExternal (plan : ExternalKernelPlan) : M MaterializedKernel := do
  let resolved ← fetch (resolveSource hashes plan.link)
  let kernelKey : Key := ⟨.kernel, kernelRequestDigest hashes resolved.sourceDigest plan.kernelPath⟩
  perform (.reserve kernelKey)
  let modulesKey : Key := ⟨.modules, resolved.sourceDigest⟩
  perform (.reserve modulesKey)
  if resolved.isImage then buildFromImage hashes tools plan resolved kernelKey modulesKey
  else buildFromArchive hashes tools plan resolved kernelKey modulesKey

end Kernel

end Jyth.Materialize
