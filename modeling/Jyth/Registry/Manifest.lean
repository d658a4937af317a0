import Jyth.Image.Path
import Jyth.Registry.Reference

/-!
# Manifests and layers

The parts of `ops/registry.rs` and `ops/blueprint.rs` that compute on a response
once it is there: the digest check of a manifest body, the choice of a platform,
and the layer list.  The JSON of a manifest is parsed outside this model.

The body of a manifest is compared with the digest in the URL or, failing that,
with the one the registry sends along; with neither, any body is accepted:

    checkBody hashes url none body = .ok ()    if the URL ends in a tag
-/

namespace Jyth.Registry

open Format Segments LinkDigestBuilder
open Jyth.Image (OperationError Report text)

def fault (context : OperationError) (message : String) : Report := ⟨context, some message⟩

/-! ## The response to a manifest request -/

/-- A successful response; `contentDigest` is its `Docker-Content-Digest`. -/
structure ManifestReply where
  contentType : Option Text
  contentDigest : Option Text
  body : Bytes

structure ManifestResponse where
  bytes : Bytes
  mediaType : Text
  contentDigest : Option Text

def isSpace (b : UInt8) : Bool := b = 0x20 || b = 0x09

def trim (s : Text) : Text := ((s.dropWhile isSpace).reverse.dropWhile isSpace).reverse

def mediaTypeOf (contentType : Option Text) : Text :=
  trim ((contentType.getD []).takeWhile (· ≠ 0x3b))

def validateContentDigestHeader : Option Text → Except Report (Option Text)
  | none => return none
  | some value =>
    match parseExpectedDigest value with
    | .ok (.sha256 _) => return some value
    | .ok (.sha512 _) => return some value
    | .ok (.blake3 _) =>
      throw (fault .invalidManifest
        "registry supplied an unsupported Docker-Content-Digest algorithm")
    | .error _ =>
      throw (fault .invalidManifest "registry supplied an invalid Docker-Content-Digest header")

def isDigestSelector (selector : Text) : Bool :=
  (utf8 "sha256:").isPrefixOf selector || (utf8 "sha512:").isPrefixOf selector

def requestedDigestFromUrl (url : Text) : Option Text :=
  let selector := lastSegment slash url
  if isDigestSelector selector then some selector else none

def algorithmOf (digest : Text) : Text := digest.takeWhile (· ≠ colon)

def checkBody (hashes : Hashes) (url : Text) (contentDigest : Option Text) (body : Bytes) :
    Except Report Unit :=
  match requestedDigestFromUrl url <|> contentDigest with
  | none => return ()
  | some expected => do
    let computed ← (hashes.computeDigest (algorithmOf expected) body).elim
      (throw (fault .invalidManifest
        ("unsupported digest algorithm: " ++ text (algorithmOf expected)))) pure
    failIf (computed ≠ expected)
      (fault .digestMismatch ("expected " ++ text expected ++ ", computed " ++ text computed))

/-- The end of `fetch_with_challenge`, once the response is successful. -/
def acceptManifest (hashes : Hashes) (url : Text) (reply : ManifestReply) :
    Except Report ManifestResponse := do
  let contentDigest ← validateContentDigestHeader reply.contentDigest
  checkBody hashes url contentDigest reply.body
  return ⟨reply.body, mediaTypeOf reply.contentType, contentDigest⟩

/-! ## Manifests -/

inductive ManifestKind
  | ociImage | ociIndex | dockerManifest | dockerList
deriving DecidableEq

def classifyMediaType (mediaType : Text) : Except Report ManifestKind :=
  if mediaType = utf8 "application/vnd.oci.image.manifest.v1+json" then return .ociImage
  else if mediaType = utf8 "application/vnd.oci.image.index.v1+json" then return .ociIndex
  else if mediaType = utf8 "application/vnd.docker.distribution.manifest.v2+json" then
    return .dockerManifest
  else if mediaType = utf8 "application/vnd.docker.distribution.manifest.list.v2+json" then
    return .dockerList
  else throw (fault .invalidManifest ("unsupported manifest media type: " ++ text mediaType))

structure Platform where
  architecture : Option Text
  os : Option Text
  variant : Option Text
deriving DecidableEq

/-- A descriptor; its `size` is an `i64`. -/
structure Descriptor where
  mediaType : Option Text
  digest : Text
  size : Int
  platform : Option Platform
deriving DecidableEq

structure ImageManifest where
  layers : List Descriptor

structure IndexManifest where
  manifests : List Descriptor

/-! ## Platform selection -/

inductive Arch
  | amd64 | arm64 | other (tag : Text)
deriving DecidableEq

/-- What is done with a descriptor of an index. -/
inductive Choice
  | take | fallback | skip
deriving DecidableEq

def choose (target : Arch) (entry : Descriptor) : Choice :=
  match entry.platform with
  | none => .skip
  | some platform =>
    if platform.os ≠ some (utf8 "linux") then .skip
    else
      let arch := platform.architecture.getD []
      match target, platform.variant with
      | .amd64, none => if arch = utf8 "amd64" then .take else .skip
      | .amd64, some _ => .skip
      | .arm64, some variant => if arch = utf8 "arm64" ∧ variant = utf8 "v8" then .take else .skip
      | .arm64, none => if arch = utf8 "arm64" then .fallback else .skip
      | .other tag, _ => if arch = tag then .take else .skip

def selectFrom (target : Arch) (fallback : Option Descriptor) : List Descriptor → Option Descriptor
  | [] => fallback
  | entry :: entries =>
    match choose target entry with
    | .take => some entry
    | .fallback => selectFrom target (some entry) entries
    | .skip => selectFrom target fallback entries

def selectPlatform (index : IndexManifest) (target : Arch) : Except Report Descriptor :=
  (selectFrom target none index.manifests).elim (throw ⟨.platformNotFound, none⟩) pure

/-! ## Layers -/

/-- `ArtifactLink`: where bytes come from, with the size known for them. -/
inductive ArtifactLink
  | «local» (path : Text) (size : BitVec 128)
  | bytes (payload : Bytes) (size : BitVec 128)
  | http (url : Text) (size : BitVec 128)
deriving DecidableEq

/-- The identity of an HTTP link: its URL and the size observed. -/
def httpDigest (hashes : Hashes) (url : Text) (size : BitVec 128) : LinkDigest :=
  ⟨hashes.blake3 url, size⟩

structure Layer where
  link : ArtifactLink
  expectedDigest : ExpectedDigest
  linkDigest : LinkDigest
deriving DecidableEq

def isLayerMediaType (mediaType : Text) : Bool :=
  mediaType = utf8 "application/vnd.oci.image.layer.v1.tar" ||
  mediaType = utf8 "application/vnd.oci.image.layer.v1.tar+gzip" ||
  mediaType = utf8 "application/vnd.oci.image.layer.v1.tar+zstd" ||
  mediaType = utf8 "application/vnd.docker.image.rootfs.diff.tar.gzip" ||
  mediaType = utf8 "application/vnd.docker.image.rootfs.diff.tar"

def parseLayerDigest (digest : Text) : Except Report ExpectedDigest :=
  match parseExpectedDigest digest with
  | .ok expected => return expected
  | .error _ => throw (fault .invalidManifest ("layer digest: " ++ text digest))

def buildLayer (hashes : Hashes) (reference : OciReference) (descriptor : Descriptor) :
    Except Report Layer := do
  let mediaType ← descriptor.mediaType.elim
    (throw (fault .invalidManifest "layer descriptor missing mediaType")) pure
  failIf (¬ isLayerMediaType mediaType)
    (fault .invalidManifest ("unknown layer mediaType: " ++ text mediaType))
  let expected ← parseLayerDigest descriptor.digest
  failIf (descriptor.size < 0)
    (fault .invalidManifest ("layer size is negative: " ++ toString descriptor.size))
  let size := BitVec.ofInt 128 descriptor.size
  let blobUrl := reference.blobUrl descriptor.digest
  return ⟨.http blobUrl size, expected, httpDigest hashes blobUrl size⟩

def buildLayers (hashes : Hashes) (reference : OciReference) (image : ImageManifest) :
    Except Report (List Layer) :=
  image.layers.mapM (buildLayer hashes reference)

/-! ## Identities -/

def ociSourceDigest (hashes : Hashes) (registry repository manifestDigest : Text) : LinkDigest :=
  (LinkDigestBuilder.new (utf8 "jyth.source.oci.v1")
    |>.str (utf8 "registry") registry
    |>.str (utf8 "repository") repository
    |>.str (utf8 "manifest") manifestDigest).finish hashes 0

def kernelRequestDigest (hashes : Hashes) (sourceDigest : LinkDigest)
    (kernelPath : Option Text) : LinkDigest :=
  let builder := LinkDigestBuilder.new (utf8 "jyth.kernel.external.v1")
    |>.bytes (utf8 "source-hash") sourceDigest.linkHash
    |>.u128 (utf8 "source-size") sourceDigest.fileSize
  let builder := match kernelPath with
    | none => builder.str (utf8 "shape") (utf8 "raw")
    | some path => (builder.str (utf8 "shape") (utf8 "archive")).str (utf8 "path") path
  builder.finish hashes sourceDigest.fileSize

variable {hashes : Hashes}

theorem ociSourceDigest_inj {registry registry' repository repository' d d' : Text}
    (h : ociSourceDigest hashes registry repository d =
      ociSourceDigest hashes registry' repository' d') :
    registry = registry' ∧ repository = repository' ∧ d = d' := by
  have hfields := hashes.finish_injective (congrArg LinkDigest.linkHash h)
  simpa [new, str, bytes] using hfields

theorem kernelRequestDigest_inj {source source' : LinkDigest} {path path' : Option Text}
    (h : kernelRequestDigest hashes source path = kernelRequestDigest hashes source' path') :
    source = source' ∧ path = path' := by
  have hfields := hashes.finish_injective (congrArg LinkDigest.linkHash h)
  obtain ⟨hash, size⟩ := source
  obtain ⟨hash', size'⟩ := source'
  cases path <;> cases path' <;>
    simp_all [new, str, bytes,
      u128]

/-! ## What the checks guarantee -/

theorem hashesTo_of_checkBody {url digest : Text} {contentDigest : Option Text} {body : Bytes}
    (h : checkBody hashes url contentDigest body = .ok ())
    (hexpected : (requestedDigestFromUrl url <|> contentDigest) = some digest) :
    hashes.HashesTo digest body := by
  rw [checkBody, hexpected] at h
  simp only [bind_eq_ok, failIf_eq_ok, not_not] at h
  obtain ⟨computed, hcomputed, rfl⟩ := h
  cases hdigest : hashes.computeDigest (algorithmOf computed) body with
  | none => simp [hdigest] at hcomputed
  | some value =>
    rw [hdigest, Option.elim_some, pure_eq_ok] at hcomputed
    exact computeDigest_hashesTo (hdigest.trans (congrArg some hcomputed))

theorem acceptManifest_requested {url digest : Text} {reply : ManifestReply}
    {response : ManifestResponse} (h : acceptManifest hashes url reply = .ok response)
    (hurl : requestedDigestFromUrl url = some digest) :
    response.bytes = reply.body ∧ hashes.HashesTo digest reply.body := by
  simp only [acceptManifest, bind_eq_ok] at h
  obtain ⟨contentDigest, -, _, hcheck, hresponse⟩ := h
  cases hresponse
  exact ⟨rfl, hashesTo_of_checkBody hcheck (by rw [hurl]; rfl)⟩

theorem not_slash_of_hexPairs {hex bytes : Text} (h : hexPairs hex = some bytes) : slash ∉ hex := by
  induction hex using hexPairs.induct generalizing bytes with
  | case1 => simp
  | case2 => cases h
  | case3 high low rest ih =>
    simp only [hexPairs, Option.bind_eq_bind, Option.bind_eq_some_iff] at h
    obtain ⟨_, hhigh, _, hlow, _, hrest, -⟩ := h
    have hslash : hexValue slash = none := by decide
    simp only [List.mem_cons, not_or]
    refine ⟨?_, ?_, ih hrest⟩
    · rintro rfl
      simp [hslash] at hhigh
    · rintro rfl
      simp [hslash] at hlow

theorem not_slash_of_parse {digest : Text} {expected : ExpectedDigest}
    (h : parseExpectedDigest digest = .ok expected) : slash ∉ digest := by
  obtain ⟨hex, rfl, hpairs⟩ := parse_eq_ok h
  have hname : slash ∉ algorithmName expected := by cases expected <;> exact of_decide_eq_true rfl
  have hcolon : slash ≠ colon := by decide
  simp [hname, hcolon, not_slash_of_hexPairs hpairs]

/-- A layer as `build_layers` makes it: its link names the digest it has to have. -/
def Layer.WellFormed (hashes : Hashes) (layer : Layer) : Prop :=
  ∃ reference digest size, layer.link = .http (OciReference.blobUrl reference digest) size ∧
    parseExpectedDigest digest = .ok layer.expectedDigest ∧
    layer.linkDigest = httpDigest hashes (OciReference.blobUrl reference digest) size

variable {layer : Layer} {reference : OciReference}

theorem buildLayer_eq_ok {descriptor : Descriptor}
    (h : buildLayer hashes reference descriptor = .ok layer) :
    ∃ size, layer.link = .http (reference.blobUrl descriptor.digest) size ∧
      parseExpectedDigest descriptor.digest = .ok layer.expectedDigest ∧
      layer.linkDigest = httpDigest hashes (reference.blobUrl descriptor.digest) size := by
  simp only [buildLayer, bind_eq_ok] at h
  obtain ⟨mediaType, -, _, -, expected, hexpected, _, -, hlayer⟩ := h
  cases hlayer
  refine ⟨_, rfl, ?_, rfl⟩
  cases hparse : parseExpectedDigest descriptor.digest with
  | error e => simp [parseLayerDigest, hparse] at hexpected
  | ok value =>
    simp only [parseLayerDigest, hparse] at hexpected
    cases hexpected
    rfl

theorem buildLayer_wellFormed {descriptor : Descriptor}
    (h : buildLayer hashes reference descriptor = .ok layer) : layer.WellFormed hashes := by
  obtain ⟨size, hlink, hparse, hdigest⟩ := buildLayer_eq_ok h
  exact ⟨reference, descriptor.digest, size, hlink, hparse, hdigest⟩

theorem buildLayers_wellFormed {image : ImageManifest}
    {layers : List Layer} (h : buildLayers hashes reference image = .ok layers) :
    ∀ layer ∈ layers, layer.WellFormed hashes := by
  intro layer hlayer
  obtain ⟨descriptor, -, hbuild⟩ := exists_left_of_forall₂ (mapM_eq_ok.1 h) hlayer
  exact buildLayer_wellFormed hbuild

theorem Layer.WellFormed.eq_of_linkDigest {layer' : Layer} (h : layer.WellFormed hashes)
    (h' : layer'.WellFormed hashes) (hkey : layer.linkDigest = layer'.linkDigest) :
    layer = layer' := by
  obtain ⟨reference, digest, size, hlink, hparse, hdigest⟩ := h
  obtain ⟨reference', digest', size', hlink', hparse', hdigest'⟩ := h'
  have hkeys := hdigest.symm.trans (hkey.trans hdigest')
  have hurl : reference.blobUrl digest = reference'.blobUrl digest' :=
    hashes.blake3_injective (congrArg LinkDigest.linkHash hkeys)
  have hsize : size = size' := congrArg LinkDigest.fileSize hkeys
  have hname : digest = digest' := by
    have hlast := congrArg (lastSegment slash) hurl
    rwa [OciReference.blobUrl, OciReference.blobUrl,
      lastSegment_append (not_slash_of_parse hparse),
      lastSegment_append (not_slash_of_parse hparse')] at hlast
  obtain ⟨link, expected, linkDigest⟩ := layer
  obtain ⟨link', expected', linkDigest'⟩ := layer'
  subst hname
  rw [hparse] at hparse'
  cases hparse'
  simp_all

end Jyth.Registry
