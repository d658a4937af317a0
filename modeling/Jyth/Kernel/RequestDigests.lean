import Jyth.Kernel.Path
import Jyth.Registry.Manifest
import Jyth.Storage.LinkDigests

/-!
# The digests of kernel requests

`kernel_request_digest` and `custom_request_digest` of `kernel/src/service.rs`, over the
bytes that are hashed.  Every field stands behind its tag, and a field of variable length
behind its length, so that the hashed bytes determine the request (`request_digests`).
-/

namespace Jyth.Kernel

open Format Jyth.Image List LinkDigestBuilder

/-! ## Requests -/

/-- Two to four components, the first of them positive, and their canonical text. -/
structure KernelVersion where
  components : List UInt32
  canonical : Buffer
  two_le : 2 ≤ components.length
  le_four : components.length ≤ 4
  first_pos : components.head? ≠ some 0
  canonical_eq : canonical.1 = [dot].intercalate (components.map fun c => utf8 (toString c.toNat))

/-- Version, canonical URL and expected digest of a source. -/
structure KernelSourcePin where
  version : KernelVersion
  url : Buffer
  digest : ExpectedDigest

inductive KernelConfigMode
  | fragment | complete
deriving DecidableEq

structure KernelConfig where
  mode : KernelConfigMode
  bytes : Buffer
deriving DecidableEq

structure CustomKernelSpec where
  source : KernelSourcePin
  config : KernelConfig

def identityFormatVersion : UInt8 := 2

structure KernelCompilerIdentity where
  recipeVersion : UInt32
  scriptDigest : Buffer
  bootstrapKernelDigest : Buffer
  toolchainRootfsDigest : Buffer
  targetArch : Buffer
  kbuildMetadata : Buffer
deriving DecidableEq

def KernelCompilerIdentity.encode (i : KernelCompilerIdentity) : Bytes :=
  identityFormatVersion :: (beBytes i.recipeVersion ++ (prefixed i.scriptDigest.1 ++
    (prefixed i.bootstrapKernelDigest.1 ++ (prefixed i.toolchainRootfsDigest.1 ++
      (prefixed i.targetArch.1 ++ prefixed i.kbuildMetadata.1)))))

/-- What a custom request is made of; the encoded identity is a buffer, too. -/
structure CustomRequest where
  spec : CustomKernelSpec
  identity : KernelCompilerIdentity
  fits : Fits identity.encode

/-- What an external request is made of. -/
structure ExternalRequest where
  sourceDigest : LinkDigest
  kernelPath : Option KernelPath
  fits : ∀ path ∈ kernelPath, Fits path.canonical

/-! ## Digests -/

def KernelConfigMode.text : KernelConfigMode → Bytes
  | fragment => utf8 "fragment"
  | complete => utf8 "complete"

def algorithmText : ExpectedDigest → Bytes
  | .sha256 _ => utf8 "sha256"
  | .sha512 _ => utf8 "sha512"
  | .blake3 _ => utf8 "blake3"

def CustomRequest.builder (r : CustomRequest) : LinkDigestBuilder :=
  LinkDigestBuilder.new (utf8 "jyth.kernel.custom.v2")
    |>.str (utf8 "version") r.spec.source.version.canonical.1
    |>.str (utf8 "source-url") r.spec.source.url.1
    |>.bytes (utf8 "source-algorithm") (algorithmText r.spec.source.digest)
    |>.bytes (utf8 "source-digest") r.spec.source.digest.digestBytes
    |>.bytes (utf8 "config-mode") r.spec.config.mode.text
    |>.bytes (utf8 "config") r.spec.config.bytes.1
    |>.bytes (utf8 "identity") r.identity.encode

def customRequestDigest (blake3 : Bytes → Hash) (r : CustomRequest) : LinkDigest :=
  r.builder.finish blake3 0

def ExternalRequest.builder (r : ExternalRequest) : LinkDigestBuilder :=
  let builder := LinkDigestBuilder.new (utf8 "jyth.kernel.external.v1")
    |>.bytes (utf8 "source-hash") r.sourceDigest.linkHash.1
    |>.u128 (utf8 "source-size") r.sourceDigest.fileSize
  match r.kernelPath with
  | none => builder.str (utf8 "shape") (utf8 "raw")
  | some path => (builder.str (utf8 "shape") (utf8 "archive")).str (utf8 "path") path.canonical

def kernelRequestDigest (blake3 : Bytes → Hash) (r : ExternalRequest) : LinkDigest :=
  r.builder.finish blake3 r.sourceDigest.fileSize

/-! ## Injectivity -/

theorem field_inj {tag value value' r r' : Bytes} (hvalue : Fits value) (hvalue' : Fits value')
    (h : prefixed tag ++ (prefixed value ++ r) = prefixed tag ++ (prefixed value' ++ r')) :
    value = value' ∧ r = r' :=
  prefixed_append_inj hvalue hvalue' (append_cancel_left h)

theorem KernelVersion.canonical_inj {v v' : KernelVersion} (h : v.canonical = v'.canonical) :
    v = v' := by
  have hdot : ∀ components : List UInt32,
      ∀ text ∈ components.map (fun c => utf8 (toString c.toNat)), dot ∉ text := by
    intro components text htext hmem
    obtain ⟨c, -, rfl⟩ := mem_map.1 htext
    exact absurd (digit_of_mem_decimal hmem) (by decide)
  have hne : ∀ v : KernelVersion, v.components.map (fun c => utf8 (toString c.toNat)) ≠ [] := by
    intro v hnil
    have hlen := v.two_le
    rw [map_eq_nil_iff.1 hnil] at hlen
    exact absurd hlen (by decide)
  have hsplit : ∀ v : KernelVersion, v.canonical.1.splitOn dot =
      v.components.map fun c => utf8 (toString c.toNat) := by
    intro v
    rw [v.canonical_eq, splitOn_intercalate dot (hdot _) (hne v)]
  have htexts := (hsplit v).symm.trans ((congrArg (fun c => c.1.splitOn dot) h).trans (hsplit v'))
  have hcomponents : v.components = v'.components :=
    map_injective_iff.2 (decimal_injective.comp fun _ _ h => UInt32.toNat_inj.1 h) htexts
  cases v
  cases v'
  cases h
  cases hcomponents
  rfl

theorem expectedDigest_ext {d d' : ExpectedDigest} (halgorithm : algorithmText d = algorithmText d')
    (hbytes : d.digestBytes = d'.digestBytes) : d = d' := by
  have h256 : utf8 "sha256" ≠ utf8 "sha512" := by decide
  have h512 : utf8 "sha512" ≠ utf8 "blake3" := by decide
  have h3 : utf8 "blake3" ≠ utf8 "sha256" := by decide
  cases d <;> cases d' <;> first
    | exact congrArg _ (Subtype.ext hbytes)
    | exact absurd halgorithm h256
    | exact absurd halgorithm h256.symm
    | exact absurd halgorithm h512
    | exact absurd halgorithm h512.symm
    | exact absurd halgorithm h3
    | exact absurd halgorithm h3.symm

theorem fits_digestBytes (d : ExpectedDigest) : Fits d.digestBytes := by
  obtain ⟨bytes, hlen⟩ | ⟨bytes, hlen⟩ | ⟨bytes, hlen⟩ := d <;>
    simp [ExpectedDigest.digestBytes, Fits, hlen]

theorem fits_algorithmText (d : ExpectedDigest) : Fits (algorithmText d) := by
  have htexts : Fits (utf8 "sha256") ∧ Fits (utf8 "sha512") ∧ Fits (utf8 "blake3") := by decide
  cases d with
  | sha256 bytes => exact htexts.1
  | sha512 bytes => exact htexts.2.1
  | blake3 bytes => exact htexts.2.2

theorem fits_modeText (mode : KernelConfigMode) : Fits mode.text := by
  cases mode <;> decide

theorem KernelConfigMode.text_injective : Function.Injective text := by
  intro mode mode' h
  cases mode <;> cases mode' <;> first | rfl | exact absurd h (by decide)

theorem KernelCompilerIdentity.encode_injective : Function.Injective encode := by
  intro i i' h
  obtain ⟨recipe, script, bootstrap, toolchain, arch, kbuild⟩ := i
  obtain ⟨recipe', script', bootstrap', toolchain', arch', kbuild'⟩ := i'
  obtain ⟨rfl, h⟩ := beBytes_append_inj (cons.inj h).2
  obtain ⟨hscript, h⟩ := prefixed_append_inj script.2 script'.2 h
  obtain ⟨hbootstrap, h⟩ := prefixed_append_inj bootstrap.2 bootstrap'.2 h
  obtain ⟨htoolchain, h⟩ := prefixed_append_inj toolchain.2 toolchain'.2 h
  obtain ⟨harch, h⟩ := prefixed_append_inj arch.2 arch'.2 h
  have hkbuild := prefixed_inj kbuild.2 kbuild'.2 h
  rw [Subtype.ext hscript, Subtype.ext hbootstrap, Subtype.ext htoolchain, Subtype.ext harch,
    Subtype.ext hkbuild]

theorem CustomRequest.builder_inj {r r' : CustomRequest} (h : r.builder.hasher = r'.builder.hasher) :
    r.spec = r'.spec ∧ r.identity = r'.identity := by
  obtain ⟨⟨⟨version, url, digest⟩, ⟨mode, config⟩⟩, identity, hidentity⟩ := r
  obtain ⟨⟨⟨version', url', digest'⟩, ⟨mode', config'⟩⟩, identity', hidentity'⟩ := r'
  simp only [builder, new, str, bytes, append_assoc] at h
  -- behind the domain, one field after the other
  obtain ⟨hversion, h⟩ := field_inj version.canonical.2 version'.canonical.2 (append_cancel_left h)
  obtain ⟨hurl, h⟩ := field_inj url.2 url'.2 h
  obtain ⟨halgorithm, h⟩ := field_inj (fits_algorithmText _) (fits_algorithmText _) h
  obtain ⟨hdigest, h⟩ := field_inj (fits_digestBytes _) (fits_digestBytes _) h
  obtain ⟨hmode, h⟩ := field_inj (fits_modeText _) (fits_modeText _) h
  obtain ⟨hconfig, h⟩ := field_inj config.2 config'.2 h
  have hid := prefixed_inj hidentity hidentity' (append_cancel_left h)
  obtain rfl := KernelVersion.canonical_inj (Subtype.ext hversion)
  obtain rfl := Subtype.ext hurl
  obtain rfl := expectedDigest_ext halgorithm hdigest
  obtain rfl := KernelConfigMode.text_injective hmode
  obtain rfl := Subtype.ext hconfig
  exact ⟨rfl, KernelCompilerIdentity.encode_injective hid⟩

/-- The fields behind the source digest. -/
def shapeBytes : Option KernelPath → Bytes
  | none => prefixed (utf8 "shape") ++ prefixed (utf8 "raw")
  | some path =>
    prefixed (utf8 "shape") ++ (prefixed (utf8 "archive") ++
      (prefixed (utf8 "path") ++ prefixed path.canonical))

theorem ExternalRequest.hasher_builder (r : ExternalRequest) :
    r.builder.hasher = prefixed (utf8 "jyth.kernel.external.v1") ++ (prefixed (utf8 "source-hash") ++
      (prefixed r.sourceDigest.linkHash.1 ++ (prefixed (utf8 "source-size") ++
        (beBytes r.sourceDigest.fileSize ++ shapeBytes r.kernelPath)))) := by
  unfold builder
  cases r.kernelPath <;>
    simp only [shapeBytes, new, str, bytes, u128, append_assoc]

theorem shapeBytes_inj {path path' : Option KernelPath} (hfits : ∀ p ∈ path, Fits p.canonical)
    (hfits' : ∀ p ∈ path', Fits p.canonical) (h : shapeBytes path = shapeBytes path') :
    path = path' := by
  have hshapes : Fits (utf8 "raw") ∧ Fits (utf8 "archive") ∧ utf8 "raw" ≠ utf8 "archive" := by
    decide
  cases path with
  | none =>
    cases path' with
    | none => rfl
    | some path' =>
      have hshape : prefixed (utf8 "raw") ++ [] = _ := (append_nil _).trans (append_cancel_left h)
      exact absurd (prefixed_append_inj hshapes.1 hshapes.2.1 hshape).1 hshapes.2.2
  | some path =>
    cases path' with
    | none =>
      have hshape : prefixed (utf8 "raw") ++ [] = _ := (append_nil _).trans
        (append_cancel_left h.symm)
      exact absurd (prefixed_append_inj hshapes.1 hshapes.2.1 hshape).1 hshapes.2.2
    | some path' =>
      have hpath := append_cancel_left (append_cancel_left (append_cancel_left h))
      have hcanonical := prefixed_inj (hfits path rfl) (hfits' path' rfl) hpath
      cases path
      cases path'
      exact congrArg _ (congrArg _ hcanonical)

theorem fits_hash (hash : Hash) : Fits hash.1 := by
  unfold Fits
  rw [hash.2]
  decide

theorem ExternalRequest.builder_inj {r r' : ExternalRequest}
    (h : r.builder.hasher = r'.builder.hasher) :
    r.sourceDigest = r'.sourceDigest ∧ r.kernelPath = r'.kernelPath := by
  rw [hasher_builder, hasher_builder] at h
  obtain ⟨hhash, h⟩ := field_inj (fits_hash _) (fits_hash _) (append_cancel_left h)
  obtain ⟨hsize, h⟩ := beBytes_append_inj (append_cancel_left h)
  refine ⟨?_, shapeBytes_inj r.fits r'.fits h⟩
  calc r.sourceDigest = ⟨r.sourceDigest.linkHash, r.sourceDigest.fileSize⟩ := rfl
    _ = ⟨r'.sourceDigest.linkHash, r'.sourceDigest.fileSize⟩ := by rw [Subtype.ext hhash, hsize]
    _ = r'.sourceDigest := rfl

/-- **Requests and their digests.**  As far as the hash tells the hashed bytes apart, two
external requests have one digest just if they have the same source digest and the same
shape, and two custom requests just if they agree in every input of the build. -/
theorem request_digests (blake3 : Bytes → Hash) :
    (∀ r r' : ExternalRequest, NoCollision blake3 r.builder.hasher r'.builder.hasher →
      (kernelRequestDigest blake3 r = kernelRequestDigest blake3 r' ↔
        r.sourceDigest = r'.sourceDigest ∧ r.kernelPath = r'.kernelPath)) ∧
    (∀ r r' : CustomRequest, NoCollision blake3 r.builder.hasher r'.builder.hasher →
      (customRequestDigest blake3 r = customRequestDigest blake3 r' ↔
        r.spec.source.version = r'.spec.source.version ∧ r.spec.source.url = r'.spec.source.url ∧
        r.spec.source.digest = r'.spec.source.digest ∧
        r.spec.config.mode = r'.spec.config.mode ∧ r.spec.config.bytes = r'.spec.config.bytes ∧
        r.identity = r'.identity)) := by
  refine ⟨fun r r' hhash => ⟨fun h => ?_, fun h => ?_⟩, fun r r' hhash => ⟨fun h => ?_, fun h => ?_⟩⟩
  · exact ExternalRequest.builder_inj (hhash (congrArg LinkDigest.linkHash h))
  · obtain ⟨source, path, hfits⟩ := r
    obtain ⟨source', path', hfits'⟩ := r'
    obtain ⟨rfl, rfl⟩ := h
    rfl
  · obtain ⟨hspec, hidentity⟩ := CustomRequest.builder_inj (hhash (congrArg LinkDigest.linkHash h))
    rw [hspec, hidentity]
    exact ⟨rfl, rfl, rfl, rfl, rfl, rfl⟩
  · obtain ⟨⟨⟨version, url, digest⟩, ⟨mode, config⟩⟩, identity, hfits⟩ := r
    obtain ⟨⟨⟨version', url', digest'⟩, ⟨mode', config'⟩⟩, identity', hfits'⟩ := r'
    obtain ⟨rfl, rfl, rfl, rfl, rfl, rfl⟩ := h
    rfl

def lastBytes (bytes : Bytes) : Hash := leading bytes.reverse

def letterCount (bytes : Bytes) : Hash := leading [UInt8.ofNat (bytes.count 0x66)]

def rawRequest : ExternalRequest := ⟨⟨leading [], 1⟩, none, by simp⟩

def archiveRequest : ExternalRequest := ⟨⟨leading [], 1⟩, some ⟨[0x61]⟩, by decide⟩

/-- A build of version 6.1 with an empty configuration. -/
def buildRequest (mode : KernelConfigMode) : CustomRequest where
  spec :=
    ⟨⟨⟨[6, 1], ⟨utf8 "6.1", by decide⟩, by decide, by decide, by decide, by decide⟩,
      ⟨utf8 "http://a/", by decide⟩, .sha256 (leading [])⟩, ⟨mode, ⟨[], by decide⟩⟩⟩
  identity := ⟨1, ⟨[], by decide⟩, ⟨[], by decide⟩, ⟨[], by decide⟩, ⟨[], by decide⟩, ⟨[], by decide⟩⟩
  fits := by decide

theorem request_digests_differ :
    kernelRequestDigest lastBytes rawRequest ≠ kernelRequestDigest lastBytes archiveRequest ∧
      customRequestDigest letterCount (buildRequest .fragment) ≠
        customRequestDigest letterCount (buildRequest .complete) := by
  constructor
  · intro h
    have hsame := ((request_digests lastBytes).1 rawRequest archiveRequest
      fun hhash => absurd hhash (by decide)).1 h
    exact absurd hsame.2 (by decide)
  · intro h
    have hsame := ((request_digests letterCount).2 (buildRequest .fragment)
      (buildRequest .complete) fun hhash => absurd hhash (by decide +kernel)).1 h
    exact absurd hsame.2.2.2.1 (by decide)

end Jyth.Kernel
