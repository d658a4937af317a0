import Jyth.Materialize.Services

/-!
# Provenance of images

An image is cached under its registry, its repository and a manifest digest.  The
digest comes from a `HEAD` request (or a first `GET`); the manifest that is used
comes from a later `GET` of the same URL, which may end in a tag.  Nothing
compares the two:  if the tag moves in between, the image of the new manifest is
cached under the digest of the old one (`moved_tag_unproven`).

What is cached has its provenance in every history in which the registry answers
these requests with a body of the digest in question (`provenance_of_pinned`).
The layers need no such assumption: their bodies are verified.
-/

namespace Jyth.Materialize

open Format Effect Registry Registry.Sample
open Jyth.Image (Report)

/-! ## What an image is made of -/

section Built

variable (hashes : Hashes) (tools : Tools)

/-- `image` is the manifest with digest `d`, or the entry for the host's platform in
the index with this digest. -/
def ManifestOf (d : Text) (image : ImageManifest) : Prop :=
  ∃ body, hashes.HashesTo d body ∧ (tools.parseImage body = some image ∨
    ∃ index target entry, tools.parseIndex body = some index ∧
      selectPlatform index tools.hostArch = .ok target ∧ hashes.HashesTo target.digest entry ∧
      tools.parseImage entry = some image)

/-- A tree whose archive has the descriptor's digest. -/
def LayerOf (descriptor : Descriptor) (tree : Bytes) : Prop :=
  ∃ a : Artifact, hashes.HashesTo descriptor.digest a.content ∧
    detectOrUnsupported tools a.content = .ok ⟨a.artifactType, a.artifactCompression⟩ ∧
    normalForm tools a = .ok (cpioArtifact tree)

/-- `tree` is the image with manifest digest `d`, its layers flattened. -/
def BuiltFrom (d : Text) (tree : Bytes) : Prop :=
  ∃ image trees, ManifestOf hashes tools d image ∧
    List.Forall₂ (LayerOf hashes tools) image.layers trees ∧ tools.flatten trees = .ok tree

/-- What is cached for the image with manifest digest `d` under the identity `source`. -/
structure ProvenFor (s : Store) (source : LinkDigest) (d : Text) : Prop where
  rootfs : ∀ a, s.records ⟨.rootfs, source⟩ = some a →
    ∃ tree, BuiltFrom hashes tools d tree ∧ a = cpioArtifact tree
  modules : ∀ a, s.records ⟨.modules, source⟩ = some a →
    ∃ tree content, BuiltFrom hashes tools d tree ∧
      tools.extractModules tree = .ok (some content) ∧ a = cpioArtifact content
  kernel : ∀ path a, s.records ⟨.kernel, kernelRequestDigest hashes source path⟩ = some a →
    ∃ p tree, path = some p ∧ BuiltFrom hashes tools d tree ∧ kernelEntry tools p tree = .ok a
  blueprint : ∀ key b, BlueprintKey hashes source key → s.blueprints key = some b →
    ∃ reference image, ManifestOf hashes tools d image ∧
      buildLayers hashes reference image = .ok b.layers

/-- Everything cached for an image has its manifest digest. -/
def Provenance (s : Store) : Prop :=
  ∀ registry repository d,
    ProvenFor hashes tools s (ociSourceDigest hashes registry repository d) d

/-- An answer does not replace the manifest an image is built from: it has the digest
that is asked for, unless the URL names the digest and so enforces it. -/
def Pinned : (op : Outside) → op.Ans → Prop
  | .getManifest url (.target key), .ok reply =>
    ∀ registry repository d, BlueprintKey hashes (ociSourceDigest hashes registry repository d) key →
      requestedDigestFromUrl url = some d ∨ hashes.HashesTo d reply.body
  | .getManifest url (.entry digest), .ok reply =>
    requestedDigestFromUrl url = some digest ∨ hashes.HashesTo digest reply.body
  | _, _ => True

/-- A registry whose answers satisfy `answers`; only images are asked for. -/
def registry (answers : (op : Outside) → op.Ans → Prop) : Setting :=
  ⟨answers, fun link => ∃ reference, link = .image reference⟩

end Built

/-! ## Layers -/

section

variable {hashes : Hashes} {tools : Tools} {answers : (op : Outside) → op.Ans → Prop}

variable {d repository : Text} {manifest : ManifestResponse} {url : Text} {a : Artifact}
  {tree : Bytes} {reply : ManifestReply} {response : ManifestResponse} {b : Blueprint}

theorem verify_of_copy {size linkSize : BitVec 128} {expected : ExpectedDigest} {content : Bytes}
    (h : Yields answers (copy hashes (.http url size) linkSize (some expected)) (.ok content)) :
    hashes.verify expected content = true := by
  simp only [copy, copyHttp, yields_bindE, yields_pureE] at h
  obtain ⟨reply, -, _, -, _, hvalid, rfl⟩ := h
  replace hvalid := yields_ofReport.1 hvalid
  simp only [validateHttpOutcome, verifyAgainstExpected, bind_eq_ok, failIf_eq_ok] at hvalid
  obtain ⟨_, -, hverify⟩ := hvalid
  simpa using hverify

theorem LayerTree.layerOf {reference : OciReference} {descriptor : Descriptor} {layer : Layer}
    (hlayer : buildLayer hashes reference descriptor = .ok layer)
    (h : LayerTree hashes tools (registry answers) layer tree) :
    LayerOf hashes tools descriptor tree := by
  obtain ⟨a, hload, hform⟩ := h
  obtain ⟨size, hlink, hparse, -⟩ := buildLayer_eq_ok hlayer
  have hcopied := hload.copied
  rw [hlink] at hcopied
  exact ⟨a, ⟨layer.expectedDigest, hparse, verify_of_copy hcopied.1⟩, hcopied.2, hform⟩

theorem layersOf {reference : OciReference} {descriptors : List Descriptor} {layers : List Layer}
    {trees : List Bytes} (hlayers : List.Forall₂ (fun descriptor layer =>
      buildLayer hashes reference descriptor = .ok layer) descriptors layers)
    (h : List.Forall₂ (LayerTree hashes tools (registry answers)) layers trees) :
    List.Forall₂ (LayerOf hashes tools) descriptors trees := by
  induction hlayers generalizing trees with
  | nil =>
    cases h
    exact .nil
  | cons hlayer _ ih =>
    cases h with
    | cons htree hrest => exact .cons (htree.layerOf hlayer) (ih hrest)

/-! ## Manifests -/

theorem yields_fetchManifest {purpose : Purpose}
    (h : Yields answers (fetchManifest hashes url purpose) (.ok manifest)) :
    ∃ reply, answers (.getManifest url purpose) (.ok reply) ∧
      acceptManifest hashes url reply = .ok manifest := by
  simp only [fetchManifest, yields_bindE] at h
  obtain ⟨reply, hreply, haccept⟩ := h
  exact ⟨reply, yields_call.1 hreply, yields_ofReport.1 haccept⟩

theorem acceptManifest_bytes
    (h : acceptManifest hashes url reply = .ok manifest) : manifest.bytes = reply.body := by
  simp only [acceptManifest, bind_eq_ok] at h
  obtain ⟨_, -, _, -, hmanifest⟩ := h
  cases hmanifest
  rfl

theorem hashesTo_of_accepted (haccept : acceptManifest hashes url reply = .ok manifest)
    (hpinned : requestedDigestFromUrl url = some d ∨ hashes.HashesTo d reply.body) :
    hashes.HashesTo d manifest.bytes := by
  rw [acceptManifest_bytes haccept]
  rcases hpinned with hurl | hhash
  · exact (acceptManifest_requested haccept hurl).2
  · exact hhash

theorem yields_parseManifest {α : Type} {parsed : Option α} {a : α}
    (h : Yields answers (parseManifest parsed) (.ok a)) : parsed = some a := by
  replace h := yields_ofReport.1 h
  cases parsed with
  | none => cases h
  | some b => exact congrArg some (pure_eq_ok.1 h)

theorem hashesTo_of_platformManifest {reference : OciReference}
    (h : Yields (Pinned hashes) (platformManifest hashes tools reference manifest) (.ok response)) :
    ∃ index target, tools.parseIndex manifest.bytes = some index ∧
      selectPlatform index tools.hostArch = .ok target ∧
      hashes.HashesTo target.digest response.bytes := by
  simp only [platformManifest, yields_bindE] at h
  obtain ⟨index, hindex, target, htarget, hfetch⟩ := h
  obtain ⟨reply, hpinned, haccept⟩ := yields_fetchManifest hfetch
  exact ⟨index, target, yields_parseManifest hindex, yields_ofReport.1 htarget,
    hashesTo_of_accepted haccept hpinned⟩

theorem manifestOf_of_imageManifest {reference : OciReference} {kind : ManifestKind}
    {image : ImageManifest} (hd : hashes.HashesTo d manifest.bytes)
    (h : Yields (Pinned hashes) (imageManifest hashes tools reference kind manifest) (.ok response))
    (himage : tools.parseImage response.bytes = some image) : ManifestOf hashes tools d image := by
  have hcases : response = manifest ∨
      Yields (Pinned hashes) (platformManifest hashes tools reference manifest) (.ok response) := by
    cases kind with
    | ociImage | dockerManifest => exact .inl (yields_pureE.1 h)
    | ociIndex | dockerList => exact .inr h
  refine ⟨manifest.bytes, hd, ?_⟩
  rcases hcases with rfl | hentry
  · exact .inl himage
  · obtain ⟨index, target, hindex, htarget, hhash⟩ := hashesTo_of_platformManifest hentry
    exact .inr ⟨index, target, response.bytes, hindex, htarget, hhash, himage⟩

theorem manifestOf_of_blueprint {registry : Text} {key : Key} {link : ArtifactLink}
    {extract : Option Text} {e : LinkDigest}
    (hkey : BlueprintKey hashes (ociSourceDigest hashes registry repository d) key)
    (h : Yields (Pinned hashes) (blueprint hashes tools key link extract e) (.ok b)) :
    ∃ reference image, ManifestOf hashes tools d image ∧
      buildLayers hashes reference image = .ok b.layers := by
  simp only [blueprint, yields_bindE, yields_pureE] at h
  obtain ⟨url, -, _, -, _, -, _, -, _, -, _, -, reference, -, manifest, hfetch, kind, -, response,
    hresponse, image, himage, layers, hlayers, rfl⟩ := h
  obtain ⟨reply, hpinned, haccept⟩ := yields_fetchManifest hfetch
  have hd : hashes.HashesTo d manifest.bytes :=
    hashesTo_of_accepted haccept (hpinned registry repository d hkey)
  exact ⟨reference, image, manifestOf_of_imageManifest hd hresponse (yields_parseManifest himage),
    yields_ofReport.1 hlayers⟩

/-! ## Provenance -/

theorem BlueprintOf.manifestOf {registry : Text}
    (h : BlueprintOf hashes tools (Materialize.registry (Pinned hashes))
      (ociSourceDigest hashes registry repository d) b) :
    ∃ reference image, ManifestOf hashes tools d image ∧
      buildLayers hashes reference image = .ok b.layers := by
  obtain ⟨r, key, extract, e, -, -, -, hkey, hyields⟩ := h
  exact manifestOf_of_blueprint hkey hyields

theorem ImageTree.builtFrom {registry : Text}
    (h : ImageTree hashes tools (Materialize.registry (Pinned hashes))
      (ociSourceDigest hashes registry repository d) tree) : BuiltFrom hashes tools d tree := by
  obtain ⟨b, trees, hblueprint, htrees, hflatten⟩ := h
  obtain ⟨reference, image, himage, hlayers⟩ := hblueprint.manifestOf
  exact ⟨image, trees, himage, layersOf (mapM_eq_ok.1 hlayers) htrees, hflatten⟩

theorem not_archiveLoaded {d : LinkDigest} :
    ¬ ArchiveLoaded hashes tools (registry answers) d a := by
  rintro ⟨r, ⟨link, ⟨reference, rfl⟩, hr⟩, himage, -⟩
  simp only [resolveSource, resolveImage, yields_bindE, yields_pureE] at hr
  obtain ⟨_, -, _, -, _, -, rfl⟩ := hr
  cases himage

theorem not_pending {d : LinkDigest} : ¬ Pending hashes tools (registry answers) d a := by
  rintro ⟨a₀, h₀, -⟩
  exact not_archiveLoaded h₀

theorem FromSource.builtFrom {registry : Text}
    (h : FromSource hashes tools (Materialize.registry (Pinned hashes))
      (ociSourceDigest hashes registry repository d) a) :
    ∃ tree, BuiltFrom hashes tools d tree ∧ a = cpioArtifact tree := by
  rcases h with ⟨tree, htree, rfl⟩ | ⟨a₀, h₀, -⟩
  · exact ⟨tree, htree.builtFrom, rfl⟩
  · exact absurd h₀ not_archiveLoaded

theorem FromSource.builtFrom_cpio {registry : Text}
    (h : FromSource hashes tools (Materialize.registry (Pinned hashes))
      (ociSourceDigest hashes registry repository d) (cpioArtifact tree)) :
    BuiltFrom hashes tools d tree := by
  obtain ⟨tree', hbuilt, heq⟩ := h.builtFrom
  obtain rfl : tree = tree' := congrArg Artifact.content heq
  exact hbuilt

theorem Derived.provenance {s : Store}
    (hs : Derived hashes tools (registry (Pinned hashes)) s) : Provenance hashes tools s := by
  intro registry repository d
  constructor
  case rootfs =>
    intro a ha
    rcases hs.records _ a ha with hsource | hpending
    · exact hsource.builtFrom
    · exact absurd hpending not_pending
  case modules =>
    intro a ha
    obtain ⟨content, ⟨tree, htree, hmodules⟩, rfl⟩ := hs.records _ a ha
    exact ⟨tree, content, htree.builtFrom_cpio, hmodules, rfl⟩
  case kernel =>
    intro path a ha
    obtain ⟨source, path', hkey, hrecord⟩ := hs.records _ a ha
    obtain ⟨rfl, rfl⟩ := kernelRequestDigest_inj hkey
    rcases hrecord with hpending | ⟨p, tree, hpath, htree, hentry⟩
    · exact absurd hpending not_pending
    · exact ⟨p, tree, hpath, htree.builtFrom_cpio, hentry⟩
  case blueprint =>
    intro key b hkey hb
    obtain ⟨source, hkey', hof⟩ := hs.blueprints key b hb
    obtain rfl := hkey'.unique hkey
    exact hof.manifestOf

/-- In every history with pinned answers, everything cached for an image has its
manifest digest. -/
theorem provenance_of_pinned {events : List Event} {s : Store}
    (h : History hashes tools (registry (Pinned hashes)) events s) : Provenance hashes tools s :=
  h.derived.provenance

end

/-! ## A tag that moves -/

namespace MovedTag

def reference : Text := utf8 "reg.io/img:t"

def old : Bytes := [1]
def new : Bytes := [2]

def digestOf (body : Bytes) : Text := Registry.Sample.hashes.manifestBodyDigest body

/-- The new manifest has no layers, any other has one; a tree tells how many. -/
def tools : Tools where
  parseUrl _ := some ⟨utf8 "https", some (utf8 "reg.io"), none, utf8 "/v2/img/manifests/t"⟩
  parseImage body := some ⟨if body = new then [] else [⟨none, [], 0, none⟩]⟩
  parseIndex _ := none
  hostArch := .amd64
  detect _ := some ⟨.containerCpio, .none⟩
  detect_compression := @Detected.containerCpio_compression
  decompress _ content := .ok content
  convert content := .ok content
  flatten trees := .ok [UInt8.ofNat trees.length]
  extractKernel _ tree := .ok tree
  extractModules _ := .ok none
  validateCpio _ := .ok ()

/-- The identity of the image with the manifest `body`. -/
def source (body : Bytes) : LinkDigest :=
  ociSourceDigest Registry.Sample.hashes (utf8 "reg.io") (utf8 "img") (digestOf body)

/-- `HEAD` reports the digest of `reported`; `GET` delivers the new manifest. -/
def answer (reported : Bytes) : (op : Outside) → op.Ans
  | .headManifest _ => .ok ⟨none, some (digestOf reported)⟩
  | .getManifest _ (.target key) =>
    if key = ⟨.rootfs, source reported⟩ then
      .ok ⟨some (utf8 "application/vnd.oci.image.manifest.v1+json"), some (digestOf new), new⟩
    else .error .link
  | .getManifest _ _ => .error .link
  | .metadata _ => .error .link
  | .readLocal _ => .error .link
  | .head _ => .error .link
  | .getBody _ => .error .link
  | .work => .ok ()

def call (reported : Bytes) : Except Failure Artifact × Store :=
  Prog.interp (handler (answer reported)) (buildRootfs Registry.Sample.hashes tools (.image reference))
    Store.empty

theorem call_history (reported : Bytes) {answers : (op : Outside) → op.Ans → Prop}
    (h : ∀ op, answers op (answer reported op)) :
    History hashes tools (registry answers) [.buildRootfs (.image reference)] (call reported).2 :=
  .snoc .nil ⟨⟨reference, rfl⟩, _, exec_handler h _ Store.empty⟩

/-- The image of the new manifest is cached under the digest of the old one. -/
theorem call_old : (call old).2.records ⟨.rootfs, source old⟩ = some (cpioArtifact [0]) := by
  decide +kernel

theorem not_hashesTo : ¬ hashes.HashesTo (digestOf old) new := by
  rintro ⟨expected, hparse, hverify⟩
  have hold : parseExpectedDigest (digestOf old) =
      .ok (.sha256 (hashes.sha256 old)) := by decide +kernel
  cases hold.symm.trans hparse
  exact absurd hverify (by decide +kernel)

theorem not_builtFrom : ¬ BuiltFrom hashes tools (digestOf old) [0] := by
  rintro ⟨image, trees, ⟨body, hbody, himage⟩, hlayers, hflatten⟩
  rcases himage with himage | ⟨index, _, _, hindex, -⟩
  · have hbody : body ≠ new := fun h => not_hashesTo (h ▸ hbody)
    obtain rfl : ImageManifest.mk _ = image := Option.some.inj himage
    simp only [if_neg hbody] at hlayers
    obtain ⟨tree, rfl⟩ := List.length_eq_one_iff.1 hlayers.length_eq.symm
    have hcount : [UInt8.ofNat 1] = [0] := Except.ok.inj hflatten
    exact absurd hcount (by decide)
  · cases hindex

end MovedTag

open MovedTag in
/-- The registry may answer anything: an image can be cached under a digest that the
manifest it was built from does not have. -/
theorem moved_tag_unproven : ∃ events s, History hashes tools (registry fun _ _ => True) events s ∧
      ¬ Provenance hashes tools s := by
  refine ⟨_, _, call_history old fun _ => trivial, fun hproven => ?_⟩
  have hold : ProvenFor hashes tools (call old).2 (source old) (digestOf old) :=
    hproven (utf8 "reg.io") (utf8 "img") (digestOf old)
  obtain ⟨tree, hbuilt, heq⟩ := hold.rootfs (cpioArtifact [0]) call_old
  cases heq
  exact not_builtFrom hbuilt

open MovedTag in
/-- A tag that stays: the same call, with the digest of the manifest delivered. -/
theorem kept_tag_proven : (call new).2.records ⟨.rootfs, source new⟩ = some (cpioArtifact [0]) ∧
      Provenance hashes tools (call new).2 := by
  refine ⟨by decide +kernel, provenance_of_pinned (call_history new fun op => ?_)⟩
  cases op with
  | getManifest url purpose =>
    cases purpose with
    | target key =>
      by_cases hkey : key = ⟨.rootfs, source new⟩
      · rw [answer, if_pos hkey]
        intro registry repository d hd
        obtain ⟨-, -, rfl⟩ := ociSourceDigest_inj (hd.unique (.inl hkey))
        have hcompute : hashes.computeDigest sha256Name new = some (digestOf new) := rfl
        exact .inr (computeDigest_hashesTo hcompute)
      · rw [answer, if_neg hkey]
        trivial
    | probe | entry digest => trivial
  | _ => trivial

end Jyth.Materialize
