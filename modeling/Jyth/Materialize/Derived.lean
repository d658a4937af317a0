import Jyth.Materialize.Pipeline

/-!
# Where cached records come from

Every record of the cache goes back to answers of the outside: it is what the
pipeline computes from a resolved source, its manifest and its layers.  `Derived`
says so of a cache, and `Keeps` of a program: it keeps the cache derived, also if
it fails or is cut off at any point.

    FromSource d a    the source with digest d gives the artifact a
-/

namespace Jyth.Materialize

open Format Effect Registry Ends
open Jyth.Image (Report)

/-- What the outside may answer, and the sources that are asked for. -/
structure Setting where
  answers : (op : Outside) → op.Ans → Prop
  links : Link → Prop

def Setting.world (setting : Setting) :
    World Store (Outside ⊕ StoreOp) (Sum.rec Outside.Ans StoreOp.Ans) :=
  World.both setting.answers Store.world

/-! ## Normal forms -/

section Normal

variable (tools : Tools)

def decompressed (a : Artifact) : Except Report Artifact :=
  if a.artifactCompression = .none then .ok a else decompressStage tools a

def converted (a : Artifact) : Except Report Artifact :=
  if a.artifactType = .containerTar then intoCpio tools a else .ok a

def normalForm (a : Artifact) : Except Report Artifact := decompressed tools a >>= converted tools

variable {tools} {a b : Artifact}

theorem decompressStage_compression (h : decompressStage tools a = .ok b) :
    b.artifactCompression = .none := by
  simp only [decompressStage, bind_eq_ok] at h
  obtain ⟨_, -, _, -, _, -, _, -, _, -, _, -, hb⟩ := h
  cases hb
  rfl

theorem decompressed_compression (h : decompressed tools a = .ok b) :
    b.artifactCompression = .none := by
  unfold decompressed at h
  split at h
  · cases h
    assumption
  · exact decompressStage_compression h

theorem intoCpio_eq_ok (h : intoCpio tools a = .ok b) : ∃ content, b = cpioArtifact content := by
  simp only [intoCpio, bind_eq_ok] at h
  obtain ⟨_, -, content, -, hb⟩ := h
  cases hb
  exact ⟨content, rfl⟩

theorem normalForm_of_uncompressed (h : a.artifactCompression = .none) :
    normalForm tools a = converted tools a := by
  rw [normalForm, decompressed, if_pos h]
  rfl

theorem normalForm_of_decompressed (h : decompressed tools a = .ok b) :
    normalForm tools b = normalForm tools a := by
  rw [normalForm_of_uncompressed (decompressed_compression h), normalForm, h]
  rfl

theorem normalForm_cpio (content : Bytes) :
    normalForm tools (cpioArtifact content) = .ok (cpioArtifact content) :=
  (normalForm_of_uncompressed rfl).trans (if_neg (by simp [cpioArtifact]))

section

variable (h : normalForm tools a = .ok b)
include h

theorem normalForm_compression : b.artifactCompression = .none := by
  obtain ⟨c, hc, hb⟩ := bind_eq_ok.1 h
  unfold converted at hb
  split at hb
  · obtain ⟨content, rfl⟩ := intoCpio_eq_ok hb
    rfl
  · cases hb
    exact decompressed_compression hc

theorem normalForm_idem : normalForm tools b = .ok b := by
  obtain ⟨c, hc, hb⟩ := bind_eq_ok.1 h
  unfold converted at hb
  split at hb
  · obtain ⟨content, rfl⟩ := intoCpio_eq_ok hb
    exact normalForm_cpio content
  · next hty =>
    cases hb
    rw [normalForm_of_uncompressed (decompressed_compression hc), converted, if_neg hty]

theorem normalForm_of_cpio_type
    (hty : b.artifactType = .containerCpio) : b = cpioArtifact b.content := by
  obtain ⟨ty, compression, content⟩ := b
  obtain rfl : compression = .none := normalForm_compression h
  obtain rfl : ty = .containerCpio := hty
  rfl

end

theorem normalForm_self (hc : a.artifactCompression = .none) (hty : a.artifactType ≠ .containerTar) :
    normalForm tools a = .ok a := by
  rw [normalForm_of_uncompressed hc, converted, if_neg hty]

end Normal

/-! ## Derivations -/

section Derivations

variable (hashes : Hashes) (tools : Tools) (setting : Setting)

/-- Some link of the setting resolves so. -/
def Resolved (r : ResolvedSource) : Prop :=
  ∃ link, setting.links link ∧ Yields setting.answers (resolveSource hashes link) (.ok r)

/-- The link may be loaded as this artifact. -/
def Loaded (link : ArtifactLink) (linkSize : BitVec 128) (expected : Option ExpectedDigest)
    (a : Artifact) : Prop :=
  ∃ d, Yields setting.answers (loadStaged hashes tools link linkSize expected d) (.ok a)

/-- The layer may be loaded as this artifact. -/
def LayerLoaded (layer : Layer) (a : Artifact) : Prop :=
  Loaded hashes tools setting layer.link layer.linkDigest.fileSize (some layer.expectedDigest) a

/-- The layer's tree, as a CPIO. -/
def LayerTree (layer : Layer) (tree : Bytes) : Prop :=
  ∃ a, LayerLoaded hashes tools setting layer a ∧ normalForm tools a = .ok (cpioArtifact tree)

/-- A key that is derived from the digest of the source. -/
def BlueprintKey (d : LinkDigest) (key : Key) : Prop :=
  key = ⟨.rootfs, d⟩ ∨ ∃ path, key = ⟨.kernel, kernelRequestDigest hashes d path⟩

/-- A blueprint of an image with this digest. -/
def BlueprintOf (d : LinkDigest) (b : Blueprint) : Prop :=
  ∃ r key extract e, Resolved hashes setting r ∧ r.isImage = true ∧ r.sourceDigest = d ∧
    BlueprintKey hashes d key ∧
    Yields setting.answers (blueprint hashes tools key r.link extract e) (.ok b)

/-- The flattened tree of an image with this digest. -/
def ImageTree (d : LinkDigest) (tree : Bytes) : Prop :=
  ∃ b trees, BlueprintOf hashes tools setting d b ∧
    List.Forall₂ (LayerTree hashes tools setting) b.layers trees ∧
    tools.flatten trees = .ok tree

/-- An archive with this digest, as it was loaded. -/
def ArchiveLoaded (d : LinkDigest) (a : Artifact) : Prop :=
  ∃ r, Resolved hashes setting r ∧ r.isImage = false ∧ r.sourceDigest = d ∧
    Loaded hashes tools setting r.link d.fileSize none a

/-- What the source with this digest stands for. -/
def FromSource (d : LinkDigest) (a : Artifact) : Prop :=
  (∃ tree, ImageTree hashes tools setting d tree ∧ a = cpioArtifact tree) ∨
    ∃ a₀, ArchiveLoaded hashes tools setting d a₀ ∧ normalForm tools a₀ = .ok a

/-- Only an artifact of type `Compressed` is compressed. -/
def Artifact.Plain (a : Artifact) : Prop :=
  a.artifactType ≠ .compressed → a.artifactCompression = .none

/-- `a` is an archive on its way to the normal form. -/
def Pending (d : LinkDigest) (a : Artifact) : Prop :=
  ∃ a₀, ArchiveLoaded hashes tools setting d a₀ ∧ normalForm tools a = normalForm tools a₀ ∧ a.Plain

def kernelEntry (path : Text) (tree : Bytes) : Except Report Artifact := do
  let requested ← validateRequestPath path
  let content ← tools.extractKernel requested tree
  return ⟨.fileBzImage, .none, content⟩

/-- The kernel at the path in the source's tree. -/
def KernelEntry (d : LinkDigest) (path : Option Text) (a : Artifact) : Prop :=
  ∃ p tree, path = some p ∧ FromSource hashes tools setting d (cpioArtifact tree) ∧
    kernelEntry tools p tree = .ok a

/-- The modules in the source's tree. -/
def ModulesFrom (d : LinkDigest) (modules : Option Bytes) : Prop :=
  ∃ tree, FromSource hashes tools setting d (cpioArtifact tree) ∧
    tools.extractModules tree = .ok modules

/-- What a record may hold, by its namespace. -/
def RecordOk (key : Key) (a : Artifact) : Prop :=
  match key.namespc with
  | .layers => ∃ layer, layer.WellFormed hashes ∧ layer.linkDigest = key.linkDigest ∧
      ∃ a₀, LayerLoaded hashes tools setting layer a₀ ∧ normalForm tools a = normalForm tools a₀
  | .rootfs => FromSource hashes tools setting key.linkDigest a ∨
      Pending hashes tools setting key.linkDigest a
  | .modules => ∃ content, ModulesFrom hashes tools setting key.linkDigest (some content) ∧
      a = cpioArtifact content
  | .kernel => ∃ d path, key.linkDigest = kernelRequestDigest hashes d path ∧
      (Pending hashes tools setting d a ∨ KernelEntry hashes tools setting d path a)

/-- A blueprint that belongs to the key. -/
def BlueprintOk (key : Key) (b : Blueprint) : Prop :=
  ∃ d, BlueprintKey hashes d key ∧ BlueprintOf hashes tools setting d b

/-- The invariant of the cache. -/
structure Derived (s : Store) : Prop where
  records : ∀ key a, s.records key = some a → RecordOk hashes tools setting key a
  blueprints : ∀ key b, s.blueprints key = some b → BlueprintOk hashes tools setting key b

end Derivations

variable {key : Key} {a : Artifact} {b : Blueprint}

section

variable {hashes : Hashes} {tools : Tools} {setting : Setting} {s : Store}

theorem derived_empty : Derived hashes tools setting Store.empty :=
  ⟨fun _ _ h => (nomatch h), fun _ _ h => (nomatch h)⟩

theorem lookup_eq_some (h : s.lookup key = some a) : s.records key = some a :=
  (Option.filter_eq_some_iff.1 h).1

section

variable (hs : Derived hashes tools setting s)
include hs

theorem Derived.lookup (h : s.lookup key = some a) : RecordOk hashes tools setting key a :=
  hs.records key a (lookup_eq_some h)

theorem Derived.mono {s' : Store}
    (hrecords : ∀ key a, s'.records key = some a → s.records key = some a)
    (hblueprints : ∀ key b, s'.blueprints key = some b → s.blueprints key = some b) :
    Derived hashes tools setting s' :=
  ⟨fun key a h => hs.records key a (hrecords key a h),
    fun key b h => hs.blueprints key b (hblueprints key b h)⟩

theorem Derived.settle (key : Key) : Derived hashes tools setting (s.settle key) := by
  unfold Store.settle
  split
  · exact hs
  · refine hs.mono (fun key' a h => ?_) (fun _ _ h => h)
    replace h := (Table.remove_apply _ _ _).symm.trans h
    split at h
    · cases h
    · exact h

theorem Derived.publish
    (ha : RecordOk hashes tools setting key a) : Derived hashes tools setting (s.publish key a) := by
  refine ⟨fun key' a' h => ?_, hs.blueprints⟩
  replace h := (Table.insert_apply _ _ _ _).symm.trans h
  split at h
  · next heq =>
    cases h
    exact heq ▸ ha
  · exact hs.records key' a' h

theorem Derived.publishBlueprint (hb : BlueprintOk hashes tools setting key b) :
    Derived hashes tools setting { s with blueprints := s.blueprints.insert key b } := by
  refine ⟨hs.records, fun key' b' h => ?_⟩
  replace h := (Table.insert_apply _ _ _ _).symm.trans h
  split at h
  · next heq =>
    cases h
    exact heq ▸ hb
  · exact hs.blueprints key' b' h

end

theorem lookup_settle (s : Store) (key : Key) : (s.settle key).lookup = s.lookup := by
  unfold Store.settle
  split
  · rfl
  · next hnone =>
    funext key'
    unfold Store.lookup
    simp only [Table.remove_apply]
    split
    · next heq =>
      subst heq
      exact (Option.not_isSome_iff_eq_none.1 hnone).symm
    · rfl

end

/-! ## Operations -/

section Operations

variable {hashes : Hashes} {tools : Tools} {setting : Setting} {s : Store} {α : Type}

/-- Every run keeps the records derived, and one that succeeds ends in `Q`. -/
abbrev Keeps (hashes : Hashes) (tools : Tools) (setting : Setting) (Q : α → Store → Prop)
    (p : M α) (s : Store) : Prop :=
  Ends setting.world (Derived hashes tools setting) Q p s

theorem keeps_fetch {p : Fetch α} (hs : Derived hashes tools setting s) :
    Keeps hashes tools setting (fun a s' => s' = s ∧ Yields setting.answers p (.ok a)) (fetch p) s :=
  outside hs fun _ h => ⟨rfl, h⟩

variable {r : Except Report α}

theorem yields_ofReport {answers : (op : Outside) → op.Ans → Prop} {a : α} :
    Yields answers (ofReport r) (.ok a) ↔ r = .ok a := by
  cases r with
  | ok b =>
    exact ⟨fun h => congrArg Except.ok (Except.ok.inj h).symm,
      fun h => congrArg Except.ok (Except.ok.inj h).symm⟩
  | error e =>
    constructor
    · exact fun h => nomatch (show Except.ok a = Except.error (Failure.operation e) from h)
    · exact fun h => nomatch h

section

variable (hs : Derived hashes tools setting s)
include hs

theorem keeps_transform :
    Keeps hashes tools setting (fun a s' => s' = s ∧ r = .ok a) (transform r) s := by
  refine andThen (keeps_fetch hs) fun _ s' hs' h => ?_
  obtain ⟨rfl, -⟩ := h
  exact (keeps_fetch hs').mono fun a s'' _ ha => ⟨ha.1, yields_ofReport.1 ha.2⟩

theorem keeps_perform {op : StoreOp} {Q : op.Result → Store → Prop}
    (h : ∀ v s', s.apply op = .ok (v, s') → Derived hashes tools setting s' ∧ Q v s') :
    Keeps hashes tools setting Q (perform op) s := by
  refine Safe.call hs fun r s' hop => ?_
  rcases hop with ⟨v, happly, rfl⟩ | ⟨⟨e, rfl⟩, rfl⟩
  · obtain ⟨hs', hQ⟩ := h v s' happly
    exact ⟨hs', fun a ha => Except.ok.inj ha ▸ hQ⟩
  · exact ⟨hs, fun a ha => nomatch ha⟩

theorem keeps_reserve :
    Keeps hashes tools setting (fun _ s' => s' = s) (perform (.reserve key)) s :=
  keeps_perform hs fun v s' h => by
    cases h
    exact ⟨hs, rfl⟩

theorem keeps_readFile :
    Keeps hashes tools setting (fun v s' => v = s.lookup key ∧ s'.lookup = s.lookup)
      (perform (.readFile key)) s :=
  keeps_perform hs fun v s' h => by
    cases h
    exact ⟨hs.settle key, rfl, lookup_settle s key⟩

theorem keeps_publishFile (ha : RecordOk hashes tools setting key a) :
    Keeps hashes tools setting (fun _ _ => True) (perform (.publishFile key a)) s :=
  keeps_perform hs fun v s' h => by
    cases h
    exact ⟨hs.publish ha, trivial⟩

theorem keeps_replaceFile (ha : RecordOk hashes tools setting key a) :
    Keeps hashes tools setting (fun _ _ => True) (perform (.replaceFile key a)) s :=
  keeps_perform hs fun v s' h => by
    simp only [Store.apply] at h
    split at h
    · cases h
      exact ⟨hs.publish ha, trivial⟩
    · cases h

theorem keeps_writeFile {content : Bytes} :
    Keeps hashes tools setting (fun _ _ => True) (perform (.writeFile key content)) s :=
  keeps_perform hs fun v s' h => by
    cases h
    exact ⟨hs.mono (fun _ _ h => h) (fun _ _ h => h), trivial⟩

end

end Operations

/-! ## Layers -/

section Layers

variable {hashes : Hashes} {tools : Tools} {setting : Setting} {s : Store} {link : ArtifactLink}
  {expected : Option ExpectedDigest} (hs : Derived hashes tools setting s)
include hs

theorem keeps_load {d : LinkDigest} : Keeps hashes tools setting
      (fun a _ => Loaded hashes tools setting link key.linkDigest.fileSize expected a)
      (load hashes tools key link expected d) s := by
  refine andThen (keeps_fetch hs) fun a s hs ha => ?_
  exact andThen (keeps_writeFile hs) fun _ _ hs _ => pure hs ⟨d, ha.2⟩

theorem keeps_readOrLoad {P : Artifact → Prop} {linkDigest : M LinkDigest}
    (hdigest : ∀ s, Derived hashes tools setting s →
      Keeps hashes tools setting (fun _ _ => True) linkDigest s)
    (hhit : ∀ a, s.lookup key = some a → P a)
    (hload : ∀ a, Loaded hashes tools setting link key.linkDigest.fileSize expected a →
      RecordOk hashes tools setting key a ∧ P a) : Keeps hashes tools setting (fun a _ => P a)
      (readOrLoad hashes tools key link expected linkDigest) s := by
  refine andThen (keeps_readFile hs) fun entry s hs hread => ?_
  cases entry with
  | some entry => exact pure hs (hhit entry hread.1.symm)
  | none =>
    refine andThen (hdigest s hs) fun d s hs _ => ?_
    refine andThen (keeps_load hs) fun entry s hs hentry => ?_
    obtain ⟨hrecord, hP⟩ := hload entry hentry
    exact andThen (keeps_publishFile hs hrecord) fun _ _ hs _ => pure hs hP

section Normalize

variable {key : Key} {a : Artifact}
  (hstage : ∀ b, normalForm tools b = normalForm tools a → b.artifactCompression = .none →
    RecordOk hashes tools setting key b)
include hstage

theorem keeps_decompressIfNeeded :
    Keeps hashes tools setting (fun b _ => decompressed tools a = .ok b)
      (decompressIfNeeded tools key a) s := by
  unfold decompressIfNeeded decompressed
  split
  · exact pure hs rfl
  · next hc =>
    refine andThen (keeps_transform hs) fun b s hs hb => ?_
    obtain ⟨-, hb⟩ := hb
    have hform : normalForm tools b = normalForm tools a :=
      normalForm_of_decompressed (by rw [decompressed, if_neg hc, hb])
    have hrecord := hstage b hform (decompressStage_compression hb)
    refine andThen (keeps_replaceFile hs hrecord) fun _ s hs _ => ?_
    exact andThen (keeps_writeFile hs) fun _ _ hs _ => pure hs hb

theorem keeps_convertIfNeeded {b : Artifact} (hb : decompressed tools a = .ok b) :
    Keeps hashes tools setting (fun c _ => converted tools b = .ok c)
      (convertIfNeeded tools key b) s := by
  unfold convertIfNeeded converted
  split
  · next hty =>
    refine andThen (keeps_transform hs) fun c s hs hc => ?_
    obtain ⟨-, hc⟩ := hc
    have hform : normalForm tools a = .ok c := by
      rw [normalForm, hb, ← hc]
      exact if_pos hty
    have hrecord := hstage c ((normalForm_idem hform).trans hform.symm) (normalForm_compression hform)
    refine andThen (keeps_writeFile hs) fun _ s hs _ => ?_
    exact andThen (keeps_replaceFile hs hrecord) fun _ _ hs _ => pure hs hc
  · exact pure hs rfl

theorem keeps_normalizeArtifact : Keeps hashes tools setting (fun b _ => normalForm tools a = .ok b)
      (normalizeArtifact tools key a) s := by
  refine andThen (keeps_decompressIfNeeded hs hstage) fun b s hs hb => ?_
  refine (keeps_convertIfNeeded hs hstage hb).mono fun c _ _ hc => ?_
  rw [normalForm, hb]
  exact hc

end Normalize

theorem keeps_expectCpio {failure : ArtifactType → Failure} :
    Keeps hashes tools setting (fun _ s' => s' = s ∧ a.artifactType = .containerCpio)
      (expectCpio failure a) s := by
  unfold expectCpio
  split
  · next hty => exact pure hs ⟨rfl, hty⟩
  · exact throw hs

theorem keeps_materializeLayer {layer : Layer} (hlayer : layer.WellFormed hashes) :
    Keeps hashes tools setting
      (fun a _ => ∃ tree, LayerTree hashes tools setting layer tree ∧ a = cpioArtifact tree)
      (materializeLayer hashes tools layer) s := by
  have hrecord : ∀ {a a₀}, LayerLoaded hashes tools setting layer a₀ →
      normalForm tools a = normalForm tools a₀ →
      RecordOk hashes tools setting ⟨.layers, layer.linkDigest⟩ a := fun h₀ h =>
    ⟨layer, hlayer, rfl, _, h₀, h⟩
  refine andThen (keeps_reserve hs) fun _ s' hs' _ => ?_
  refine andThen (keeps_readOrLoad (P := fun a => ∃ a₀, LayerLoaded hashes tools setting layer a₀ ∧
      normalForm tools a = normalForm tools a₀) hs' (fun s hs => pure hs trivial)
      (fun a ha => ?_) fun a ha => ⟨hrecord ha rfl, a, ha, rfl⟩) fun a s hs ha => ?_
  · obtain ⟨layer', hlayer', hkey, hform⟩ := hs'.lookup ha
    rwa [hlayer'.eq_of_linkDigest hlayer hkey] at hform
  · obtain ⟨a₀, h₀, hform⟩ := ha
    refine andThen (keeps_normalizeArtifact hs fun b hb _ => hrecord h₀ (hb.trans hform))
      fun b s hs hb => ?_
    refine andThen (keeps_expectCpio hs) fun _ s' hs' hty => pure hs' ?_
    have hcpio := normalForm_of_cpio_type hb hty.2
    exact ⟨b.content, ⟨a₀, h₀, by rw [← hform, hb, ← hcpio]⟩, hcpio⟩

variable {layers : List Layer}

theorem keeps_materializeEach (hlayers : ∀ layer ∈ layers, layer.WellFormed hashes) :
    Keeps hashes tools setting
      (fun as _ => ∃ trees, List.Forall₂ (LayerTree hashes tools setting) layers trees ∧
        as = trees.map cpioArtifact) (materializeEach hashes tools layers) s := by
  induction layers generalizing s with
  | nil => exact pure hs ⟨[], .nil, rfl⟩
  | cons layer layers ih =>
    obtain ⟨hlayer, hlayers⟩ := List.forall_mem_cons.1 hlayers
    refine andThen (keeps_materializeLayer hs hlayer) fun a s hs ha => ?_
    refine andThen (ih hs hlayers) fun as s hs has => pure hs ?_
    obtain ⟨tree, htree, rfl⟩ := ha
    obtain ⟨trees, htrees, rfl⟩ := has
    exact ⟨tree :: trees, .cons htree htrees, rfl⟩

omit hs in
theorem flatten_eq_ok {trees : List Bytes}
    (h : flatten tools (trees.map cpioArtifact) key = .ok a) :
    ∃ tree, tools.flatten trees = .ok tree ∧ a = cpioArtifact tree := by
  simp only [flatten, bind_eq_ok] at h
  obtain ⟨_, -, _, -, tree, htree, ha⟩ := h
  cases ha
  rw [List.map_map] at htree
  exact ⟨tree, by simpa [Function.comp_def, cpioArtifact] using htree, rfl⟩

theorem keeps_materializeLayers (hlayers : ∀ layer ∈ layers, layer.WellFormed hashes) :
    Keeps hashes tools setting
      (fun a _ => ∃ trees tree, List.Forall₂ (LayerTree hashes tools setting) layers trees ∧
        tools.flatten trees = .ok tree ∧ a = cpioArtifact tree)
      (materializeLayers hashes tools layers key) s := by
  refine andThen (keeps_materializeEach hs hlayers) fun as s hs has => ?_
  obtain ⟨trees, htrees, rfl⟩ := has
  refine andThen (keeps_transform hs) fun a s hs ha => ?_
  obtain ⟨tree, htree, rfl⟩ := flatten_eq_ok ha.2
  exact andThen (keeps_writeFile hs) fun _ _ hs _ => pure hs ⟨trees, tree, htrees, htree, rfl⟩

end Layers

/-! ## Images -/

section Images

variable {hashes : Hashes} {tools : Tools} {setting : Setting} {s : Store}

variable {extract : Option Text} {d : LinkDigest} {r : ResolvedSource}

theorem blueprint_wellFormed {link : ArtifactLink}
    (h : Yields setting.answers (blueprint hashes tools key link extract d) (.ok b)) :
    ∀ layer ∈ b.layers, layer.WellFormed hashes := by
  simp only [blueprint, yields_bindE, yields_pureE] at h
  obtain ⟨_, -, _, -, _, -, _, -, _, -, _, -, reference, -, _, -, _, -, _, -, image, -, layers,
    hlayers, rfl⟩ := h
  exact buildLayers_wellFormed (yields_ofReport.1 hlayers)

theorem BlueprintKey.unique {d' : LinkDigest} (h : BlueprintKey hashes d key)
    (h' : BlueprintKey hashes d' key) : d = d' := by
  rcases h with rfl | ⟨path, rfl⟩ <;> rcases h' with h' | ⟨path', h'⟩
  · exact congrArg Key.linkDigest h'
  · exact nomatch congrArg Key.namespc h'
  · exact nomatch congrArg Key.namespc h'
  · exact (kernelRequestDigest_inj (congrArg Key.linkDigest h')).1

theorem keeps_getOrBuildBlueprint
    {e : LinkDigest} (hr : Resolved hashes setting r) (himage : r.isImage = true)
    (hkey : BlueprintKey hashes r.sourceDigest key) (hs : Derived hashes tools setting s) :
    Keeps hashes tools setting (fun b _ => BlueprintOf hashes tools setting r.sourceDigest b)
      (getOrBuildBlueprint hashes tools key r.link extract e) s := by
  refine andThen (keeps_perform (Q := fun v s' => v = s.blueprints key ∧ s' = s) hs
    fun v s' h => by cases h; exact ⟨hs, rfl, rfl⟩) fun cached s' hs' hread => ?_
  cases cached with
  | some b =>
    obtain ⟨d, hkey', hb⟩ := hs.blueprints key b hread.1.symm
    exact pure hs' (hkey'.unique hkey ▸ hb)
  | none =>
    refine andThen (keeps_fetch hs') fun b s hs hb => ?_
    have hof : BlueprintOf hashes tools setting r.sourceDigest b :=
      ⟨r, key, extract, e, hr, himage, rfl, hkey, hb.2⟩
    refine andThen (keeps_perform (Q := fun _ _ => True) hs fun v s' h => ?_)
      fun _ s hs _ => pure hs hof
    cases h
    exact ⟨hs.publishBlueprint ⟨r.sourceDigest, hkey, hof⟩, trivial⟩

theorem BlueprintOf.wellFormed
    (h : BlueprintOf hashes tools setting d b) : ∀ layer ∈ b.layers, layer.WellFormed hashes := by
  obtain ⟨r, key, extract, e, -, -, -, -, hyield⟩ := h
  exact blueprint_wellFormed hyield

theorem keeps_imageRootfs {key rootfsKey : Key}
    (hr : Resolved hashes setting r) (himage : r.isImage = true)
    (hkey : BlueprintKey hashes r.sourceDigest key) (hs : Derived hashes tools setting s) :
    Keeps hashes tools setting
      (fun a _ => ∃ tree, ImageTree hashes tools setting r.sourceDigest tree ∧ a = cpioArtifact tree)
      (imageRootfs hashes tools key rootfsKey r.link extract) s := by
  refine andThen (keeps_fetch hs) fun e s hs _ => ?_
  refine andThen (keeps_getOrBuildBlueprint hr himage hkey hs) fun b s hs hb => ?_
  refine (keeps_materializeLayers hs hb.wellFormed).mono fun a s hs ha => ?_
  obtain ⟨trees, tree, htrees, htree, rfl⟩ := ha
  exact ⟨tree, ⟨b, trees, hb, htrees, htree⟩, rfl⟩

end Images

end Jyth.Materialize
