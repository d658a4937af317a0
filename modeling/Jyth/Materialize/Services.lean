import Jyth.Lib.Run
import Jyth.Materialize.Derived

/-!
# What the services return

`build_rootfs` and `build_external` keep every record derived from its source,
and what they return is derived too: a kernel is the entry of the source's tree
(or the source itself), and the modules are those of the tree, with one
exception.  `Forgotten` says when `build_external` returns a kernel without
looking for its modules.
-/

namespace Jyth.Materialize

open Format Effect Registry Ends
open Jyth.Image (Report)

variable {hashes : Hashes} {tools : Tools} {setting : Setting} {s : Store} {d : LinkDigest}

/-! ## Sources that are not images -/

variable {a b : Artifact} {linkSize : BitVec 128} {expected : Option ExpectedDigest}
  {link : ArtifactLink} {key : Key}

theorem Loaded.copied (h : Loaded hashes tools setting link linkSize expected a) :
    Yields setting.answers (copy hashes link linkSize expected) (.ok a.content) ∧
      detectOrUnsupported tools a.content = .ok ⟨a.artifactType, a.artifactCompression⟩ := by
  obtain ⟨e, h⟩ := h
  simp only [loadStaged, yields_bindE, yields_pureE] at h
  obtain ⟨_, -, _, -, _, -, content, hcopy, detected, hdetected, rfl⟩ := h
  exact ⟨hcopy, yields_ofReport.1 hdetected⟩

theorem Loaded.plain (h : Loaded hashes tools setting link linkSize expected a) : a.Plain := by
  intro hty
  have hdetected := h.copied.2
  unfold detectOrUnsupported at hdetected
  cases hheader : tools.detect (a.content.take minHeaderLen) with
  | none => simp [hheader] at hdetected
  | some found =>
    rw [hheader, Option.elim_some, pure_eq_ok] at hdetected
    exact (tools.detect_compression (hdetected ▸ hheader)).2 hty

theorem ArchiveLoaded.pending (ha : ArchiveLoaded hashes tools setting d a)
    (hform : normalForm tools b = normalForm tools a) (hb : b.artifactCompression = .none) :
    Pending hashes tools setting d b := ⟨a, ha, hform, fun _ => hb⟩

theorem ArchiveLoaded.pending_self (ha : ArchiveLoaded hashes tools setting d a) :
    Pending hashes tools setting d a := by
  obtain ⟨r, hr, himage, hd, hload⟩ := id ha
  exact ⟨a, ha, rfl, hload.plain⟩

variable (h : Pending hashes tools setting d a)
include h

theorem Pending.fromSource
    (hcompressed : a.artifactType ≠ .compressed) (htar : a.artifactType ≠ .containerTar) :
    FromSource hashes tools setting d a := by
  obtain ⟨a₀, h₀, hform, hplain⟩ := h
  exact .inr ⟨a₀, h₀, by rw [← hform, normalForm_self (hplain hcompressed) htar]⟩

theorem Pending.normalize
    (hb : normalForm tools a = .ok b) : FromSource hashes tools setting d b := by
  obtain ⟨a₀, h₀, hform, -⟩ := h
  exact .inr ⟨a₀, h₀, hform ▸ hb⟩

theorem Pending.stage
    (hform : normalForm tools b = normalForm tools a) (hb : b.artifactCompression = .none) :
    Pending hashes tools setting d b := by
  obtain ⟨a₀, h₀, hform₀, -⟩ := h
  exact ⟨a₀, h₀, hform.trans hform₀, fun _ => hb⟩

omit h

/-! ## `build_rootfs` -/

variable {r : ResolvedSource} (hs : Derived hashes tools setting s)
include hs

theorem keeps_archiveRootfs (hr : Resolved hashes setting r) (himage : r.isImage = false) :
    Keeps hashes tools setting (fun a _ => FromSource hashes tools setting r.sourceDigest a)
      (archiveRootfs hashes tools ⟨.rootfs, r.sourceDigest⟩ r.link) s := by
  refine andThen (keeps_fetch hs) fun e s hs _ => ?_
  refine andThen (keeps_load hs) fun a s hs ha => ?_
  have hloaded : ArchiveLoaded hashes tools setting r.sourceDigest a := ⟨r, hr, himage, rfl, ha⟩
  refine andThen (keeps_publishFile hs (.inr hloaded.pending_self)) fun _ s hs _ => ?_
  refine andThen (keeps_normalizeArtifact hs fun b hform hb => .inr (hloaded.pending hform hb))
    fun b s hs hb => ?_
  refine andThen (keeps_expectCpio hs) fun _ s hs _ => ?_
  exact andThen (keeps_transform hs) fun _ s hs _ =>
    pure hs (hloaded.pending_self.normalize hb)

theorem keeps_freshRootfs (hr : Resolved hashes setting r) :
    Keeps hashes tools setting (fun a _ => FromSource hashes tools setting r.sourceDigest a)
      (freshRootfs hashes tools ⟨.rootfs, r.sourceDigest⟩ r) s := by
  unfold freshRootfs
  split
  · next himage => exact (keeps_imageRootfs hr himage (.inl rfl) hs).mono fun a _ _ ha => .inl ha
  · next himage => exact keeps_archiveRootfs hs hr (Bool.eq_false_iff.2 himage)

theorem keeps_buildRootfs {source : Link} (hsource : setting.links source) :
    Keeps hashes tools setting (fun _ _ => True) (buildRootfs hashes tools source) s := by
  refine andThen (keeps_fetch hs) fun r s hs hr => ?_
  refine andThen (keeps_reserve hs) fun _ s hs _ => ?_
  refine andThen (keeps_readFile hs) fun cached s hs _ => ?_
  cases cached.filter isCpio with
  | some entry => exact andThen (keeps_transform hs) fun _ s hs _ => pure hs trivial
  | none =>
    refine andThen (keeps_freshRootfs hs ⟨source, hsource, hr.2⟩) fun a s hs ha => ?_
    exact andThen (keeps_publishFile hs (.inl ha)) fun _ s hs _ => pure hs trivial

omit hs

/-! ## Modules -/

theorem expectPlain_eq_ok {ty : ArtifactType} {u : Unit}
    (h : expectPlain ty a = .ok u) : a = ⟨ty, .none, a.content⟩ := by
  simp only [expectPlain, bind_eq_ok, failIf_eq_ok, not_not] at h
  obtain ⟨_, hty, hcompression⟩ := h
  obtain ⟨ty', compression, content⟩ := a
  simp_all

variable {modules : Option Artifact}

theorem extractModules_eq_ok (h : extractModules tools a key = .ok modules) :
    a = cpioArtifact a.content ∧ ∃ content, tools.extractModules a.content = .ok content ∧
      modules = content.map cpioArtifact := by
  simp only [extractModules, bind_eq_ok] at h
  obtain ⟨_, hplain, _, -, content, hcontent, hmodules⟩ := h
  exact ⟨expectPlain_eq_ok hplain, content, hcontent, (pure_eq_ok.1 hmodules).symm⟩

include hs

theorem keeps_extractModulesIfNeeded (ha : FromSource hashes tools setting d a) :
    Keeps hashes tools setting
      (fun modules _ => ModulesFrom hashes tools setting d (modules.map Artifact.content))
      (extractModulesIfNeeded tools a ⟨.modules, d⟩) s := by
  refine andThen (keeps_transform hs) fun modules s hs hmodules => ?_
  obtain ⟨hcpio, content, hcontent, rfl⟩ := extractModules_eq_ok hmodules.2
  have hfrom : ModulesFrom hashes tools setting d content := ⟨a.content, hcpio ▸ ha, hcontent⟩
  cases content with
  | none => exact pure hs hfrom
  | some content =>
    refine andThen (keeps_writeFile hs) fun _ s hs _ => ?_
    exact andThen (keeps_publishFile hs ⟨content, hfrom, rfl⟩) fun _ s hs _ =>
      pure hs hfrom

theorem keeps_cachedModules : Keeps hashes tools setting
      (fun modules s' => modules = (s.lookup key).filter isModules ∧ s'.lookup = s.lookup)
      (cachedModules key) s := by
  refine andThen (keeps_readFile hs) fun entry s' hs' hread => pure hs' ?_
  exact ⟨by rw [hread.1], hread.2⟩

theorem Derived.modulesFrom (h : (s.lookup ⟨.modules, d⟩).filter isModules = some a) :
    ModulesFrom hashes tools setting d (some a.content) := by
  obtain ⟨content, hfrom, rfl⟩ := hs.lookup (Option.filter_eq_some_iff.1 h).1
  exact hfrom

theorem keeps_modulesOf (ha : FromSource hashes tools setting d a) : Keeps hashes tools setting
      (fun modules _ => ModulesFrom hashes tools setting d (modules.map Artifact.content))
      (modulesOf tools a ⟨.modules, d⟩) s := by
  refine andThen (keeps_cachedModules hs) fun modules s' hs' hmodules => ?_
  cases modules with
  | some modules => exact pure hs' (hs.modulesFrom hmodules.1.symm)
  | none => exact keeps_extractModulesIfNeeded hs' ha

omit hs

/-! ## Kernels -/

section

variable (hashes tools setting)

/-- The source is a kernel itself. -/
def RawSource (d : LinkDigest) : Prop :=
  ∃ a, FromSource hashes tools setting d a ∧ isBzImage a = true

/-- `kernel` is what the plan asks for: the entry at `path`, or the source itself. -/
def KernelFrom (d : LinkDigest) (path : Option Text) (kernel : Bytes) : Prop :=
  (∃ a, KernelEntry hashes tools setting d path a ∧ a.content = kernel) ∨
    ∃ a, FromSource hashes tools setting d a ∧ isBzImage a = true ∧ a.content = kernel

end

variable {path : Option Text}

variable {a : Artifact} {plan : ExternalKernelPlan} {key : Key} {s' : Store}

theorem isBzImage_iff : isBzImage a = true ↔ a.artifactType = .fileBzImage := by
  simp [isBzImage]

include hs

theorem Derived.kernel (h : s.lookup ⟨.kernel, kernelRequestDigest hashes d path⟩ = some a)
    (hty : isBzImage a = true) :
    KernelEntry hashes tools setting d path a ∨ FromSource hashes tools setting d a := by
  obtain ⟨d', path', hkey, hrecord⟩ := hs.lookup h
  obtain ⟨rfl, rfl⟩ := kernelRequestDigest_inj hkey
  rw [isBzImage_iff] at hty
  rcases hrecord with hpending | hentry
  · exact .inr (hpending.fromSource (by simp [hty]) (by simp [hty]))
  · exact .inl hentry

theorem Derived.kernelFrom (h : s.lookup ⟨.kernel, kernelRequestDigest hashes d path⟩ = some a)
    (hty : isBzImage a = true) : KernelFrom hashes tools setting d path a.content := by
  rcases hs.kernel h hty with hentry | hsource
  · exact .inl ⟨a, hentry, rfl⟩
  · exact .inr ⟨a, hsource, hty, rfl⟩

theorem keeps_publishTransformed (ha : RecordOk hashes tools setting key a) :
    Keeps hashes tools setting (fun _ _ => True) (publishTransformed key a) s := by
  refine andThen (keeps_readFile hs) fun cached s hs _ => ?_
  cases cached with
  | some _ => exact keeps_replaceFile hs ha
  | none => exact keeps_publishFile hs ha

variable {kernel : Artifact}

omit hs in
theorem extractKernel_eq_ok {p : Text} (h : extractKernel tools p a key = .ok kernel) :
    a = cpioArtifact a.content ∧ kernelEntry tools p a.content = .ok kernel := by
  simp only [extractKernel, bind_eq_ok] at h
  obtain ⟨_, hplain, _, -, requested, hrequested, content, hcontent, hkernel⟩ := h
  refine ⟨expectPlain_eq_ok hplain, ?_⟩
  simp only [kernelEntry, bind_eq_ok]
  exact ⟨requested, hrequested, content, hcontent, hkernel⟩

theorem keeps_kernelOf (ha : FromSource hashes tools setting d a) : Keeps hashes tools setting
      (fun kernel _ => KernelFrom hashes tools setting d path kernel.content)
      (kernelOf tools a path ⟨.kernel, kernelRequestDigest hashes d path⟩) s := by
  refine andThen (keeps_readFile hs) fun cached s' hs' hread => ?_
  cases hcached : cached.filter isBzImage with
  | some kernel =>
    obtain ⟨hkernel, hty⟩ := Option.filter_eq_some_iff.1 hcached
    exact pure hs' (hs.kernelFrom (hread.1.symm.trans hkernel) hty)
  | none =>
    cases path with
    | none => exact throw hs'
    | some p =>
      refine andThen (keeps_transform hs') fun kernel s hs hkernel => ?_
      obtain ⟨hcpio, hentry⟩ := extractKernel_eq_ok hkernel.2
      have hfrom : KernelEntry hashes tools setting d (some p) kernel :=
        ⟨p, a.content, rfl, hcpio ▸ ha, hentry⟩
      refine andThen (keeps_writeFile hs) fun _ s hs _ => ?_
      refine andThen (keeps_publishTransformed hs ⟨d, some p, rfl, .inr hfrom⟩) fun _ s hs _ => ?_
      exact pure hs (.inl ⟨kernel, hfrom, rfl⟩)

theorem keeps_extractKernelResult (ha : FromSource hashes tools setting d a) :
    Keeps hashes tools setting (fun m _ => KernelFrom hashes tools setting d path m.kernel ∧
        ModulesFrom hashes tools setting d m.modules)
      (extractKernelResult tools a path ⟨.kernel, kernelRequestDigest hashes d path⟩ ⟨.modules, d⟩)
      s := by
  refine andThen (keeps_expectCpio hs) fun _ s hs _ => ?_
  refine andThen (keeps_modulesOf hs ha) fun modules s hs hmodules => ?_
  exact andThen (keeps_kernelOf hs ha) fun kernel s hs hkernel => pure hs ⟨hkernel, hmodules⟩

omit hs

/-! ## `build_external` -/

/-- The kernel of the plan is cached as an image and the modules of its source are
not; an image's rootfs is not cached either. -/
def Forgotten (hashes : Hashes) (s : Store) (r : ResolvedSource) (path : Option Text) : Prop :=
  ((s.lookup ⟨.kernel, kernelRequestDigest hashes r.sourceDigest path⟩).filter isBzImage).isSome ∧
    (s.lookup ⟨.modules, r.sourceDigest⟩).filter isModules = none ∧
    (r.isImage = true → (s.lookup ⟨.rootfs, r.sourceDigest⟩).filter isCpio = none)

/-- What a successful call returns. -/
structure Outcome (hashes : Hashes) (tools : Tools) (setting : Setting) (s : Store)
    (r : ResolvedSource) (path : Option Text) (m : MaterializedKernel) : Prop where
  kernel : KernelFrom hashes tools setting r.sourceDigest path m.kernel
  modules : ModulesFrom hashes tools setting r.sourceDigest m.modules ∨
    m.modules = none ∧ (Forgotten hashes s r path ∨ RawSource hashes tools setting r.sourceDigest)
  forgotten : Forgotten hashes s r path → m.modules = none

theorem forgotten_congr (h : s'.lookup = s.lookup) :
    Forgotten hashes s' r path ↔ Forgotten hashes s r path := by
  simp only [Forgotten, h]

theorem not_forgotten_of_miss
    (h : (s.lookup ⟨.kernel, kernelRequestDigest hashes r.sourceDigest path⟩).filter isBzImage = none) :
    ¬ Forgotten hashes s r path := by
  intro hforgotten
  rw [Forgotten, h] at hforgotten
  exact Bool.noConfusion hforgotten.1

variable {r : ResolvedSource}

include hs

theorem Derived.modules_or_none (h : modules = (s.lookup ⟨.modules, d⟩).filter isModules) :
    ModulesFrom hashes tools setting d (modules.map Artifact.content) ∨ modules = none := by
  cases modules with
  | none => exact .inr rfl
  | some a => exact .inl (hs.modulesFrom h.symm)

theorem Derived.rootfs
    (h : (s.lookup ⟨.rootfs, d⟩).filter isCpio = some a) : FromSource hashes tools setting d a := by
  obtain ⟨hlookup, hty⟩ := Option.filter_eq_some_iff.1 h
  have hty : a.artifactType = .containerCpio := by simpa [isCpio] using hty
  rcases hs.lookup hlookup with hsource | hpending
  · exact hsource
  · exact hpending.fromSource (by simp [hty]) (by simp [hty])

theorem keeps_keepKernel (himage : r.isImage = true)
    (hkernel : (s.lookup ⟨.kernel, kernelRequestDigest hashes r.sourceDigest path⟩).filter isBzImage =
      some kernel) : Keeps hashes tools setting (fun m _ => Outcome hashes tools setting s r path m)
      (keepKernel tools kernel ((s.lookup ⟨.rootfs, r.sourceDigest⟩).filter isCpio)
        ⟨.modules, r.sourceDigest⟩) s := by
  obtain ⟨hlookup, hty⟩ := Option.filter_eq_some_iff.1 hkernel
  have hfrom := hs.kernelFrom hlookup hty
  refine andThen (keeps_cachedModules hs) fun modules s' hs' hmodules => ?_
  cases modules with
  | some modules =>
    refine pure hs' ⟨hfrom, .inl (hs.modulesFrom hmodules.1.symm), fun hforgotten => ?_⟩
    exact nomatch hmodules.1.trans hforgotten.2.1
  | none =>
    cases hrootfs : (s.lookup ⟨.rootfs, r.sourceDigest⟩).filter isCpio with
    | none =>
      have hforgotten : Forgotten hashes s r path :=
        ⟨by rw [hkernel]; rfl, hmodules.1.symm, fun _ => hrootfs⟩
      exact pure hs' ⟨hfrom, .inr ⟨rfl, .inl hforgotten⟩, fun _ => rfl⟩
    | some rootfs =>
      refine andThen (keeps_extractModulesIfNeeded hs' (hs.rootfs hrootfs)) fun modules s hs h => ?_
      refine pure hs ⟨hfrom, .inl h, fun hforgotten => ?_⟩
      exact nomatch hrootfs.symm.trans (hforgotten.2.2 himage)

theorem keeps_kernelRootfs {cached : Option Artifact}
    (hr : Resolved hashes setting r) (himage : r.isImage = true)
    (hcached : ∀ a, cached = some a → FromSource hashes tools setting r.sourceDigest a) :
    Keeps hashes tools setting (fun a _ => FromSource hashes tools setting r.sourceDigest a)
      (kernelRootfs hashes tools plan r.link
        ⟨.kernel, kernelRequestDigest hashes r.sourceDigest plan.kernelPath⟩
        ⟨.rootfs, r.sourceDigest⟩ cached) s := by
  cases cached with
  | some a => exact pure hs (hcached a rfl)
  | none =>
    refine andThen (keeps_imageRootfs hr himage (.inr ⟨_, rfl⟩) hs) fun a s hs ha => ?_
    exact andThen (keeps_publishFile hs (.inl (.inl ha))) fun _ s hs _ => pure hs (.inl ha)

theorem keeps_buildFromImage (hr : Resolved hashes setting r) (himage : r.isImage = true) :
    Keeps hashes tools setting (fun m _ => Outcome hashes tools setting s r plan.kernelPath m)
      (buildFromImage hashes tools plan r
        ⟨.kernel, kernelRequestDigest hashes r.sourceDigest plan.kernelPath⟩
        ⟨.modules, r.sourceDigest⟩) s := by
  refine andThen (keeps_reserve hs) fun _ s₀ _ hsame => ?_
  subst hsame
  refine andThen (keeps_readFile hs) fun cachedKernel s₁ hs₁ hkernel => ?_
  refine andThen (keeps_readFile hs₁) fun cachedRootfs s₂ hs₂ hrootfs => ?_
  obtain ⟨rfl, hlookup₁⟩ := hkernel
  obtain ⟨rfl, hlookup₂⟩ := hrootfs
  have hlookup : s₂.lookup = s₀.lookup := hlookup₂.trans hlookup₁
  rw [← hlookup₂, ← hlookup]
  cases hcached : (s₂.lookup ⟨.kernel, kernelRequestDigest hashes r.sourceDigest
      plan.kernelPath⟩).filter isBzImage with
  | some kernel =>
    refine (keeps_keepKernel hs₂ himage hcached).mono fun m _ _ h => ?_
    exact ⟨h.kernel, by simpa only [forgotten_congr hlookup] using h.modules,
      by simpa only [forgotten_congr hlookup] using h.forgotten⟩
  | none =>
    refine andThen (keeps_kernelRootfs hs₂ hr himage (fun a ha => hs₂.rootfs ha))
      fun rootfs s hs hrootfs => ?_
    refine (keeps_extractKernelResult hs hrootfs).mono fun m _ _ h => ?_
    exact ⟨h.1, .inl h.2, fun hforgotten =>
      absurd hforgotten (not_forgotten_of_miss (hlookup ▸ hcached))⟩

theorem keeps_readOrLoad_hit {link : ArtifactLink} {expected : Option ExpectedDigest}
    {linkDigest : M LinkDigest} (ha : s.lookup key = some a) :
    Keeps hashes tools setting (fun b s' => b = a ∧ s'.lookup = s.lookup)
      (readOrLoad hashes tools key link expected linkDigest) s := by
  refine andThen (keeps_readFile hs) fun entry s' hs' hread => ?_
  obtain ⟨rfl, hlookup⟩ := hread
  rw [ha]
  exact pure hs' ⟨rfl, hlookup⟩

theorem keeps_normalizeArtifact_bzImage (hty : isBzImage a = true)
    (hplain : a.artifactCompression = .none) :
    Keeps hashes tools setting (fun b s' => b = a ∧ s' = s) (normalizeArtifact tools key a) s := by
  have hdecompress : decompressIfNeeded tools key a = Pure.pure a := if_pos hplain
  have hconvert : convertIfNeeded tools key a = Pure.pure a := if_neg (by simp [isBzImage_iff.1 hty])
  unfold normalizeArtifact
  rw [hdecompress]
  refine andThen (pure (Q := fun b s' => b = a ∧ s' = s) hs ⟨rfl, rfl⟩) fun b s' hs' hb => ?_
  obtain ⟨rfl, rfl⟩ := hb
  rw [hconvert]
  exact pure hs ⟨rfl, rfl⟩

theorem Derived.kernel_compression
    (h : s.lookup ⟨.kernel, kernelRequestDigest hashes d path⟩ = some a)
    (hty : isBzImage a = true) : a.artifactCompression = .none := by
  obtain ⟨d', path', hkey, hrecord⟩ := hs.lookup h
  rcases hrecord with ⟨a₀, -, -, hplain⟩ | ⟨p, tree, -, -, hentry⟩
  · exact hplain (by simp [isBzImage_iff.1 hty])
  · simp only [kernelEntry, bind_eq_ok] at hentry
    obtain ⟨_, -, _, -, hentry⟩ := hentry
    cases hentry
    rfl

theorem Derived.pending (h : s.lookup ⟨.kernel, kernelRequestDigest hashes d path⟩ = some a)
    (hty : isBzImage a = false) : Pending hashes tools setting d a := by
  obtain ⟨d', path', hkey, hrecord⟩ := hs.lookup h
  obtain ⟨rfl, rfl⟩ := kernelRequestDigest_inj hkey
  rcases hrecord with hpending | ⟨p, tree, -, -, hentry⟩
  · exact hpending
  · simp only [kernelEntry, bind_eq_ok] at hentry
    obtain ⟨_, -, _, -, hentry⟩ := hentry
    cases hentry
    exact nomatch hty

theorem keeps_buildFromArchive_hit (himage : r.isImage = false)
    (hlookup : s.lookup ⟨.kernel, kernelRequestDigest hashes r.sourceDigest plan.kernelPath⟩ =
      some kernel) (hty : isBzImage kernel = true) :
    Keeps hashes tools setting (fun m _ => Outcome hashes tools setting s r plan.kernelPath m)
      (buildFromArchive hashes tools plan r
        ⟨.kernel, kernelRequestDigest hashes r.sourceDigest plan.kernelPath⟩
        ⟨.modules, r.sourceDigest⟩) s := by
  refine andThen (keeps_readOrLoad_hit hs hlookup) fun a s₁ hs₁ ha => ?_
  obtain ⟨rfl, hlookup₁⟩ := ha
  refine andThen (keeps_normalizeArtifact_bzImage hs₁ hty (hs.kernel_compression hlookup hty))
    fun b s₂ _ hb => ?_
  obtain ⟨rfl, rfl⟩ := hb
  rw [finishArchive, if_pos hty]
  refine andThen (keeps_cachedModules hs₁) fun modules s₃ hs₃ hmodules => pure hs₃ ?_
  have hcached : modules = (s.lookup ⟨.modules, r.sourceDigest⟩).filter isModules := by
    rw [hmodules.1, hlookup₁]
  refine ⟨hs.kernelFrom hlookup hty, ?_, fun hforgotten => ?_⟩
  · rcases hs.modules_or_none hcached with hfrom | rfl
    · exact .inl hfrom
    · refine .inr ⟨rfl, .inl ⟨?_, hcached.symm, fun h => ?_⟩⟩
      · rw [hlookup, Option.filter_some, if_pos hty]
        rfl
      · exact nomatch himage.symm.trans h
  · rw [hcached, hforgotten.2.1]
    rfl

theorem keeps_finishArchive (ha : FromSource hashes tools setting d a) : Keeps hashes tools setting
      (fun m _ => KernelFrom hashes tools setting d path m.kernel ∧
        (ModulesFrom hashes tools setting d m.modules ∨
          m.modules = none ∧ RawSource hashes tools setting d))
      (finishArchive tools a path ⟨.kernel, kernelRequestDigest hashes d path⟩ ⟨.modules, d⟩) s := by
  unfold finishArchive
  split
  · next hty =>
    refine andThen (keeps_cachedModules hs) fun modules s' hs' hmodules => pure hs' ?_
    refine ⟨.inr ⟨a, ha, hty, rfl⟩, ?_⟩
    rcases hs.modules_or_none hmodules.1 with hfrom | rfl
    · exact .inl hfrom
    · exact .inr ⟨rfl, a, ha, hty⟩
  · split
    · exact throw hs
    · exact (keeps_extractKernelResult hs ha).mono fun m _ _ h => ⟨h.1, .inl h.2⟩

theorem keeps_buildFromArchive (hr : Resolved hashes setting r) (himage : r.isImage = false) :
    Keeps hashes tools setting (fun m _ => Outcome hashes tools setting s r plan.kernelPath m)
      (buildFromArchive hashes tools plan r
        ⟨.kernel, kernelRequestDigest hashes r.sourceDigest plan.kernelPath⟩
        ⟨.modules, r.sourceDigest⟩) s := by
  cases hcached : (s.lookup ⟨.kernel, kernelRequestDigest hashes r.sourceDigest
      plan.kernelPath⟩).filter isBzImage with
  | some kernel =>
    obtain ⟨hlookup, hty⟩ := Option.filter_eq_some_iff.1 hcached
    exact keeps_buildFromArchive_hit hs himage hlookup hty
  | none =>
    have hrecord : ∀ a, Pending hashes tools setting r.sourceDigest a →
        RecordOk hashes tools setting ⟨.kernel, kernelRequestDigest hashes r.sourceDigest
          plan.kernelPath⟩ a := fun a ha => ⟨_, _, rfl, .inl ha⟩
    refine andThen (keeps_readOrLoad (P := Pending hashes tools setting r.sourceDigest) hs
      (fun s hs => (keeps_fetch hs).mono fun _ _ _ _ => trivial) (fun a ha => ?_) fun a ha => ?_)
      fun a s' hs' ha => ?_
    · rw [ha] at hcached
      exact hs.pending ha (by simpa using hcached)
    · have hpending : Pending hashes tools setting r.sourceDigest a :=
        ArchiveLoaded.pending_self ⟨r, hr, himage, rfl, ha⟩
      exact ⟨hrecord a hpending, hpending⟩
    · refine andThen (keeps_normalizeArtifact hs' fun b hform hb =>
        hrecord b (ha.stage hform hb)) fun b s'' hs'' hb => ?_
      refine (keeps_finishArchive hs'' (ha.normalize hb)).mono fun m _ _ h => ?_
      refine ⟨h.1, h.2.imp_right fun hnone => ⟨hnone.1, .inr hnone.2⟩, fun hforgotten => ?_⟩
      exact absurd hforgotten (not_forgotten_of_miss hcached)

/-- `build_external` keeps every record derived; its result is that of the source,
apart from modules that are forgotten. -/
theorem keeps_buildExternal (hlink : setting.links plan.link) : Keeps hashes tools setting
      (fun m _ => ∃ r, Yields setting.answers (resolveSource hashes plan.link) (.ok r) ∧
        Outcome hashes tools setting s r plan.kernelPath m)
      (buildExternal hashes tools plan) s := by
  refine andThen (keeps_fetch hs) fun r s₀ _ hr => ?_
  obtain ⟨rfl, hyields⟩ := hr
  refine andThen (keeps_reserve hs) fun _ s₁ _ hsame => ?_
  obtain rfl := hsame
  refine andThen (keeps_reserve hs) fun _ s₂ _ hsame => ?_
  obtain rfl := hsame
  have hresolved : Resolved hashes setting r := ⟨plan.link, hlink, hyields⟩
  split
  · next himage =>
    exact (keeps_buildFromImage hs hresolved himage).mono fun m _ _ h => ⟨r, hyields, h⟩
  · next himage =>
    exact (keeps_buildFromArchive hs hresolved (Bool.eq_false_iff.2 himage)).mono
      fun m _ _ h => ⟨r, hyields, h⟩

omit hs

/-! ## Histories -/

/-- What can happen to the cache: a call of a service, which may fail or be cut off
at any point, or the loss of records, blueprints and files. -/
inductive Event
  | buildRootfs (source : Link)
  | buildExternal (plan : ExternalKernelPlan)
  | lose

/-- Records and blueprints are gone; on disk there may be anything. -/
def Lost (s s' : Store) : Prop :=
  (∀ key a, s'.records key = some a → s.records key = some a) ∧
    ∀ key b, s'.blueprints key = some b → s.blueprints key = some b

/-- One build, or the loss of rows and files. -/
def happens (hashes : Hashes) (tools : Tools) (setting : Setting) (s : Store) (event : Event)
    (s' : Store) : Prop :=
  match event with
  | .buildRootfs source => setting.links source ∧
      ∃ out, Exec setting.world (buildRootfs hashes tools source) s out s'
  | .buildExternal plan => setting.links plan.link ∧
      ∃ out, Exec setting.world (buildExternal hashes tools plan) s out s'
  | .lose => Lost s s'

/-- Histories of an empty cache. -/
abbrev History (hashes : Hashes) (tools : Tools) (setting : Setting) : List Event → Store → Prop :=
  Run.Trace (happens hashes tools setting) Store.empty

include hs in
theorem Derived.happens {event : Event}
    (h : happens hashes tools setting s event s') : Derived hashes tools setting s' := by
  cases event with
  | buildRootfs source =>
    obtain ⟨hlink, out, hrun⟩ := h
    exact (keeps_buildRootfs hs hlink).keeps hrun
  | buildExternal plan =>
    obtain ⟨hlink, out, hrun⟩ := h
    exact (keeps_buildExternal hs hlink).keeps hrun
  | lose => exact hs.mono h.1 h.2

theorem History.derived {events : List Event} (h : History hashes tools setting events s) :
    Derived hashes tools setting s :=
  Run.Trace.invariant (I := fun _ s => Derived hashes tools setting s) derived_empty
    (fun _ _ _ _ hs hstep => hs.happens hstep) h

/-! ## Running a call -/

/-- An operation that fails only where it has to. -/
def Store.serve (s : Store) (op : StoreOp) : op.Ans × Store :=
  match s.apply op with
  | .ok (v, s') => (.ok v, s')
  | .error e => (.error (.index e), s)

theorem Store.serve_world (s : Store) (op : StoreOp) :
    Store.world op s (s.serve op).1 (s.serve op).2 := by
  unfold Store.serve
  split
  · next v s' happly => exact .inl ⟨v, happly, rfl⟩
  · exact .inr ⟨⟨_, rfl⟩, rfl⟩

def handler (answer : (op : Outside) → op.Ans) :
    (op : Outside ⊕ StoreOp) → Store → Sum.rec Outside.Ans StoreOp.Ans op × Store
  | .inl op, s => (answer op, s)
  | .inr op, s => s.serve op

theorem exec_handler {answer : (op : Outside) → op.Ans}
    (h : ∀ op, setting.answers op (answer op)) {α : Type} (p : M α) (s : Store) :
    Exec setting.world p s (some (Prog.interp (handler answer) p s).1)
      (Prog.interp (handler answer) p s).2 := by
  refine exec_interp (fun op s => ?_) p s
  cases op with
  | inl op => exact ⟨rfl, h op⟩
  | inr op => exact s.serve_world op

end Jyth.Materialize
