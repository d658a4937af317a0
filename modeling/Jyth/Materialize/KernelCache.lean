import Jyth.Materialize.Services

/-!
# Transparency of the kernel cache

Compared with a call on an empty cache, a call of `build_external` on a cache of
any history returns the same kernel, and the same modules unless they were
forgotten: if the kernel of a plan is still cached and the modules of its source
are not, the call returns no modules, though the source has some.

    m = m₀  ↔  ¬ Forgotten hashes s r plan.kernelPath     (buildExternal_eq_fresh_iff)

The outside is at rest (`Origin`): a request is always answered in the same way.
-/

namespace Jyth.Materialize

open Format Effect Registry Registry.Sample
open Jyth.Image (Report)

/-- What the outside holds while nothing there changes. -/
structure Origin where
  metadata : Text → Except Failure (BitVec 128)
  readLocal : Text → Except Failure Bytes
  head : Text → Except Failure (Option (BitVec 128))
  headManifest : Text → Except Failure ProbeReply
  getManifest : Text → Except Failure ManifestReply
  getBody : Text → Except Failure BodyReply

namespace Origin

def answer (o : Origin) : (op : Outside) → op.Ans
  | .metadata path => o.metadata path
  | .readLocal path => o.readLocal path
  | .head url => o.head url
  | .headManifest url => o.headManifest url
  | .getManifest url _ => o.getManifest url
  | .getBody url => o.getBody url
  | .work => .ok ()

/-- The outside at rest, with the sources in use. -/
def setting (o : Origin) (links : Link → Prop) : Setting := ⟨fun op r => r = o.answer op, links⟩

end Origin

section

variable {hashes : Hashes} {tools : Tools} {o : Origin} {links : Link → Prop}

theorem Origin.yields_unique {α : Type} {p : Fetch α} {a a' : α}
    (h : Yields (o.setting links).answers p (.ok a))
    (h' : Yields (o.setting links).answers p (.ok a')) : a = a' :=
  Except.ok.inj (Yields.unique (fun _ _ _ hr hr' => hr.trans hr'.symm) h h')

/-! ## Sources with one content -/

/-- The sources in use with the identity `d` all give the same artifact. -/
def Identifies (hashes : Hashes) (tools : Tools) (setting : Setting) (d : LinkDigest) : Prop :=
  ∀ a a', FromSource hashes tools setting d a → FromSource hashes tools setting d a' → a = a'

variable {path : Option Text}

section Identified

variable {setting : Setting} {d : LinkDigest} (hone : Identifies hashes tools setting d)
include hone

theorem Identifies.tree {tree tree' : Bytes} (h : FromSource hashes tools setting d (cpioArtifact tree))
    (h' : FromSource hashes tools setting d (cpioArtifact tree')) : tree = tree' :=
  congrArg Artifact.content (hone _ _ h h')

theorem Identifies.modules {modules modules' : Option Bytes}
    (h : ModulesFrom hashes tools setting d modules)
    (h' : ModulesFrom hashes tools setting d modules') : modules = modules' := by
  obtain ⟨tree, htree, hmodules⟩ := h
  obtain ⟨tree', htree', hmodules'⟩ := h'
  obtain rfl := hone.tree htree htree'
  exact Except.ok.inj (hmodules.symm.trans hmodules')

variable {modules : Option Bytes}

theorem Identifies.not_raw (h : ModulesFrom hashes tools setting d modules) :
    ¬ RawSource hashes tools setting d := by
  rintro ⟨a, ha, hty⟩
  obtain ⟨tree, htree, -⟩ := h
  rw [hone _ _ ha htree] at hty
  exact Bool.noConfusion hty

theorem Identifies.kernel {kernel kernel' : Bytes}
    (hmodules : ModulesFrom hashes tools setting d modules)
    (h : KernelFrom hashes tools setting d path kernel)
    (h' : KernelFrom hashes tools setting d path kernel') : kernel = kernel' := by
  have hentry : ∀ {k}, KernelFrom hashes tools setting d path k →
      ∃ a, KernelEntry hashes tools setting d path a ∧ a.content = k := by
    rintro k (hentry | ⟨a, ha, hty, -⟩)
    · exact hentry
    · exact absurd ⟨a, ha, hty⟩ (hone.not_raw hmodules)
  obtain ⟨a, ⟨p, tree, rfl, htree, ha⟩, rfl⟩ := hentry h
  obtain ⟨a', ⟨p', tree', hp, htree', ha'⟩, rfl⟩ := hentry h'
  obtain rfl := Option.some.inj hp
  obtain rfl := hone.tree htree htree'
  rw [Except.ok.inj (ha.symm.trans ha')]

end Identified

/-! ## Transparency -/

variable {r : ResolvedSource} {link : Link} {setting : Setting}

theorem Outcome.fresh_modules
    {m : MaterializedKernel} (h : Outcome hashes tools setting Store.empty r path m)
    (hcarries : m.modules ≠ none) : ModulesFrom hashes tools setting r.sourceDigest m.modules := by
  rcases h.modules with hfrom | ⟨hnone, -⟩
  · exact hfrom
  · exact absurd hnone hcarries

/-- After any history, a call on a source that carries modules returns what a call on
an empty cache returns, except if the modules are forgotten. -/
theorem buildExternal_eq_fresh_iff {events : List Event} {s : Store}
    (hhistory : History hashes tools (o.setting links) events s)
    {plan : ExternalKernelPlan} (hlink : links plan.link) {r : ResolvedSource}
    (hr : Yields (o.setting links).answers (resolveSource hashes plan.link) (.ok r))
    (hone : Identifies hashes tools (o.setting links) r.sourceDigest)
    {m m₀ : MaterializedKernel} {s' s₀ : Store}
    (hcall : Exec (o.setting links).world (buildExternal hashes tools plan) s (some (.ok m)) s')
    (hfresh : Exec (o.setting links).world (buildExternal hashes tools plan) Store.empty
      (some (.ok m₀)) s₀) (hcarries : m₀.modules ≠ none) :
    m = m₀ ↔ ¬ Forgotten hashes s r plan.kernelPath := by
  obtain ⟨r', hr', hout⟩ := ((keeps_buildExternal hhistory.derived hlink).exec hcall).2
  obtain rfl := Origin.yields_unique hr hr'
  obtain ⟨r', hr', hout₀⟩ := ((keeps_buildExternal derived_empty hlink).exec hfresh).2
  obtain rfl := Origin.yields_unique hr hr'
  have hfrom := hout₀.fresh_modules hcarries
  constructor
  · rintro rfl hforgotten
    exact hcarries (hout.forgotten hforgotten)
  · intro hkept
    have hmodules : ModulesFrom hashes tools (o.setting links) r.sourceDigest m.modules := by
      rcases hout.modules with hmodules | ⟨-, hforgotten | hraw⟩
      · exact hmodules
      · exact absurd hforgotten hkept
      · exact absurd hraw (hone.not_raw hfrom)
    obtain ⟨kernel, modules⟩ := m
    obtain ⟨kernel₀, modules₀⟩ := m₀
    obtain rfl : kernel = kernel₀ := hone.kernel hfrom hout.kernel hout₀.kernel
    obtain rfl : modules = modules₀ := hone.modules hmodules hfrom
    rfl

/-! ## Sources that are addressed by their content -/

/-- Payloads and local files: the identity holds the hash of the content. -/
def Link.addressed : Link → Bool
  | .bytes _ | .local _ => true
  | .http _ | .image _ => false

theorem isImage_of_addressed (haddressed : link.addressed = true)
    (hr : Yields setting.answers (resolveSource hashes link) (.ok r)) : r.isImage = false := by
  cases link with
  | bytes payload =>
    simp only [resolveSource, resolveLink, yields_bindE, yields_pureE] at hr
    obtain ⟨_, -, rfl⟩ := hr
    rfl
  | «local» path =>
    simp only [resolveSource, resolveLink, yields_bindE, yields_pureE] at hr
    obtain ⟨_, -, _, -, rfl⟩ := hr
    rfl
  | http url | image reference => cases haddressed

theorem linkHash_of_addressed {linkSize : BitVec 128}
    {expected : Option ExpectedDigest} {content : Bytes} (haddressed : link.addressed = true)
    (hr : Yields (o.setting links).answers (resolveSource hashes link) (.ok r))
    (hcopy : Yields (o.setting links).answers (copy hashes r.link linkSize expected) (.ok content)) :
    r.sourceDigest.linkHash = hashes.blake3 content := by
  cases link with
  | bytes payload =>
    simp only [resolveSource, resolveLink, linkDigest, yields_bindE, yields_pureE] at hr
    obtain ⟨_, rfl, rfl⟩ := hr
    simp only [copy, copyBytes, yields_bindE, yields_pureE] at hcopy
    obtain ⟨_, -, _, -, rfl⟩ := hcopy
    rfl
  | «local» path =>
    simp only [resolveSource, resolveLink, linkDigest, yields_bindE, yields_pureE] at hr
    obtain ⟨size, -, _, ⟨found, hfound, rfl⟩, rfl⟩ := hr
    simp only [copy, copyLocal, yields_bindE, yields_pureE] at hcopy
    obtain ⟨_, -, _, -, read, hread, _, -, rfl⟩ := hcopy
    exact congrArg hashes.blake3 (Origin.yields_unique hfound hread)
  | http url | image reference => cases haddressed

section Addressed

variable (hlinks : ∀ link, links link → link.addressed = true)
include hlinks

theorem FromSource.archive {d : LinkDigest} {a : Artifact}
    (h : FromSource hashes tools (o.setting links) d a) :
    ∃ a₀, ArchiveLoaded hashes tools (o.setting links) d a₀ ∧ normalForm tools a₀ = .ok a := by
  rcases h with ⟨tree, ⟨b, trees, ⟨r, _, _, _, ⟨link, hlink, hr⟩, himage, -⟩, -⟩, -⟩ | harchive
  · exact nomatch (isImage_of_addressed (hlinks link hlink) hr).symm.trans himage
  · exact harchive

theorem ArchiveLoaded.unique {d : LinkDigest} {a a' : Artifact}
    (h : ArchiveLoaded hashes tools (o.setting links) d a)
    (h' : ArchiveLoaded hashes tools (o.setting links) d a') : a = a' := by
  obtain ⟨r, ⟨link, hlink, hr⟩, -, rfl, hload⟩ := h
  obtain ⟨r', ⟨link', hlink', hr'⟩, -, hd, hload'⟩ := h'
  have hhash := linkHash_of_addressed (hlinks link hlink) hr hload.copied.1
  have hhash' := linkHash_of_addressed (hlinks link' hlink') hr' hload'.copied.1
  have hcontent : a.content = a'.content := hashes.blake3_injective (hhash.symm.trans (hd ▸ hhash'))
  have hdetected := hload.copied.2.symm.trans (hcontent ▸ hload'.copied.2)
  obtain ⟨ty, compression, content⟩ := a
  obtain ⟨ty', compression', content'⟩ := a'
  obtain rfl : content = content' := hcontent
  cases hdetected
  rfl

theorem identifies_of_addressed (d : LinkDigest) : Identifies hashes tools (o.setting links) d := by
  intro a a' h h'
  obtain ⟨a₀, h₀, hform⟩ := h.archive hlinks
  obtain ⟨a₀', h₀', hform'⟩ := h'.archive hlinks
  obtain rfl := h₀.unique hlinks h₀'
  exact Except.ok.inj (hform.symm.trans hform')

/-- **Builds agree.**  After any two histories, two builds of sources with one identity, addressed
by their content, return one kernel if one of them comes with modules; the other then comes with
the same modules or with none. -/
theorem builds_agree {events events' : List Event} {s s' t t' : Store}
    (hs : History hashes tools (o.setting links) events s)
    (hs' : History hashes tools (o.setting links) events' s') {plan plan' : ExternalKernelPlan}
    (hlink : links plan.link) (hlink' : links plan'.link) {r r' : ResolvedSource}
    (hr : Yields (o.setting links).answers (resolveSource hashes plan.link) (.ok r))
    (hr' : Yields (o.setting links).answers (resolveSource hashes plan'.link) (.ok r'))
    (hdigest : r'.sourceDigest = r.sourceDigest) (hpath : plan'.kernelPath = plan.kernelPath)
    {m m' : MaterializedKernel}
    (hcall : Exec (o.setting links).world (buildExternal hashes tools plan) s (some (.ok m)) t)
    (hcall' : Exec (o.setting links).world (buildExternal hashes tools plan') s' (some (.ok m')) t')
    (hcarries : m.modules ≠ none) :
    m'.kernel = m.kernel ∧ (m'.modules = m.modules ∨ m'.modules = none) := by
  obtain ⟨_, hyields, hout⟩ := ((keeps_buildExternal hs.derived hlink).exec hcall).2
  obtain rfl := Origin.yields_unique hr hyields
  obtain ⟨_, hyields', hout'⟩ := ((keeps_buildExternal hs'.derived hlink').exec hcall').2
  obtain rfl := Origin.yields_unique hr' hyields'
  obtain ⟨hkernel', hmodules', -⟩ := hout'
  rw [hdigest, hpath] at hkernel'
  rw [hdigest] at hmodules'
  have hone : Identifies hashes tools (o.setting links) r.sourceDigest :=
    identifies_of_addressed hlinks _
  have hfrom := hout.modules.resolve_right fun h => hcarries h.1
  exact ⟨hone.kernel hfrom hkernel' hout.kernel,
    hmodules'.imp (fun h => hone.modules h hfrom) And.left⟩

end Addressed

/-! ## A kernel without its modules -/

theorem lost_remove (s : Store) (key : Key) :
    Lost s { s with records := s.records.remove key } := by
  refine ⟨fun key' a h => ?_, fun _ _ h => h⟩
  replace h := (Table.remove_apply _ _ _).symm.trans h
  split at h
  · cases h
  · exact h

end

namespace Sample

/-- Every file is an archive with a kernel and modules. -/
def tools : Tools where
  parseUrl _ := none
  parseImage _ := none
  parseIndex _ := none
  hostArch := .amd64
  detect _ := some ⟨.containerCpio, .none⟩
  detect_compression := @Detected.containerCpio_compression
  decompress _ content := .ok content
  convert content := .ok content
  flatten trees := .ok trees.flatten
  extractKernel _ tree := .ok (tree ++ [1])
  extractModules tree := .ok (some (tree ++ [2]))
  validateCpio _ := .ok ()

def origin : Origin where
  metadata _ := .error .link
  readLocal _ := .error .link
  head _ := .error .link
  headManifest _ := .error .link
  getManifest _ := .error .link
  getBody _ := .error .link

def plan : ExternalKernelPlan := ⟨.bytes [7], some (utf8 "vmlinuz")⟩

def source : ResolvedSource := ⟨.bytes [7] 1, false, ⟨[7], 1⟩⟩

def links (link : Link) : Prop := link = .bytes [7]

def call (s : Store) : Except Failure MaterializedKernel × Store :=
  Prog.interp (handler origin.answer) (buildExternal Registry.Sample.hashes tools plan) s

def filled : Store := (call Store.empty).2

/-- The record of the modules is lost. -/
def thinned : Store := { filled with records := filled.records.remove ⟨.modules, source.sourceDigest⟩ }

abbrev world : World Store (Outside ⊕ StoreOp) (Sum.rec Outside.Ans StoreOp.Ans) :=
  (origin.setting links).world

theorem call_empty : Exec world (buildExternal hashes tools plan) Store.empty
    (some (.ok ⟨[7, 1], some [7, 2]⟩)) filled := by
  have hresult : (call Store.empty).1 = .ok ⟨[7, 1], some [7, 2]⟩ := by decide +kernel
  exact hresult ▸ exec_handler (fun _ => rfl) _ Store.empty

theorem call_thinned : Exec world (buildExternal hashes tools plan) thinned
    (some (.ok ⟨[7, 1], none⟩)) (call thinned).2 := by
  have hresult : (call thinned).1 = .ok ⟨[7, 1], none⟩ := by decide +kernel
  exact hresult ▸ exec_handler (fun _ => rfl) _ thinned

theorem lost_thinned : Lost filled thinned := lost_remove filled _

theorem history_thinned : History hashes tools (origin.setting links)
    [.buildExternal plan, .lose] thinned :=
  .snoc (.snoc .nil ⟨rfl, _, call_empty⟩) lost_thinned

end Sample

open Sample in
/-- After a successful call and the loss of one record, the same call returns the
kernel without the modules it returned before. -/
theorem buildExternal_forgets_modules : ∃ (m m₀ : MaterializedKernel) (s' : Store),
      Exec world (buildExternal hashes tools plan) Store.empty (some (.ok m₀)) filled ∧
      Lost filled thinned ∧ Exec world (buildExternal hashes tools plan) thinned (some (.ok m)) s' ∧
      m₀.modules ≠ none ∧ m.modules = none :=
  ⟨_, _, _, call_empty, lost_thinned, call_thinned, by decide, rfl⟩

open Sample in
theorem forgotten_thinned : Forgotten hashes thinned source plan.kernelPath := by
  by_contra hkept
  have hlink : links plan.link := rfl
  have hr : Yields (origin.setting links).answers
      (resolveSource hashes plan.link) (.ok source) := rfl
  have hone : Identifies hashes tools (origin.setting links) source.sourceDigest :=
    identifies_of_addressed (fun link (h : link = .bytes [7]) => h ▸ rfl) _
  have hsame := (buildExternal_eq_fresh_iff history_thinned hlink hr hone call_thinned call_empty
    (by decide)).2 hkept
  exact absurd hsame (by decide)

open Sample in
theorem builds_agree_thinned : ∃ m t, Exec world (buildExternal hashes tools plan) thinned
    (some (.ok m)) t ∧ m.kernel = [7, 1] ∧ (m.modules = some [7, 2] ∨ m.modules = none) := by
  have hlink : links plan.link := rfl
  have hr : Yields (origin.setting links).answers
      (resolveSource hashes plan.link) (.ok source) := rfl
  have hlinks : ∀ link, links link → link.addressed = true := fun link h => h ▸ rfl
  exact ⟨_, _, call_thinned, builds_agree hlinks .nil history_thinned hlink hlink hr hr rfl rfl
    call_empty call_thinned (by decide)⟩

end Jyth.Materialize
