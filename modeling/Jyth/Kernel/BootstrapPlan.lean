import Jyth.Kernel.RequestDigests

/-!
# The bootstrap plan

`bootstrap_builder` and `bootstrap_args` of `build/kernel_compile.rs`: the files put into
the build VM and the arguments of its script.  A complete configuration is one of the
files; a fragment is hashed into the cache key but not delivered
(`fragment_not_delivered`).
-/

namespace Jyth.Kernel

open Format Jyth.Image List

structure InjectedFile where
  path : Bytes
  content : Bytes
  permissions : UInt8
deriving DecidableEq

/-- The files and arguments for the build in the guest. -/
structure BootstrapPlan where
  files : List InjectedFile
  args : List Bytes
deriving DecidableEq

def buildScriptGuestPath : Bytes := utf8 "/usr/local/bin/build-kernel.sh"
def configGuestPath : Bytes := utf8 "/.config.host"

/-- The files of the plan; `script` is the build script compiled in. -/
def bootstrapBuilder (script : Bytes) (spec : CustomKernelSpec) : List InjectedFile :=
  ⟨buildScriptGuestPath, script, 0b111⟩ ::
    if spec.config.mode = .complete then [⟨configGuestPath, spec.config.bytes.1, 0b110⟩] else []

/-- The arguments; a pin that is not SHA-256 is a panic. -/
def bootstrapArgs (spec : CustomKernelSpec) : Option (List Bytes) :=
  match spec.source.digest with
  | .sha256 bytes =>
    some ([buildScriptGuestPath, spec.source.version.canonical.1, spec.source.url.1,
      Registry.Hashes.hexLower bytes.1] ++
        if spec.config.mode = .complete then [configGuestPath] else [])
  | .sha512 _ | .blake3 _ => none

def bootstrapPlan (script : Bytes) (spec : CustomKernelSpec) : Option BootstrapPlan :=
  (bootstrapArgs spec).map (⟨bootstrapBuilder script spec, ·⟩)

theorem bootstrapArgs_inj {spec spec' : CustomKernelSpec} {args : List Bytes}
    (h : bootstrapArgs spec = some args) (h' : bootstrapArgs spec' = some args) :
    spec.source = spec'.source := by
  obtain ⟨⟨version, url, digest⟩, config⟩ := spec
  obtain ⟨⟨version', url', digest'⟩, config'⟩ := spec'
  cases digest with
  | sha256 bytes =>
    cases digest' with
    | sha256 bytes' =>
      have hargs := Option.some.inj (h.trans h'.symm)
      obtain ⟨hversion, hargs⟩ := cons.inj (cons.inj hargs).2
      obtain ⟨hurl, hargs⟩ := cons.inj hargs
      have hpairs := congrArg Registry.hexPairs (cons.inj hargs).1
      rw [Registry.hexPairs_hexLower, Registry.hexPairs_hexLower] at hpairs
      obtain rfl := KernelVersion.canonical_inj (Subtype.ext hversion)
      obtain rfl := Subtype.ext hurl
      obtain rfl := Subtype.ext (Option.some.inj hpairs)
      rfl
    | _ => cases h'
  | _ => cases h

variable {script : Bytes} {spec : CustomKernelSpec} {plan : BootstrapPlan}

/-- What a plan determines: the source, the mode and, of a complete configuration, the bytes. -/
theorem bootstrapPlan_eq_iff (hplan : bootstrapPlan script spec = some plan)
    (spec' : CustomKernelSpec) : bootstrapPlan script spec' = some plan ↔
      spec'.source = spec.source ∧ spec'.config.mode = spec.config.mode ∧
        (spec.config.mode = .complete → spec'.config.bytes = spec.config.bytes) := by
  obtain ⟨args, hargs, rfl⟩ := Option.map_eq_some_iff.1 hplan
  constructor
  · intro hplan'
    obtain ⟨args', hargs', heq⟩ := Option.map_eq_some_iff.1 hplan'
    obtain ⟨hfiles, rfl⟩ := BootstrapPlan.mk.inj heq
    refine ⟨bootstrapArgs_inj hargs' hargs, ?_⟩
    obtain ⟨source, mode, bytes⟩ := spec
    obtain ⟨source', mode', bytes'⟩ := spec'
    cases mode <;> cases mode'
    · exact ⟨rfl, nofun⟩
    · cases hfiles
    · cases hfiles
    · exact ⟨rfl, fun _ => Subtype.ext (InjectedFile.mk.inj (cons.inj (cons.inj hfiles).2).1).2.1⟩
  · obtain ⟨source, mode, bytes⟩ := spec
    obtain ⟨source', mode', bytes'⟩ := spec'
    rintro ⟨rfl, rfl, hbytes⟩
    cases mode' with
    | fragment => exact hplan
    | complete =>
      obtain rfl := hbytes rfl
      exact hplan

theorem config_delivered_iff (hplan : bootstrapPlan script spec = some plan) :
    (configGuestPath ∈ plan.args ∧ ∃ file ∈ plan.files,
      file.path = configGuestPath ∧ file.content = spec.config.bytes.1) ↔
        spec.config.mode = .complete := by
  obtain ⟨args, hargs, rfl⟩ := Option.map_eq_some_iff.1 hplan
  obtain ⟨source, mode, bytes⟩ := spec
  obtain ⟨version, url, digest⟩ := source
  cases digest with
  | sha256 digest =>
    cases hargs
    cases mode with
    | fragment =>
      refine ⟨fun ⟨_, file, hfile, hpath, _⟩ => ?_, nofun⟩
      rw [mem_singleton.1 hfile] at hpath
      exact absurd hpath (show buildScriptGuestPath ≠ configGuestPath by decide)
    | complete =>
      exact ⟨fun _ => rfl, fun _ => ⟨mem_append_right _ mem_cons_self, _,
        mem_cons_of_mem _ mem_cons_self, rfl, rfl⟩⟩
  | _ => cases hargs

/-- **What the plan determines.**  Version, URL, digest of the source and mode always; the whole
specification, and with it the digest of the request, exactly if the configuration is complete.
Just then the configuration is handed to the script. -/
theorem plan_determines_spec_iff (blake3 : Bytes → Hash) (script : Bytes) (r : CustomRequest)
    (plan : BootstrapPlan) (hplan : bootstrapPlan script r.spec = some plan) :
    (∀ spec', bootstrapPlan script spec' = some plan →
      spec'.source = r.spec.source ∧ spec'.config.mode = r.spec.config.mode) ∧
    ((∀ spec', bootstrapPlan script spec' = some plan → spec' = r.spec) ↔
      r.spec.config.mode = .complete) ∧
    ((configGuestPath ∈ plan.args ∧ ∃ file ∈ plan.files,
      file.path = configGuestPath ∧ file.content = r.spec.config.bytes.1) ↔
        r.spec.config.mode = .complete) ∧
    (r.spec.config.mode = .complete → ∀ r' : CustomRequest, r'.identity = r.identity →
      bootstrapPlan script r'.spec = some plan →
        customRequestDigest blake3 r' = customRequestDigest blake3 r) := by
  have hspec : ∀ spec', bootstrapPlan script spec' = some plan →
      r.spec.config.mode = .complete → spec' = r.spec := by
    intro spec' hplan' hcomplete
    obtain ⟨hsource, hmode, hbytes⟩ := (bootstrapPlan_eq_iff hplan spec').1 hplan'
    obtain ⟨source', mode', bytes'⟩ := spec'
    cases hsource
    cases hmode
    cases hbytes hcomplete
    rfl
  refine ⟨fun spec' hplan' => ?_, ⟨fun hall => ?_, fun h spec' hplan' => hspec spec' hplan' h⟩,
    config_delivered_iff hplan, fun hcomplete r' hidentity hplan' => ?_⟩
  · obtain ⟨hsource, hmode, -⟩ := (bootstrapPlan_eq_iff hplan spec').1 hplan'
    exact ⟨hsource, hmode⟩
  · -- of a fragment, other bytes give the same plan
    by_contra hfragment
    have hsame : ∀ bytes, ⟨r.spec.source, r.spec.config.mode, bytes⟩ = r.spec := fun bytes =>
      hall _ ((bootstrapPlan_eq_iff hplan _).2 ⟨rfl, rfl, fun h => absurd h hfragment⟩)
    have hbytes := (hsame ⟨[], by decide⟩).trans (hsame ⟨[0], by decide⟩).symm
    cases congrArg (·.config.bytes.1) hbytes
  · obtain ⟨spec', identity', fits'⟩ := r'
    cases hidentity
    cases hspec spec' hplan' hcomplete
    rfl

theorem complete_plan_determines_spec : ∃ plan,
    bootstrapPlan [] (buildRequest .complete).spec = some plan ∧ configGuestPath ∈ plan.args ∧
      ∀ spec', bootstrapPlan [] spec' = some plan → spec' = (buildRequest .complete).spec := by
  have hiff := plan_determines_spec_iff leading [] (buildRequest .complete) _ rfl
  exact ⟨_, rfl, (hiff.2.2.1.2 rfl).1, hiff.2.1.2 rfl⟩

def fragmentRequest : CustomRequest where
  spec := ⟨(buildRequest .fragment).spec.source, .fragment, ⟨[0x79], by decide⟩⟩
  identity := (buildRequest .fragment).identity
  fits := (buildRequest .fragment).fits

/-- Two fragments with different digests have one plan. -/
theorem fragment_not_delivered :
    bootstrapPlan [] fragmentRequest.spec = bootstrapPlan [] (buildRequest .fragment).spec ∧
    (∀ plan ∈ bootstrapPlan [] fragmentRequest.spec, ∀ file ∈ plan.files,
      file.content ≠ fragmentRequest.spec.config.bytes.1) ∧
    fragmentRequest.builder.hasher ≠ (buildRequest .fragment).builder.hasher := by
  refine ⟨rfl, ?_, fun h => ?_⟩
  · rintro plan hplan file hfile
    cases hplan
    rw [mem_singleton.1 hfile]
    exact cons_ne_nil _ _ |>.symm
  · have hbytes := congrArg (·.config.bytes.1) (CustomRequest.builder_inj h).1
    cases hbytes

end Jyth.Kernel
