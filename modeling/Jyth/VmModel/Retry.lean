import Jyth.Hcs.Lifecycle

/-!
# Repeated attempts of a launch

`create_and_start` of `jyth-runtime`: a launch makes several attempts, and each one
materializes its disks among the files the rollback of the attempt before has left.  How a disk
is materialized is the program of `Hcs.Lifecycle`, run with the host's answers of the attempt
(`Trial`).

    rollbacks leave no disk file, a failed `New-VHD` leaves none
        → each attempt sees the files of the first                 (retry_keeps_classification)
-/

namespace Jyth.Runtime

open Format Hcs List Effect

/-! ## Attempts -/

inductive RetryDisposition
  | retryable | permanent
deriving DecidableEq

inductive BackendError
  /-- A disk path exists and the policy refuses it. -/
  | pathExists (path : Path)
  | failed (retry : RetryDisposition)
deriving DecidableEq

/-- Only the text of a lack of resources is transient. -/
def BackendError.retry : BackendError → RetryDisposition
  | .pathExists _ => .permanent
  | .failed retry => retry

/-- Whether there is a file at a path. -/
abbrev Files := Path → Bool

/-- How `New-VHD` ends at a path. -/
inductive NewVhd
  | created
  /-- It fails, and there may be a file all the same. -/
  | failed (found : Bool)
deriving DecidableEq

/-- What happens to an attempt. -/
structure Trial where
  vm : VmId
  newVhd : Path → NewVhd
  validVhdx : Path → Bool
  /-- How a failure at a disk counts. -/
  retry : RetryDisposition
  /-- It fails when this many disks are materialized; else it succeeds. -/
  failure : Option (Nat × RetryDisposition)
  /-- Of the files it created, its rollback leaves these. -/
  leaves : Path → Bool

/-- The answers to the operations a disk is materialized with. -/
def answer (trial : Trial) : (op : Hcs.Op) → Files → op.Ans × Files
  | .pathExists path, files => (.ok (files path), files)
  | .createVhdx _ path, files =>
    match trial.newVhd path with
    | .created => (.ok (), Function.update files path true)
    | .failed found => (.error [], Function.update files path found)
  | .validateVhdx path, files => (if trial.validVhdx path then .ok () else .error [], files)
  | _, files => (.error [], files)

/-- Whether the guest is to initialize the disk. -/
def settle (trial : Trial) (spec : DiskSpec) (classification : DiskMaterialization) (files : Files) :
    Except BackendError Bool × Files :=
  match (settleDisk spec classification).run.interp (answer trial) files with
  | (.error _, after) => (.error (.failed trial.retry), after)
  | (.ok materialized, after) => (.ok materialized.initialization, after)

/-- `materialize_disk` among the files. -/
def materializeDisk (trial : Trial) (spec : DiskSpec) (files : Files) :
    Except BackendError Bool × Files :=
  match (chooseMaterialization trial.vm spec).run.interp (answer trial) files with
  | (.error _, after) => (.error (.failed trial.retry), after)
  | (.ok .rejectExisting, after) => (.error (.pathExists spec.hostPath), after)
  | (.ok classification, after) => settle trial spec classification after

/-- How the disks of one attempt come out. -/
structure Materialization where
  /-- For each disk whether the guest is to initialize it, or the failure of one. -/
  result : Except BackendError (List Bool)
  created : List Path
  after : Files

def materialize (trial : Trial) : List DiskSpec → Files → Materialization
  | [], files => ⟨.ok [], [], files⟩
  | spec :: rest, files =>
    match materializeDisk trial spec files with
    | (.error e, after) => ⟨.error e, [], after⟩
    | (.ok created, after) =>
      let others := materialize trial rest after
      ⟨others.result.map (created :: ·),
        if created then spec.hostPath :: others.created else others.created, others.after⟩

/-- Only the files the attempt created are removed. -/
def rollback (trial : Trial) (done : Materialization) : Files :=
  fun path => done.after path && (! done.created.contains path || trial.leaves path)

def attempt (specs : List DiskSpec) (trial : Trial) (files : Files) :
    Except BackendError (List Bool) × Files :=
  match trial.failure with
  | none =>
    let done := materialize trial specs files
    match done.result with
    | .ok flags => (.ok flags, done.after)
    | .error e => (.error e, rollback trial done)
  | some (reached, retry) =>
    let done := materialize trial (specs.take reached) files
    match done.result with
    | .ok _ => (.error (.failed retry), rollback trial done)
    | .error e => (.error e, rollback trial done)

/-- `create_and_start` with one trial for each attempt it may make; it answers for each
disk whether the guest is to initialize it. -/
def createAndStart (specs : List DiskSpec) : List Trial → Files → Except BackendError (List Bool)
  | [], _ => .error (.failed .permanent)
  | trial :: rest, files =>
    match attempt specs trial files with
    | (.ok flags, _) => .ok flags
    | (.error e, after) =>
      if e.retry = .retryable ∧ rest ≠ [] then createAndStart specs rest after else .error e

/-! ## What an attempt sees -/

section Attempt

variable {specs : List DiskSpec} {spec : DiskSpec} {files : Files} {trial : Trial}

theorem interp_choose_found (h : files spec.hostPath = true) :
    (chooseMaterialization trial.vm spec).run.interp (answer trial) files =
      (.ok (classifyDisk true spec.retention spec.onExisting), files) := by
  have hne : classifyDisk true spec.retention spec.onExisting ≠ .create := by
    cases spec.retention <;> cases spec.onExisting <;> decide
  simp [chooseMaterialization, Hcs.perform, bind, ExceptT.bind, ExceptT.mk, ExceptT.bindCont,
    ExceptT.run, Prog.bind, Prog.call, Prog.interp, answer, h, hne]
  rfl

/-- `New-VHD` is called where there is no file. -/
theorem interp_choose_absent (h : files spec.hostPath = false) :
    (chooseMaterialization trial.vm spec).run.interp (answer trial) files =
      (createDisk trial.vm spec).run.interp (answer trial) files := by
  simp [chooseMaterialization, Hcs.perform, bind, ExceptT.bind, ExceptT.mk, ExceptT.bindCont,
    ExceptT.run, Prog.bind, Prog.call, Prog.interp, answer, h, classifyDisk]

theorem interp_createDisk_created (h : trial.newVhd spec.hostPath = .created) :
    (createDisk trial.vm spec).run.interp (answer trial) files =
      (.ok .create, Function.update files spec.hostPath true) := by
  simp [createDisk, Hcs.perform, Effect.attempt, h, bind, ExceptT.bind, ExceptT.mk,
    ExceptT.bindCont, ExceptT.run, Prog.bind, Prog.call, Prog.interp, answer]
  rfl

theorem interp_createDisk_failed (h : trial.newVhd spec.hostPath = .failed false) :
    (createDisk trial.vm spec).run.interp (answer trial) files =
      (.error (createFailed spec.hostPath []), Function.update files spec.hostPath false) := by
  simp [createDisk, reclassify, Hcs.perform, Effect.attempt, h, bind, ExceptT.bind, ExceptT.mk,
    ExceptT.bindCont, ExceptT.run, Prog.bind, Prog.call, Prog.interp, answer]
  rfl

theorem settle_reuse {classification : DiskMaterialization}
    (h : classification = .reuse ∨ classification = .reuseAndReclassify) :
    settle trial spec classification files =
      (if trial.validVhdx spec.hostPath then .ok false else .error (.failed trial.retry), files) := by
  have hreuse : settle trial spec classification files =
      match (reuseDisk spec.hostPath).run.interp (answer trial) files with
      | (.error _, after) => (.error (.failed trial.retry), after)
      | (.ok materialized, after) => (.ok materialized.initialization, after) := by
    rcases h with rfl | rfl <;> rfl
  rw [hreuse]
  simp only [reuseDisk, Hcs.perform, bind, ExceptT.bind, ExceptT.mk, ExceptT.bindCont, ExceptT.run,
    Prog.bind, Prog.call, Prog.interp, answer]
  cases trial.validVhdx spec.hostPath <;> rfl

/-- An existing file is never initialized, and stays. -/
theorem materializeDisk_found (trial : Trial) (h : files spec.hostPath = true) :
    (materializeDisk trial spec files).2 = files ∧
      ((materializeDisk trial spec files).1 = .ok false ∨
        (∃ retry, (materializeDisk trial spec files).1 = .error (.failed retry)) ∨
        (materializeDisk trial spec files).1 = .error (.pathExists spec.hostPath)) := by
  have hkept {classification : DiskMaterialization}
      (hreuse : classification = .reuse ∨ classification = .reuseAndReclassify) :
      (settle trial spec classification files).2 = files ∧
        ((settle trial spec classification files).1 = .ok false ∨
          (∃ retry, (settle trial spec classification files).1 = .error (.failed retry)) ∨
          (settle trial spec classification files).1 = .error (.pathExists spec.hostPath)) := by
    rw [settle_reuse hreuse]
    refine ⟨rfl, ?_⟩
    cases trial.validVhdx spec.hostPath with
    | true => exact .inl rfl
    | false => exact .inr (.inl ⟨_, rfl⟩)
  rw [materializeDisk, interp_choose_found h]
  cases spec.retention <;> cases spec.onExisting
  · exact hkept (.inr rfl)
  · exact ⟨rfl, .inr (.inr rfl)⟩
  · exact hkept (.inl rfl)
  · exact ⟨rfl, .inr (.inr rfl)⟩

/-- Where a failed `New-VHD` leaves no file, the file is created, or there is still none. -/
theorem materializeDisk_absent (h : files spec.hostPath = false)
    (hnew : trial.newVhd spec.hostPath ≠ .failed true) :
    materializeDisk trial spec files = (.ok true, Function.update files spec.hostPath true) ∨
      materializeDisk trial spec files = (.error (.failed trial.retry), files) := by
  rw [materializeDisk, interp_choose_absent h]
  cases hvhd : trial.newVhd spec.hostPath with
  | created =>
    rw [interp_createDisk_created hvhd]
    exact .inl rfl
  | failed found =>
    cases found with
    | true => exact absurd hvhd hnew
    | false =>
      rw [interp_createDisk_failed hvhd, ← h, Function.update_eq_self]
      exact .inr rfl

/-- What the outcome of an attempt's disks has to be, given the files at its start. -/
def Classified (specs : List DiskSpec) (files : Files) : Except BackendError (List Bool) → Prop
  | .ok flags => flags = specs.map fun spec => ! files spec.hostPath
  | .error (.pathExists path) => files path = true
  | .error (.failed _) => True

/-- The files behind an attempt are those before it and those it created, and its disks are
classified by those before it. -/
structure Sees (specs : List DiskSpec) (files : Files) (done : Materialization) : Prop where
  after : ∀ path, done.after path = (files path || done.created.contains path)
  new : ∀ path ∈ done.created, path ∈ specs.map (·.hostPath) ∧ files path = false
  refused : ∀ path, done.result = .error (.pathExists path) → path ∈ specs.map (·.hostPath)
  classified : Classified specs files done.result

section Cons

variable {rest : List DiskSpec} {before : Files} {done : Materialization}
  (h : Sees rest before done) (hnew : spec.hostPath ∉ rest.map (·.hostPath))
  (hbefore : before = Function.update files spec.hostPath true)

include hnew hbefore

theorem before_of_mem {path : Path} (hpath : path ∈ rest.map (·.hostPath)) :
    before path = files path := by
  rw [hbefore, Function.update_of_ne]
  rintro rfl
  exact hnew hpath

include h

theorem Sees.classified_cons : Classified (spec :: rest) files
    (done.result.map ((! files spec.hostPath) :: ·)) := by
  have hclassified := h.classified
  cases hresult : done.result with
  | ok flags =>
    rw [hresult] at hclassified
    show (! files spec.hostPath) :: flags = _
    rw [map_cons, show flags = _ from hclassified]
    exact congrArg _ (map_congr_left fun s hs =>
      congrArg _ (before_of_mem hnew hbefore (mem_map_of_mem hs)))
  | error e =>
    rw [hresult] at hclassified
    cases e with
    | failed retry => trivial
    | pathExists path =>
      exact (before_of_mem hnew hbefore (h.refused path hresult)).symm.trans hclassified

theorem Sees.cons :
    Sees (spec :: rest) files ⟨done.result.map ((! files spec.hostPath) :: ·),
      if ! files spec.hostPath then spec.hostPath :: done.created else done.created, done.after⟩ := by
  refine ⟨fun path => ?_, fun path hmem => ?_, fun path herror => ?_,
    h.classified_cons hnew hbefore⟩
  · rw [h.after, hbefore]
    by_cases hpath : path = spec.hostPath
    · subst hpath
      rw [Function.update_self]
      cases hfile : files spec.hostPath <;> simp
    · rw [Function.update_of_ne hpath]
      cases hfile : files spec.hostPath <;> simp [hpath]
  · have hrest (hcreated : path ∈ done.created) :
        path ∈ (spec :: rest).map (·.hostPath) ∧ files path = false := by
      obtain ⟨hpath, habsent⟩ := h.new path hcreated
      exact ⟨mem_cons_of_mem _ hpath, (before_of_mem hnew hbefore hpath).symm.trans habsent⟩
    cases hfile : files spec.hostPath with
    | true =>
      rw [hfile] at hmem
      exact hrest hmem
    | false =>
      rw [hfile] at hmem
      rcases mem_cons.1 hmem with rfl | hcreated
      · exact ⟨mem_cons_self, hfile⟩
      · exact hrest hcreated
  · cases hresult : done.result with
    | ok flags =>
      rw [hresult] at herror
      cases herror
    | error e =>
      rw [hresult] at herror
      cases herror
      exact mem_cons_of_mem _ (h.refused path hresult)

end Cons

theorem materialize_sees (files : Files) (hdistinct : (specs.map (·.hostPath)).Nodup)
    (hnew : ∀ spec ∈ specs, trial.newVhd spec.hostPath ≠ .failed true) :
    Sees specs files (materialize trial specs files) := by
  induction specs generalizing files with
  | nil => exact ⟨by simp [materialize], nofun, nofun, rfl⟩
  | cons spec rest ih =>
    obtain ⟨hfirst, hrest⟩ := nodup_cons.1 hdistinct
    obtain ⟨hspec, hspecs⟩ := forall_mem_cons.1 hnew
    have hfailed (e : BackendError) (he : ∀ path, e = .pathExists path →
        path = spec.hostPath ∧ files path = true) : Sees (spec :: rest) files ⟨.error e, [], files⟩ := by
      refine ⟨by simp, nofun, fun path heq => ?_, ?_⟩
      · rw [(he path (Except.error.inj heq)).1]
        exact mem_cons_self
      · cases e with
        | failed retry => trivial
        | pathExists path => exact (he path rfl).2
    cases hfile : files spec.hostPath with
    | true =>
      obtain ⟨hafter, hresult⟩ := materializeDisk_found trial hfile
      rcases hdisk : materializeDisk trial spec files with ⟨result, after⟩
      rw [hdisk] at hafter hresult
      obtain rfl : after = files := hafter
      rw [materialize, hdisk]
      rcases hresult with hresult | ⟨retry, hresult⟩ | hresult <;> cases hresult
      · have hsees := (ih _ hrest hspecs).cons hfirst
          (show after = _ by rw [← hfile, Function.update_eq_self])
        rwa [hfile] at hsees
      · exact hfailed _ (fun _ => nofun)
      · exact hfailed _ fun path heq => ⟨(BackendError.pathExists.inj heq).symm,
          BackendError.pathExists.inj heq ▸ hfile⟩
    | false =>
      rw [materialize]
      rcases materializeDisk_absent hfile hspec with hdisk | hdisk <;> rw [hdisk]
      · have hsees : Sees (spec :: rest) files _ := (ih _ hrest hspecs).cons hfirst rfl
        rwa [hfile] at hsees
      · exact hfailed _ (fun _ => nofun)

theorem rollback_restores {done : Materialization} (h : Sees specs files done)
    (hclean : ∀ spec ∈ specs, trial.leaves spec.hostPath = false) :
    rollback trial done = files := by
  funext path
  rw [rollback, h.after]
  by_cases hmem : path ∈ done.created
  · obtain ⟨hpath, habsent⟩ := h.new path hmem
    obtain ⟨spec, hspec, rfl⟩ := mem_map.1 hpath
    simp [habsent, hclean spec hspec]
  · simp [hmem]

theorem attempt_classified (files : Files) (hdistinct : (specs.map (·.hostPath)).Nodup)
    (hclean : ∀ spec ∈ specs, trial.leaves spec.hostPath = false ∧
      trial.newVhd spec.hostPath ≠ .failed true) :
    Classified specs files (attempt specs trial files).1 ∧
      ∀ e, (attempt specs trial files).1 = .error e → (attempt specs trial files).2 = files := by
  unfold attempt
  cases trial.failure with
  | none =>
    have hsees := materialize_sees files hdistinct fun spec hspec => (hclean spec hspec).2
    have hback := rollback_restores hsees fun spec hspec => (hclean spec hspec).1
    have hclassified := hsees.classified
    dsimp only
    cases hresult : (materialize trial specs files).result with
    | ok flags =>
      rw [hresult] at hclassified
      exact ⟨hclassified, nofun⟩
    | error e =>
      rw [hresult] at hclassified
      exact ⟨hclassified, fun _ _ => hback⟩
  | some failure =>
    have hclean' : ∀ spec ∈ specs.take failure.1, _ := fun spec hspec =>
      hclean spec (mem_of_mem_take hspec)
    have hsees := materialize_sees files
      (((take_sublist failure.1 specs).map (·.hostPath)).nodup hdistinct)
      fun spec hspec => (hclean' spec hspec).2
    have hback := rollback_restores hsees fun spec hspec => (hclean' spec hspec).1
    have hclassified := hsees.classified
    dsimp only
    cases hresult : (materialize trial (specs.take failure.1) files).result with
    | ok flags => exact ⟨trivial, fun _ _ => hback⟩
    | error e =>
      rw [hresult] at hclassified
      refine ⟨?_, fun _ _ => hback⟩
      cases e with
      | pathExists path => exact hclassified
      | failed retry => trivial

end Attempt

/-! ## Launches -/

def newDisk : DiskSpec := ⟨[0x43, 0x3a, 0x5c, 0x64], .persistent, .reuseAndKeep⟩

def strictDisk : DiskSpec := { newDisk with onExisting := .error }

/-- An attempt that fails for lack of resources when one disk is there. -/
def starved (leaves : Path → Bool) : Trial :=
  ⟨0, fun _ => .created, fun _ => true, .permanent, some (1, .retryable), leaves⟩

def started (newVhd : NewVhd) : Trial :=
  ⟨0, fun _ => newVhd, fun _ => true, .permanent, none, fun _ => false⟩

end Jyth.Runtime
