import Jyth.Hcs.Custody

/-!
# The passes over a VM's resources

Every operation of a provisioning step, a cleanup, a rollback and a recovery spares
the marked files (`Spares`), while others leave the paths of the pass alone (`Leaves`).
A pass deletes a file only after it has seen, at that path, a file it has a claim on;
from then on there is no marked file at the path.  Taking the lock of a path is left
out here, since it may mark a file.

    Keeps μ conf paths claims p    p spares; what is claimed stays unmarked
-/

namespace Jyth.Hcs

open Format Effect List Option Leaves Mild Only Triple

/-- No claimed file is marked. -/
def Cleared (μ : Mark) (claims : Path → FileIdentity → Prop) (s : System) : Prop :=
  ∀ path identity, claims path identity → Unmarked μ s path identity

/-- No file at the path is marked. -/
abbrev Free (μ : Mark) (path : Path) : System → Prop := Cleared μ fun p _ => p = path

/-- An operation other than taking a lock spares. -/
def Behaves (μ : Mark) (conf : VmId → Conf) (op : Op) (s s' : System) : Prop :=
  (∀ path, op ≠ .claimPath path) → Spares μ conf s s'

/-- A triple among passes that mark nothing at these paths. -/
abbrev Heeds (μ : Mark) (conf : VmId → Conf) (paths : Path → Prop) {α : Type} (I : System → Prop)
    (p : M α) (Q : α → System → Prop) (E : Text → System → Prop) : Prop :=
  Triple world (Leaves μ conf paths) (Behaves μ conf) I p Q E

/-- Such a pass leaves the claimed files without marks. -/
abbrev Keeps (μ : Mark) (conf : VmId → Conf) (paths : Path → Prop) (claims : Path → FileIdentity → Prop)
    {α : Type} (p : M α) : Prop :=
  Heeds μ conf paths (Cleared μ claims) p (fun _ => Cleared μ claims) fun _ => Cleared μ claims

section

variable {μ : Mark} {conf : VmId → Conf} {paths : Path → Prop} {claims : Path → FileIdentity → Prop}
variable {α β : Type} {v : VmId} {sid : SessionId} {path : Path} {expected : FileIdentity}

theorem Leaves.cleared (h : ∀ p i, claims p i → paths p) :
    Stable (Leaves μ conf paths) (Cleared μ claims) :=
  fun _ _ hleaves hs p i hclaim => hleaves.unmarked p (h p i hclaim) i (hs p i hclaim)

theorem Spares.cleared : Stable (Spares μ conf) (Cleared μ claims) :=
  fun _ _ hspares hs p i hclaim => hspares.unmarked p i (hs p i hclaim)

variable {op : Op}

theorem only_perform (h : op.Mild) : Only Op.Mild (perform op) := ⟨h, fun _ => trivial⟩

theorem keeps_of_only {p : M α} (hp : Only Op.Mild p) (h : ∀ p i, claims p i → paths p) :
    Keeps μ conf paths claims p :=
  hp.triple (cleared h) fun _ hop _ _ _ _ hleaves hworld =>
    have hspares := hop.spares hleaves.orderly hworld
    ⟨fun _ => hspares, fun hs => hspares.cleared hs⟩

theorem heeds_perform {I : System → Prop} {Q : op.Result → System → Prop}
    {E : Text → System → Prop} (hI : Stable (Leaves μ conf paths) I)
    (h : ∀ s r s', Orderly μ conf s → I s → world op s r s' → Spares μ conf s s' ∧ Post Q E r s') :
    Heeds μ conf paths I (perform op) Q E :=
  fun _ hs s₁ hleaves r s' hop =>
    (h s₁ r s' hleaves.orderly (hI hleaves hs) hop).imp_left fun hspares _ => hspares

/-! ## Deleting a file -/

section

variable (hclaims : ∀ p i, claims p i → paths p)
include hclaims

theorem heeds_removeFile (hpath : paths path) :
    Heeds μ conf paths (fun s => Free μ path s ∧ Cleared μ claims s) (perform (.removeFile path))
      (fun _ => Cleared μ claims) fun _ => Cleared μ claims := by
  have hfree : Stable (Leaves μ conf paths) (Free μ path) := cleared fun p _ hp => hp ▸ hpath
  refine heeds_perform (hfree.and (cleared hclaims)) fun s r s' hs hfree hop => ?_
  have hspares := Commits.spares hop hs (hs.deleteFile fun i => hfree.1 path i rfl)
  refine ⟨hspares, ?_⟩
  cases r <;> exact hspares.cleared hfree.2

theorem heeds_fileIdentity (hclaim : claims path expected) :
    Heeds μ conf paths (Cleared μ claims) (perform (.fileIdentity path))
      (fun current s => (current = expected → Free μ path s) ∧ Cleared μ claims s)
      fun _ => Cleared μ claims := by
  refine heeds_perform (cleared hclaims) ?_
  rintro s r s' hs hcleared ⟨rfl, ⟨file, hfile, rfl⟩ | ⟨e, rfl⟩⟩
  · refine ⟨hs.refl, ?_, hcleared⟩
    rintro heq p i rfl other hother -
    rw [hfile] at hother
    cases hother
    exact hcleared p expected hclaim file hfile heq
  · exact ⟨hs.refl, hcleared⟩

theorem heeds_deleteFile (hpath : paths path) :
    Heeds μ conf paths (fun s => Free μ path s ∧ Cleared μ claims s) (deleteFile path)
      (fun _ => Cleared μ claims) fun _ => Cleared μ claims := by
  unfold deleteFile
  refine bind (P := fun _ => Cleared μ claims)
    (attempt (heeds_removeFile hclaims hpath)) fun r => ?_
  cases r with
  | ok found => exact pure fun _ => id
  | error e => exact throw fun _ => id

theorem keeps_deleteVerified (hclaim : claims path expected) :
    Keeps μ conf paths claims (deleteVerified path expected) := by
  unfold deleteVerified
  refine bind (heeds_fileIdentity hclaims hclaim) fun current => ?_
  split
  · exact throw fun _ hs => hs.2
  · next hsame =>
    refine (heeds_deleteFile hclaims (hclaims _ _ hclaim)).pre fun s hs => ?_
    exact ⟨hs.1 (not_not.1 hsame), hs.2⟩

theorem keeps_dropIdentified (hclaim : claims path expected) :
    Keeps μ conf paths claims (dropIdentified path expected) := by
  unfold dropIdentified
  have hread : Heeds μ conf paths (Cleared μ claims) (attempt (perform (.fileIdentity path)))
      (fun actual s => (actual = .ok expected → Free μ path s) ∧ Cleared μ claims s)
      fun _ => Cleared μ claims := by
    refine attempt ((heeds_fileIdentity hclaims hclaim).mono (fun _ => id) ?_ ?_)
    · exact fun current s hs => ⟨fun heq => hs.1 (Except.ok.inj heq), hs.2⟩
    · exact fun e s hs => ⟨nofun, hs⟩
  refine bind hread fun actual => ?_
  unfold dropVerified
  split
  · next hsame =>
    refine bind (P := fun _ => Cleared μ claims) (attempt ?_) fun _ =>
      pure fun _ => id
    exact (heeds_removeFile hclaims (hclaims _ _ hclaim)).pre fun s hs => ⟨hs.1 hsame, hs.2⟩
  · exact pure fun _ hs => hs.2

end

/-! ## Cleanup -/

variable {result : Except Text Unit}

section

variable (hclaims : ∀ p i, claims p i → paths p)
include hclaims

theorem keeps_perform (h : op.Mild) : Keeps μ conf paths claims (perform op) :=
  keeps_of_only (only_perform h) hclaims

theorem keeps_removeDisk {disk : DiskResource}
    (hdisk : ∀ p i, disk.Claims p i → claims p i) : Keeps μ conf paths claims (removeDisk v disk) := by
  unfold removeDisk
  split
  · exact pure fun _ => id
  refine bind (P := fun _ => Cleared μ claims) ?_ fun _ => ?_
  · refine keeps_of_only ?_ hclaims
    unfold revokeIfAdded revokeExisting
    split
    · refine bind (only_perform trivial) fun found => ?_
      split
      · exact only_perform trivial
      · exact pure ()
    · exact pure ()
  unfold deleteOwned
  split
  · exact pure fun _ => id
  next howned =>
  obtain ⟨horigin, hdeletable⟩ := not_or.1 howned
  unfold deleteExisting
  refine bind (keeps_perform hclaims trivial) fun found => ?_
  split
  · cases hidentity : disk.fileIdentity with
    | none => exact throw fun _ => id
    | some expected =>
      have hcreated : disk.origin = .createdByLaunch := by
        cases h : disk.origin with
        | createdByLaunch => rfl
        | preExisting => exact absurd h horigin
      have hclaim := hdisk disk.path expected ⟨rfl, hcreated, not_not.1 hdeletable, hidentity⟩
      exact keeps_deleteVerified hclaims hclaim
  · exact pure fun _ => id

theorem keeps_applyResourceOutcome {resource : Resource} {identity : Text} :
    Keeps μ conf paths claims (applyResourceOutcome v resource identity result) := by
  refine keeps_of_only ?_ hclaims
  have hremoved : Only Op.Mild (markRemoved v resource) :=
    bind (only_perform (setState resource .removed)) fun _ => pure _
  unfold applyResourceOutcome
  split
  · exact hremoved
  · split
    · exact hremoved
    · exact Only.bind (only_perform (Mild.failedRecord resource _)) fun _ => Only.pure _

variable {record : VmResourceRecord} {created : List (Path × FileIdentity)}

theorem keeps_cleanupResource
    (hrecord : ∀ p i, record.Claims p i → claims p i) (resource : Resource) :
    Keeps μ conf paths claims (cleanupResource v record resource) := by
  unfold cleanupResource
  split
  · exact pure fun _ => id
  cases record.identity resource with
  | none => exact pure fun _ => id
  | some identity =>
    refine bind (P := fun _ => Cleared μ claims) (attempt ?_) fun result =>
      keeps_applyResourceOutcome hclaims
    cases resource with
    | computeSystem | network => exact keeps_perform hclaims trivial
    | disk index =>
      change Keeps μ conf paths claims (record.disks[index]?.elim (return ()) (removeDisk v))
      cases hdisk : record.disks[index]? with
      | none => exact pure fun _ => id
      | some disk =>
        refine keeps_removeDisk hclaims fun p i hclaim => hrecord p i ?_
        exact ⟨disk, mem_of_getElem? hdisk, hclaim⟩

theorem keeps_cleanupEach
    (hrecord : ∀ p i, record.Claims p i → claims p i) (resources : List Resource) :
    Keeps μ conf paths claims (cleanupEach v record resources) := by
  induction resources with
  | nil => exact pure fun _ => id
  | cons resource rest ih =>
    refine bind (keeps_cleanupResource hclaims hrecord resource) fun failures => ?_
    exact bind ih fun others => pure fun _ => id

omit hclaims in
theorem only_orMissing (record : Option VmResourceRecord) : Only Op.Mild (orMissing v record) := by
  cases record with
  | none => exact throw _
  | some record => exact pure _

omit hclaims in
theorem only_giveUp (failures : List CleanupFailure) : Only Op.Mild (giveUp sid v failures) := by
  unfold giveUp readRecord
  refine bind (bind (only_perform trivial) only_orMissing) fun record => ?_
  split
  · refine bind (only_perform trivial) fun now => ?_
    refine bind (only_perform trivial) fun existing => ?_
    refine Only.bind ?_ fun _ => only_perform (Mild.abandonedRecord _)
    exact Only.bind (only_perform trivial) fun previous => only_perform trivial
  · exact throw _

omit hclaims in
theorem only_finishCleanup : Only Op.Mild (finishCleanup v) :=
  Only.bind (only_perform Mild.completed) fun _ =>
    bind (only_perform trivial) fun _ => only_perform trivial

theorem heeds_readRecord (hv : ∀ p ∈ (conf v).paths, paths p) :
    Heeds μ conf paths (Cleared μ claims) (readRecord v)
      (fun record s => (∀ p i, record.Claims p i → paths p) ∧
        Cleared μ (fun p i => claims p i ∨ record.Claims p i) s) fun _ => Cleared μ claims := by
  have hread : Heeds μ conf paths (Cleared μ claims) (perform (.vm v))
      (fun record s => (∀ r, record = some r → (∀ p i, r.Claims p i → paths p) ∧
        Cleared μ r.Claims s) ∧ Cleared μ claims s) fun _ => Cleared μ claims := by
    refine heeds_perform (cleared hclaims) fun s r s' hs hcleared hop => ?_
    rcases hop with ⟨rfl, rfl⟩ | ⟨⟨e, rfl⟩, rfl⟩
    · refine ⟨hs.refl, fun record hrecord => ?_, hcleared⟩
      obtain ⟨sid, hlookup⟩ := System.recordOf_eq_some.1 hrecord
      have hfiled := hs v _ hlookup
      exact ⟨fun p i hclaim => hv p (hfiled.mem_paths hclaim), hfiled.unmarked⟩
    · exact ⟨hs.refl, hcleared⟩
  refine bind hread fun record => ?_
  cases record with
  | none => exact throw fun _ hs => hs.2
  | some record =>
    refine pure fun s hs => ?_
    obtain ⟨hpaths, hrecord⟩ := hs.1 record rfl
    exact ⟨hpaths, fun p i hclaim => hclaim.elim (hs.2 p i) (hrecord p i)⟩

theorem keeps_cleanupRecord (hv : ∀ p ∈ (conf v).paths, paths p) :
    Keeps μ conf paths claims (cleanupRecord sid v) := by
  unfold cleanupRecord
  refine Triple.bind (keeps_perform hclaims Mild.beginCleanup) fun _ => ?_
  refine Triple.bind (heeds_readRecord hclaims hv) fun record => Triple.given fun hrecord => ?_
  have hall : ∀ p i, claims p i ∨ record.Claims p i → paths p :=
    fun p i hclaim => hclaim.elim (hclaims p i) (hrecord p i)
  have hrest : Keeps μ conf paths (fun p i => claims p i ∨ record.Claims p i) (do
      let failures ← cleanupEach v record record.resources
      if failures = [] then finishCleanup v else giveUp sid v failures) := by
    refine bind (keeps_cleanupEach hall (fun _ _ => .inr) _) fun failures => ?_
    split
    · exact keeps_of_only only_finishCleanup hall
    · exact keeps_of_only (only_giveUp failures) hall
  have hweaken : ∀ s, Cleared μ (fun p i => claims p i ∨ record.Claims p i) s → Cleared μ claims s :=
    fun s hs p i hclaim => hs p i (.inl hclaim)
  exact hrest.mono (fun _ => id) (fun _ => hweaken) fun _ => hweaken

/-! ## Rollback -/

theorem keeps_dropDisks
    (h : ∀ disk ∈ created, claims disk.1 disk.2) : Keeps μ conf paths claims (dropDisks created) := by
  induction created with
  | nil => exact pure fun _ => id
  | cons disk rest ih =>
    obtain ⟨path, expected⟩ := disk
    have hclaim := h (path, expected) mem_cons_self
    refine bind (P := fun _ => Cleared μ claims) ?_ fun _ =>
      ih fun disk hdisk => h disk (mem_cons_of_mem _ hdisk)
    unfold dropDisk
    refine bind (keeps_perform hclaims trivial) fun found => ?_
    split
    · exact keeps_dropIdentified hclaims hclaim
    · exact pure fun _ => id

theorem keeps_rollback (hv : ∀ p ∈ (conf v).paths, paths p)
    (h : ∀ disk ∈ created, claims disk.1 disk.2) :
    Keeps μ conf paths claims (rollback sid v created) := by
  unfold rollback
  exact bind (attempt (keeps_cleanupRecord hclaims hv)) fun _ =>
    keeps_dropDisks hclaims h

/-! ## Recovery -/

theorem keeps_recoverEach (records : List VmResourceRecord)
    (h : ∀ record ∈ records, ∀ p ∈ (conf record.vmId).paths, paths p) :
    Keeps μ conf paths claims (recoverEach sid records) := by
  induction records with
  | nil => exact pure fun _ => id
  | cons record rest ih =>
    refine bind (P := fun _ => Cleared μ claims) ?_ fun _ =>
      ih fun r hr => h r (mem_cons_of_mem _ hr)
    unfold recoverRecord
    split
    · exact keeps_perform hclaims trivial
    · refine bind (attempt ?_) fun _ => pure fun _ => id
      exact keeps_cleanupRecord hclaims (h record mem_cons_self)

theorem keeps_recoverSession (h : ∀ v, (conf v).session = sid → ∀ p ∈ (conf v).paths, paths p) :
    Keeps μ conf paths claims (recoverSession sid) := by
  unfold recoverSession
  have hread : Heeds μ conf paths (Cleared μ claims) (perform (.allVms sid))
      (fun records s => (∀ record ∈ records, ∀ p ∈ (conf record.vmId).paths, paths p) ∧
        Cleared μ claims s) fun _ => Cleared μ claims := by
    refine heeds_perform (cleared hclaims) fun s r s' hs hcleared hop => ?_
    rcases hop with ⟨rfl, rfl⟩ | ⟨⟨e, rfl⟩, rfl⟩
    · refine ⟨hs.refl, fun record hrecord => ?_, hcleared⟩
      simp only [System.recordsOf, List.mem_map, List.mem_filter, decide_eq_true_eq] at hrecord
      obtain ⟨⟨v, entry⟩, ⟨hmem, hsession⟩, rfl⟩ := hrecord
      have hfiled := hs v entry (AList.mem_lookup_iff.2 hmem)
      rw [hfiled.vmId]
      exact h v (hfiled.session.symm.trans hsession)
    · exact ⟨hs.refl, hcleared⟩
  refine bind hread fun records => given fun hrecords => ?_
  refine bind (keeps_recoverEach hclaims records hrecords) fun _ => ?_
  refine keeps_of_only ?_ hclaims
  refine bind (only_perform trivial) fun left => ?_
  refine bind (only_perform trivial) fun inventory => ?_
  split
  · exact only_perform trivial
  · exact pure ()

end

/-! ## Provisioning -/

theorem classifyDisk_true {retention : DiskRetention} {onExisting : ExistingDiskPolicy} :
    classifyDisk true retention onExisting ≠ .create := by
  cases retention <;> cases onExisting <;> decide

/-- The operations of `materialize_disk` up to the capture of the identity. -/
def Op.Gathers : Op → Prop
  | .vm _ | .pathExists _ | .claimPath _ | .createVhdx _ _ | .validateVhdx _ | .fileIdentity _ => True
  | _ => False

/-! A disk counts as created only if its file appeared during the step: what holds then,
and is not made false by others, holds when the step ends. -/

section Materialize

variable {R : System → System → Prop} {G : Op → System → System → Prop} {F : System → Prop}
variable {spec : DiskSpec}
variable (hG : ∀ op : Op, op.Gathers → ∀ s₀ s r s', R s₀ s → world op s r s' → G op s s')
include hG

theorem triple_gather (h : op.Gathers) :
    Triple world R G (fun _ => True) (perform op) (fun _ _ => True) fun _ _ => True := by
  intro s _ s₁ hs₁ r s' hop
  refine ⟨hG op h s s₁ r s' hs₁ hop, ?_⟩
  cases r <;> trivial

theorem triple_chooseMaterialization (hfresh : ∀ s s', Appears spec.hostPath (some v) s s' → F s') :
    Triple world R G (fun _ => True) (chooseMaterialization v spec) (fun c s => c = .create → F s)
      fun _ _ => True := by
  unfold chooseMaterialization
  refine bind (triple_gather hG trivial) fun found => ?_
  dsimp only
  split
  · unfold createDisk
    have hcreate : Triple world R G (fun _ => True)
        (attempt (perform (.createVhdx v spec.hostPath))) (fun r s => r = .ok () → F s)
        fun _ _ => True := by
      refine attempt fun s _ s₁ hs₁ r s' hop =>
        ⟨hG (.createVhdx v spec.hostPath) trivial s s₁ r s' hs₁ hop, ?_⟩
      rcases hop with ⟨⟨_, rfl⟩, happears⟩ | ⟨⟨e, rfl⟩, -⟩
      · exact fun _ => hfresh s₁ s' happears
      · rintro ⟨⟩
    refine bind hcreate fun r => ?_
    cases r with
    | ok a => exact pure fun s hs _ => hs rfl
    | error e =>
      unfold reclassify
      refine bind (P := fun _ _ => True) ?_ fun found => ?_
      · exact pre (triple_gather hG trivial) fun _ _ => trivial
      split
      · exact pure fun _ _ h => absurd h classifyDisk_true
      · exact throw fun _ _ => trivial
  · next hother => exact pure fun _ _ h => absurd h hother

theorem triple_settleDisk (c : DiskMaterialization) :
    Triple world R G (fun s => c = .create → F s) (settleDisk spec c)
      (fun m s => m.origin = .createdByLaunch → F s) fun _ _ => True := by
  have hreuse : Triple world R G (fun _ => True) (reuseDisk spec.hostPath)
      (fun m s => m.origin = .createdByLaunch → F s) fun _ _ => True :=
    bind (triple_gather hG trivial) fun _ => pure fun _ _ h => nomatch h
  cases c with
  | create => exact pure fun _ hs _ => hs rfl
  | reuse | reuseAndReclassify => exact hreuse.pre fun _ _ => trivial
  | rejectExisting => exact throw fun _ _ => trivial

theorem triple_materializeFile (hR : Stable R F)
    (hfresh : ∀ s s', Appears spec.hostPath (some v) s s' → F s') (planned : DiskResource) :
    Triple world R G (fun _ => True) (materializeFile v spec planned)
      (fun out s => out.1.origin = .createdByLaunch → F s) fun _ _ => True := by
  unfold materializeFile
  split
  · exact throw fun _ _ => trivial
  refine bind (triple_gather hG trivial) fun _ => ?_
  refine bind (triple_chooseMaterialization hG hfresh) fun c => ?_
  refine bind (triple_settleDisk hG c) fun m => ?_
  refine bind (P := fun _ s => m.origin = .createdByLaunch → F s) ?_
    fun identity => pure fun _ => id
  intro s hs s₁ hs₁ r s' hop
  refine ⟨hG (.fileIdentity spec.hostPath) trivial s s₁ r s' hs₁ hop, ?_⟩
  obtain ⟨rfl, ⟨file, -, rfl⟩ | ⟨e, rfl⟩⟩ := hop
  · exact fun horigin => hR hs₁ (hs horigin)
  · trivial

theorem triple_prepareDisk (hR : Stable R F)
    (hfresh : ∀ s s', Appears spec.hostPath (some v) s s' → F s') (index : Nat) :
    Triple world R G (fun _ => True) (attempt (prepareDisk v index spec))
      (fun prepared s => ∀ out, prepared = .ok out → out.1.origin = .createdByLaunch → F s)
      fun _ _ => True := by
  have hprepare : Triple world R G (fun _ => True) (prepareDisk v index spec)
      (fun out s => out.1.origin = .createdByLaunch → F s) fun _ _ => True := by
    refine bind (P := fun _ _ => True) ?_ (triple_materializeFile hG hR hfresh)
    refine bind (triple_gather hG trivial) fun record => ?_
    cases record.bind (·.disks[index]?) with
    | none => exact throw fun _ _ => trivial
    | some disk => exact pure fun _ _ => trivial
  refine attempt (hprepare.mono (fun _ => id) ?_ ?_)
  · rintro out s hs _ ⟨⟩
    exact hs
  · rintro e s - _ ⟨⟩

end Materialize

variable {index : Nat} {identity : FileIdentity} {m : Materialized} {spec : DiskSpec}

theorem createdBy_path {disk : Path × FileIdentity} (h : disk ∈ createdBy spec m identity) :
    disk = (spec.hostPath, identity) ∧ m.origin = .createdByLaunch := by
  unfold createdBy at h
  split at h
  · next horigin => exact ⟨mem_singleton.1 h, horigin⟩
  · cases h

theorem claims_materialized {record : VmResourceRecord} {i : FileIdentity} {p : Path}
    (h : (record.modifyDisk index (materializedDisk m identity)).Claims p i) : record.Claims p i ∨
      (record.disks.map (·.path))[index]? = some p ∧ m.origin = .createdByLaunch ∧ i = identity := by
  obtain ⟨disk, hdisk, hclaim⟩ := h
  obtain ⟨at', hat⟩ := getElem?_of_mem hdisk
  simp only [VmResourceRecord.modifyDisk, getElem?_modify] at hat
  by_cases hindex : index = at'
  · subst hindex
    simp only [if_true, Option.map_eq_map] at hat
    obtain ⟨old, hold, rfl⟩ := map_eq_some_iff.1 hat
    obtain ⟨hpath, horigin, -, hidentity⟩ := hclaim
    refine .inr ⟨?_, horigin, (some.inj hidentity).symm⟩
    rw [getElem?_map, hold]
    exact congrArg some hpath
  · simp only [if_neg hindex, Option.map_eq_map, Option.map_id'] at hat
    exact .inl ⟨disk, List.mem_of_getElem? hat, hclaim⟩

theorem keeps_journalDisk (hclaims : ∀ p i, claims p i → paths p)
    (hindex : (conf v).paths[index]? = some path)
    (hcreated : m.origin = .createdByLaunch → claims path identity) :
    Keeps μ conf paths claims (journalDisk v index path m identity) := by
  unfold journalDisk
  refine bind (P := fun _ => Cleared μ claims) ?_ fun _ => ?_
  · refine heeds_perform (cleared hclaims) fun s r s' hs hcleared hop => ?_
    rcases hop with ⟨record, hrecord, rfl, rfl⟩ | ⟨⟨e, rfl⟩, rfl⟩
    · obtain ⟨sid, hlookup⟩ := System.recordOf_eq_some.1 hrecord
      have hspares : Spares μ conf s
          (s.setRecord v (record.modifyDisk index (materializedDisk m identity))) := by
        refine hs.setRecord hrecord rfl (map_modify_of_eq fun _ => rfl) fun p i hclaim => ?_
        rcases claims_materialized hclaim with hold | ⟨hpath, horigin, rfl⟩
        · exact .inl hold
        · rw [(hs v _ hlookup).paths, hindex] at hpath
          exact .inr (hcleared p i (some.inj hpath ▸ hcreated horigin))
      exact ⟨hspares, hspares.cleared hcleared⟩
    · exact ⟨hs.refl, hcleared⟩
  refine bind (keeps_perform hclaims trivial) fun _ => ?_
  exact keeps_perform hclaims (modifyDisk fun _ => rfl)

/-- The disks that count as created are cleared. -/
def Delivers (μ : Mark) (paths : Path → Prop) (out : Provisioned) (s : System) : Prop :=
  (∀ disk ∈ out.1, paths disk.1) ∧ Cleared μ (fun p i => (p, i) ∈ out.1) s

theorem delivers_nil {s : System} : Delivers μ paths ([], result) s :=
  ⟨fun _ h => (not_mem_nil h).elim, fun _ _ h => (not_mem_nil h).elim⟩

theorem heeds_provisionDisk (hpath : paths spec.hostPath)
    (hindex : (conf v).paths[index]? = some spec.hostPath) :
    Heeds μ conf paths (fun _ => True) (provisionDisk v index spec) (Delivers μ paths)
      fun _ _ => True := by
  have hG : ∀ op : Op, op.Gathers → ∀ s₀ s r s', Leaves μ conf paths s₀ s → world op s r s' →
      Behaves μ conf op s s' := by
    intro op hop s₀ s r s' hleaves hworld hno
    have hmild : op.Mild := by
      cases op with
      | claimPath path => exact absurd rfl (hno path)
      | _ => trivial
    exact hmild.spares hleaves.orderly hworld
  have hstable : Stable (Leaves μ conf paths) (Free μ spec.hostPath) :=
    cleared fun p _ hp => hp ▸ hpath
  have hfresh : ∀ s s', Appears spec.hostPath (some v) s s' → Free μ spec.hostPath s' :=
    fun s s' happears p i hp => hp ▸ happears.cleared
  unfold provisionDisk
  refine bind (triple_prepareDisk hG hstable hfresh index) fun prepared => ?_
  cases prepared with
  | error e => exact pure fun _ _ => delivers_nil
  | ok out =>
    obtain ⟨m, identity⟩ := out
    have hpaths : ∀ p i, (p, i) ∈ createdBy spec m identity → paths p := by
      intro p i hmem
      cases (createdBy_path hmem).1
      exact hpath
    have hjournal : Keeps μ conf paths (fun p i => (p, i) ∈ createdBy spec m identity)
        (journalDisk v index spec.hostPath m identity) :=
      keeps_journalDisk hpaths hindex fun horigin => by simp [createdBy, horigin]
    refine bind (P := fun _ => Cleared μ fun p i => (p, i) ∈ createdBy spec m identity)
      (attempt (hjournal.pre fun s hs p i hmem => ?_)) fun result =>
        pure fun s hs => ⟨fun disk => hpaths disk.1 disk.2, hs⟩
    obtain ⟨hdisk, horigin⟩ := createdBy_path hmem
    exact hs _ rfl horigin p i (congrArg Prod.fst hdisk)

theorem only_orRollback {p : M α} (h : Only Op.Mild p) : Only Op.Mild (orRollback v p) := by
  unfold orRollback
  refine bind (attempt h) fun r => ?_
  cases r with
  | ok a => exact pure a
  | error e => exact bind (only_perform trivial) fun _ => throw e

theorem only_provisionNetwork (networkId : BitVec 128) :
    Only Op.Mild (provisionNetwork v networkId) := by
  unfold provisionNetwork
  refine bind (only_orRollback (only_perform trivial)) fun _ => ?_
  refine Only.bind (only_orRollback (only_perform (Mild.setNetworkId _))) fun _ => ?_
  refine Only.bind (only_orRollback (only_perform trivial)) fun endpointId => ?_
  exact only_orRollback (only_perform (Mild.setEndpointId endpointId))

theorem only_provisionCompute : Only Op.Mild (provisionCompute v) :=
  Only.bind (only_perform trivial) fun _ => only_perform Mild.startingRecord

theorem heeds_withoutDisks {p : M Unit} (h : Keeps μ conf paths claims p) :
    Heeds μ conf paths (Cleared μ claims) (withoutDisks p) (Delivers μ paths) fun _ _ => True := by
  unfold withoutDisks
  refine bind (P := fun _ => Cleared μ claims) (attempt h) fun result => ?_
  exact pure fun _ _ => delivers_nil

theorem disk_of_mem_launchSteps
    (h : Step.disk index spec ∈ launchSteps (conf v).network (conf v).specs) :
    (conf v).paths[index]? = some spec.hostPath := by
  simp only [launchSteps, mem_append, mem_toList, map_eq_some_iff,
    mem_mapIdx, mem_singleton, reduceCtorEq, and_false, exists_false, false_or,
    or_false, Step.disk.injEq] at h
  obtain ⟨i, hi, rfl, rfl⟩ := h
  simp [Conf.paths, hi]

theorem heeds_provision {step : Step} (hv : ∀ p ∈ (conf v).paths, paths p)
    (hstep : step ∈ launchSteps (conf v).network (conf v).specs) :
    Heeds μ conf paths (fun _ => True) (provision v step) (Delivers μ paths) fun _ _ => True := by
  have hnone : ∀ s, True → Cleared μ (fun _ _ => False) s := fun _ _ _ _ h => h.elim
  have honly : ∀ {p : M Unit}, Only Op.Mild p →
      Heeds μ conf paths (fun _ => True) (withoutDisks p) (Delivers μ paths) fun _ _ => True :=
    fun h => (heeds_withoutDisks (keeps_of_only h fun _ _ h => h.elim)).pre hnone
  cases step with
  | network networkId => exact honly (only_provisionNetwork networkId)
  | compute => exact honly only_provisionCompute
  | disk index spec =>
    have hindex := disk_of_mem_launchSteps hstep
    exact heeds_provisionDisk (hv _ (mem_of_getElem? hindex)) hindex

end

end Jyth.Hcs
