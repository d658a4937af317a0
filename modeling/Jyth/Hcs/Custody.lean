import Jyth.Hcs.Lifecycle
import Jyth.Lib.Interference

/-!
# Files that must not be deleted

What a pass over a VM's resources may do to files under a mark: those a published VM
attached as persistent disks, or those that were not created by a launch or that a
launch found at its disk path.  A record
*claims* the files its cleanup would delete.  In an `Orderly` state no claimed file is
marked.

    Spares μ conf s s'          the change from s to s' keeps this so, marks no file,
                                and deletes no marked one
    Leaves μ conf paths s s'    what a pass that works on `paths` expects of others
-/

namespace Jyth.Hcs

open Format Effect List

/-- What a VM is launched with; its id is used for one launch. -/
structure Conf where
  session : SessionId
  network : Option (BitVec 128)
  specs : List DiskSpec

def Conf.paths (conf : Conf) : List Path := conf.specs.map (·.hostPath)

/-- A mark on files; neither creation by a launch nor an access rule brings one. -/
structure Mark where
  flag : File → Bool
  fresh : ∀ identity v, flag ⟨identity, some v, false, false, []⟩ = false
  aces : ∀ file aces, flag { file with aces := aces } = flag file

/-- A published VM attached it as a persistent disk. -/
def Mark.kept : Mark := ⟨File.kept, fun _ _ => rfl, fun _ _ => rfl⟩

/-- A launch found it, or no launch created it. -/
def Mark.foreign : Mark :=
  ⟨fun file => file.found || file.maker.isNone, fun _ _ => rfl, fun _ _ => rfl⟩

/-- The file with this identity at the path, if it is there, has no mark. -/
def Unmarked (μ : Mark) (s : System) (path : Path) (identity : FileIdentity) : Prop :=
  ∀ file, s.files path = some file → file.identity = identity → μ.flag file = false

/-! ## Claims -/

variable {identity : FileIdentity} {path : Path}

namespace DiskResource

/-- The disk would be deleted at this path, if the file has the identity. -/
def Claims (disk : DiskResource) (path : Path) (identity : FileIdentity) : Prop :=
  disk.path = path ∧ disk.origin = .createdByLaunch ∧ disk.deletable = true ∧
    disk.fileIdentity = some identity

/-- What decides on the path and the claims of a disk. -/
def key (disk : DiskResource) : Path × DiskOrigin × DiskRetention × Bool × Option FileIdentity :=
  (disk.path, disk.origin, disk.effectiveRetention, disk.published, disk.fileIdentity)

variable {disk disk' : DiskResource}

theorem Claims.of_key (h : disk'.Claims path identity)
    (hkey : disk'.key = disk.key) : disk.Claims path identity := by
  simp only [key, Prod.mk.injEq] at hkey
  obtain ⟨hpath, horigin, hretention, hpublished, hidentity⟩ := hkey
  simp only [Claims, deletable, hpath, horigin, hretention, hpublished, hidentity] at h ⊢
  exact h

end DiskResource

variable {f : DiskResource → DiskResource}

theorem map_modify_of_eq {β : Type} {disks : List DiskResource} {index : Nat}
    {g : DiskResource → β} (h : ∀ disk, g (f disk) = g disk) :
    (disks.modify index f).map g = disks.map g := by
  refine ext_getElem? fun i => ?_
  simp only [getElem?_map, getElem?_modify]
  split
  · simp [Function.comp_def, h]
  · simp

namespace VmResourceRecord

/-- Some disk of the record claims the file. -/
def Claims (record : VmResourceRecord) (path : Path) (identity : FileIdentity) : Prop :=
  ∃ disk ∈ record.disks, disk.Claims path identity

variable {record new : VmResourceRecord}

theorem paths_of_keys (h : new.disks.map (·.key) = record.disks.map (·.key)) :
    new.disks.map (·.path) = record.disks.map (·.path) := by
  have hfst := congrArg (List.map Prod.fst) h
  simpa [Function.comp_def, DiskResource.key] using hfst

theorem Claims.of_keys (hclaim : new.Claims path identity)
    (h : new.disks.map (·.key) = record.disks.map (·.key)) : record.Claims path identity := by
  obtain ⟨disk, hdisk, hclaim⟩ := hclaim
  have hmem : disk.key ∈ record.disks.map (·.key) := h ▸ mem_map_of_mem hdisk
  obtain ⟨old, hold, hkey⟩ := mem_map.1 hmem
  exact ⟨old, hold, hclaim.of_key hkey.symm⟩

end VmResourceRecord

/-- An update that changes neither the paths nor the claims of a record. -/
def Mild (update : VmResourceRecord → VmResourceRecord) : Prop :=
  ∀ record, (update record).vmId = record.vmId ∧
    (update record).disks.map (·.key) = record.disks.map (·.key)

namespace Mild

theorem modifyDisk {index : Nat}
    (h : ∀ disk, (f disk).key = disk.key) : Mild (·.modifyDisk index f) :=
  fun _ => ⟨rfl, map_modify_of_eq h⟩

theorem setState (resource : Resource) (state : ResourceState) : Mild (·.setState resource state) := by
  cases resource with
  | computeSystem | network => exact fun _ => ⟨rfl, rfl⟩
  | disk index => exact modifyDisk fun _ => rfl

theorem failedRecord (resource : Resource) (failure : CleanupFailure) :
    Mild (failedRecord resource failure) := setState resource .removalFailed

theorem abandonedRecord (entries : List AbandonedResourceEntry) : Mild (abandonedRecord entries) := by
  intro record
  refine ⟨rfl, ?_⟩
  simp only [Hcs.abandonedRecord, map_map]
  rfl

theorem beginCleanup : Mild beginCleanup := fun _ => ⟨rfl, rfl⟩

theorem completed : Mild completed := fun _ => ⟨rfl, rfl⟩

theorem setNetworkId (id : Text) : Mild (setNetworkId id) := fun _ => ⟨rfl, rfl⟩

theorem setEndpointId (id : Text) : Mild (setEndpointId id) := fun _ => ⟨rfl, rfl⟩

theorem startingRecord : Mild startingRecord := fun _ => ⟨rfl, rfl⟩

end Mild

/-! ## Orderly states -/

/-- An entry of the journal as the launch of its VM has filed it; it claims no marked file. -/
structure Filed (μ : Mark) (conf : VmId → Conf) (s : System) (v : VmId) (entry : Entry) : Prop where
  session : entry.session = (conf v).session
  vmId : entry.record.vmId = v
  paths : entry.record.disks.map (·.path) = (conf v).paths
  unmarked : ∀ path identity, entry.record.Claims path identity → Unmarked μ s path identity

/-- Every entry of the journal is filed so. -/
def Orderly (μ : Mark) (conf : VmId → Conf) (s : System) : Prop :=
  ∀ v entry, s.records.lookup v = some entry → Filed μ conf s v entry

/-- A step keeps the order, marks nothing and deletes no marked file. -/
structure Spares (μ : Mark) (conf : VmId → Conf) (s s' : System) : Prop where
  orderly : Orderly μ conf s'
  unmarked : ∀ path identity, Unmarked μ s path identity → Unmarked μ s' path identity
  deleted : ∀ file ∈ s'.deleted, file ∈ s.deleted ∨ μ.flag file = false

/-- Others keep the order, and mark nothing at these paths. -/
structure Leaves (μ : Mark) (conf : VmId → Conf) (paths : Path → Prop) (s s' : System) : Prop where
  orderly : Orderly μ conf s'
  unmarked : ∀ path, paths path → ∀ identity, Unmarked μ s path identity →
    Unmarked μ s' path identity

section

variable {μ : Mark} {conf : VmId → Conf} {paths : Path → Prop} {s s' s'' : System} {v : VmId}
variable {entry : Entry}

theorem Filed.mem_paths (h : Filed μ conf s v entry)
    (hclaim : entry.record.Claims path identity) : path ∈ (conf v).paths := by
  obtain ⟨disk, hdisk, rfl, -⟩ := hclaim
  exact h.paths ▸ mem_map_of_mem hdisk

theorem Spares.leaves (h : Spares μ conf s s') : Leaves μ conf paths s s' :=
  ⟨h.orderly, fun path _ => h.unmarked path⟩

theorem Leaves.trans (h : Leaves μ conf paths s s') (h' : Leaves μ conf paths s' s'') :
    Leaves μ conf paths s s'' :=
  ⟨h'.orderly, fun path hpath identity hs =>
    h'.unmarked path hpath identity (h.unmarked path hpath identity hs)⟩

theorem Orderly.spares (h : Orderly μ conf s)
    (hrecords : ∀ v entry, s'.records.lookup v = some entry → s.records.lookup v = some entry)
    (hunmarked : ∀ path identity, Unmarked μ s path identity → Unmarked μ s' path identity)
    (hdeleted : s'.deleted = s.deleted) : Spares μ conf s s' := by
  refine ⟨fun v entry hentry => ?_, hunmarked, fun file hfile => .inl (hdeleted ▸ hfile)⟩
  have hfiled := h v entry (hrecords v entry hentry)
  refine { hfiled with unmarked := fun path identity hclaim => ?_ }
  exact hunmarked path identity (hfiled.unmarked path identity hclaim)

theorem Orderly.spares_same (h : Orderly μ conf s) (hrecords : s'.records = s.records)
    (hfiles : s'.files = s.files) (hdeleted : s'.deleted = s.deleted) : Spares μ conf s s' := by
  refine h.spares (fun v entry hentry => hrecords ▸ hentry) (fun path identity hs => ?_) hdeleted
  unfold Unmarked
  rw [hfiles]
  exact hs

theorem Orderly.refl (h : Orderly μ conf s) : Spares μ conf s s := h.spares_same rfl rfl rfl

/-! ## Records -/

theorem System.recordOf_eq_some {record : VmResourceRecord} : s.recordOf v = some record ↔
    ∃ sid, s.records.lookup v = some ⟨sid, record⟩ := by
  rw [System.recordOf, Option.map_eq_some_iff]
  constructor
  · rintro ⟨⟨sid, record⟩, h, rfl⟩
    exact ⟨sid, h⟩
  · rintro ⟨sid, h⟩
    exact ⟨_, h, rfl⟩

theorem lookup_insert_apply {t : AList fun _ : VmId => Entry} {w : VmId} {new : Entry} :
    (t.insert v new).lookup w = if w = v then some new else t.lookup w := by
  by_cases h : w = v
  · rw [if_pos h, h, AList.lookup_insert]
  · rw [if_neg h, AList.lookup_insert_ne h]

theorem Orderly.insert (h : Orderly μ conf s) (hfiled : Filed μ conf s v entry) :
    Spares μ conf s { s with records := s.records.insert v entry } := by
  refine ⟨fun w other hother => ?_, fun _ _ => id, fun _ => .inl⟩
  rw [lookup_insert_apply] at hother
  split at hother
  · next hw =>
    cases hother
    subst hw
    exact { hfiled with }
  · exact { h w other hother with }

variable {record new : VmResourceRecord}

theorem System.setRecord_eq {sid : SessionId} (h : s.records.lookup v = some ⟨sid, record⟩) :
    s.setRecord v new = { s with records := s.records.insert v ⟨sid, new⟩ } := by
  rw [System.setRecord, h]

theorem Orderly.setRecord (h : Orderly μ conf s)
    (hrecord : s.recordOf v = some record) (hvm : new.vmId = record.vmId)
    (hpaths : new.disks.map (·.path) = record.disks.map (·.path))
    (hclaims : ∀ path identity, new.Claims path identity →
      record.Claims path identity ∨ Unmarked μ s path identity) :
    Spares μ conf s (s.setRecord v new) := by
  obtain ⟨sid, hlookup⟩ := System.recordOf_eq_some.1 hrecord
  have hfiled := h v _ hlookup
  rw [System.setRecord_eq hlookup]
  refine h.insert ⟨hfiled.session, hvm.trans hfiled.vmId, hpaths.trans hfiled.paths, ?_⟩
  intro path identity hclaim
  rcases hclaims path identity hclaim with hold | hunmarked
  · exact hfiled.unmarked path identity hold
  · exact hunmarked

theorem Orderly.update {update : VmResourceRecord → VmResourceRecord} {record : VmResourceRecord}
    (h : Orderly μ conf s) (hrecord : s.recordOf v = some record) (hmild : Mild update) :
    Spares μ conf s (s.setRecord v (update record)) := by
  obtain ⟨hvm, hkeys⟩ := hmild record
  exact h.setRecord hrecord hvm (VmResourceRecord.paths_of_keys hkeys)
    fun _ _ hclaim => .inl (hclaim.of_keys hkeys)

/-- Records are gone, and nothing else has changed. -/
structure Fewer (s s' : System) : Prop where
  records : ∀ v entry, s'.records.lookup v = some entry → s.records.lookup v = some entry
  files : s'.files = s.files
  deleted : s'.deleted = s.deleted

theorem Fewer.trans (h : Fewer s s') (h' : Fewer s' s'') : Fewer s s'' where
  records v entry hentry := h.records v entry (h'.records v entry hentry)
  files := h'.files.trans h.files
  deleted := h'.deleted.trans h.deleted

theorem Fewer.spares (h : Fewer s s') (hs : Orderly μ conf s) : Spares μ conf s s' := by
  refine hs.spares h.records (fun path identity hunmarked => ?_) h.deleted
  unfold Unmarked
  rw [h.files]
  exact hunmarked

theorem fewer_removeRecord (s : System) (v : VmId) : Fewer s (s.removeRecord v) := by
  refine ⟨fun w entry hentry => ?_, rfl, rfl⟩
  by_cases hw : w = v
  · rw [hw, System.removeRecord, AList.lookup_erase] at hentry
    cases hentry
  · rwa [System.removeRecord, AList.lookup_erase_ne hw] at hentry

theorem fewer_removeRow (s : System) (v : VmId) : Fewer s (s.removeRow v) :=
  ⟨fun _ _ => id, rfl, rfl⟩

theorem fewer_foldl {f : System → VmId → System} (h : ∀ s v, Fewer s (f s v)) (ids : List VmId)
    (s : System) : Fewer s (ids.foldl f s) := by
  induction ids generalizing s with
  | nil => exact ⟨fun _ _ => id, rfl, rfl⟩
  | cons v ids ih => exact (h s v).trans (ih (f s v))

theorem fewer_removeSession (s : System) (sid : SessionId) : Fewer s (s.removeSession sid) :=
  (fewer_foldl fewer_removeRecord _ s).trans
    (fewer_foldl fewer_removeRow _ _)

/-! ## Files -/

variable {path p : Path} {identity : FileIdentity}

theorem Unmarked.putFile {file : File} (h : Unmarked μ s p identity)
    (hfile : p = path → file.identity = identity → μ.flag file = false) :
    Unmarked μ (s.putFile path file) p identity := by
  intro other hother hidentity
  replace hother := (Table.insert_apply _ _ _ _).symm.trans hother
  split at hother
  · next hp =>
    cases hother
    exact hfile hp hidentity
  · exact h other hother hidentity

section

variable (h : Appears path (some v) s s')
include h

theorem Appears.unmarked (hs : Unmarked μ s p identity) : Unmarked μ s' p identity := by
  obtain ⟨-, new, -, rfl⟩ := h
  exact hs.putFile fun _ _ => μ.fresh new v

theorem Appears.spares (hs : Orderly μ conf s) : Spares μ conf s s' := by
  have hunmarked : ∀ p identity, Unmarked μ s p identity → Unmarked μ s' p identity :=
    fun _ _ => h.unmarked
  obtain ⟨-, new, -, rfl⟩ := h
  exact hs.spares (fun _ _ => id) hunmarked rfl

theorem Appears.cleared : Unmarked μ s' path identity := by
  obtain ⟨-, new, -, rfl⟩ := h
  intro file hfile _
  replace hfile := (Table.insert_apply _ _ _ _).symm.trans hfile
  rw [if_pos rfl] at hfile
  cases hfile
  exact μ.fresh new v

end

theorem Unmarked.remove (h : Unmarked μ s p identity) :
    Unmarked μ { s with files := s.files.remove path } p identity := by
  intro file hfile hidentity
  replace hfile := (Table.remove_apply _ _ _).symm.trans hfile
  split at hfile
  · cases hfile
  · exact h file hfile hidentity

variable {f : List VmId → List VmId}

theorem Unmarked.setAces (h : Unmarked μ s p identity) :
    Unmarked μ (setAces s path f) p identity := by
  unfold Hcs.setAces
  split
  · next old hold =>
    exact h.putFile fun hp hidentity => (μ.aces old _).trans (h old (hp ▸ hold) hidentity)
  · exact h

theorem Orderly.setAces (h : Orderly μ conf s) : Spares μ conf s (setAces s path f) := by
  refine h.spares (fun v entry hentry => ?_) (fun _ _ => Unmarked.setAces) ?_
  · unfold Hcs.setAces at hentry
    split at hentry <;> exact hentry
  · unfold Hcs.setAces
    split <;> rfl

theorem Orderly.deleteFile (h : Orderly μ conf s) (hfree : ∀ identity, Unmarked μ s path identity) :
    Spares μ conf s (s.deleteFile path) := by
  unfold System.deleteFile
  split
  · next file hfile =>
    refine ⟨fun v entry hentry => ?_, fun _ _ hs => hs.remove, fun other hother => ?_⟩
    · have hfiled := h v entry hentry
      refine { hfiled with unmarked := fun p identity hclaim => ?_ }
      exact (hfiled.unmarked p identity hclaim).remove
    · rcases mem_cons.1 hother with rfl | hold
      · exact .inr (hfree _ other hfile rfl)
      · exact .inl hold
  · exact h.refl

end

/-! ## Operations -/

/-- The operations that spare in any orderly state. -/
def Op.Mild : Op → Prop
  | .putVm _ _ | .publishVm _ | .claimPath _ | .removeFile _ => False
  | .updateVm _ update => Hcs.Mild update
  | _ => True

section

variable {μ : Mark} {conf : VmId → Conf} {s s' : System} {α : Type} {r : Except Text α}

theorem Commits.spares {a : α} {t : System} (h : Commits s a t r s')
    (hs : Orderly μ conf s) (ht : Spares μ conf s t) : Spares μ conf s s' := by
  rcases h with ⟨-, rfl⟩ | ⟨-, rfl⟩
  · exact ht
  · exact hs.refl

theorem Affects.spares {T : System → Prop} (h : Affects s T r s')
    (hs : Orderly μ conf s) (hT : ∀ t, T t → Spares μ conf s t) : Spares μ conf s s' := by
  rcases h with ⟨-, ht⟩ | ⟨-, rfl | ht⟩
  · exact hT _ ht
  · exact hs.refl
  · exact hT _ ht

theorem NetworkFades.spares {v : VmId} (h : NetworkFades v s s') (hs : Orderly μ conf s) :
    Spares μ conf s s' := by
  obtain ⟨_, _, -, -, rfl⟩ := h
  exact hs.spares_same rfl rfl rfl

theorem Op.Mild.spares {op : Op} {r : op.Ans} (h : op.Mild) (hs : Orderly μ conf s)
    (hop : world op s r s') : Spares μ conf s s' := by
  have hother : ∀ t, (t.records = s.records ∧ t.files = s.files ∧ t.deleted = s.deleted) →
      Spares μ conf s t := fun t ht => hs.spares_same ht.1 ht.2.1 ht.2.2
  cases op with
  | putVm sid record | publishVm v | removeFile path | claimPath path => exact h.elim
  | updateVm v update =>
    rcases hop with ⟨record, hrecord, -, rfl⟩ | ⟨-, rfl⟩
    · exact hs.update hrecord h
    · exact hs.refl
  | vm _ | allVms _ | abandoned _ | hasAbandoned _ | validateVhdx path =>
    exact Commits.spares hop hs hs.refl
  | removeVm v => exact Commits.spares hop hs ((fewer_removeRecord s v).spares hs)
  | putAbandoned sid record | removeAbandoned v =>
    exact Commits.spares hop hs (hother _ ⟨rfl, rfl, rfl⟩)
  | removeSession sid => exact Commits.spares hop hs ((fewer_removeSession s sid).spares hs)
  | unixTimeMs | pathExists path =>
    obtain ⟨-, rfl⟩ := hop
    exact hs.refl
  | rollbackNetwork v => exact NetworkFades.spares hop.2 hs
  | deleteNetwork v => exact NetworkFades.spares hop.1 hs
  | createNetwork v | createEndpoint v | createComputeSystem v | removeComputeSystem v =>
    have hop : Affects s (fun t => t = _) r s' := hop
    exact hop.spares hs fun t ht => hother t (ht ▸ ⟨rfl, rfl, rfl⟩)
  | createVhdx v path =>
    have hop : Affects s (Appears path (some v) s) r s' := hop
    exact hop.spares hs fun t ht => ht.spares hs
  | fileIdentity path =>
    obtain ⟨rfl, -⟩ := hop
    exact hs.refl
  | grantAccess v path | revokeAccess v path => exact Commits.spares hop hs hs.setAces

end

end Jyth.Hcs
