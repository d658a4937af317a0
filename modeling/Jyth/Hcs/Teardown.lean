import Jyth.Hcs.Histories

/-!
# The order of a teardown

A cleanup pass removes the compute system, then the network, then the disks, and goes on
when a removal fails.  So network and disks are only taken from a VM whose compute
system is removed if that first removal does not fail, or fails in a way that is read as
absence (`Clears`).

    Clears → deletions of network and disks find the compute system removed   (teardown_ordered)
-/

namespace Jyth.Hcs

open Format Effect Only Triple

/-! ## Statement -/

/-- The operations that take away a network, a disk's access rule or its file. -/
def Op.Dismantles : Op → Prop
  | .deleteNetwork _ | .revokeAccess _ _ | .removeFile _ => True
  | _ => False

/-- The record says that the compute system is removed. -/
def Released (v : VmId) (s : System) : Prop :=
  ∃ record, s.recordOf v = some record ∧ record.computeSystem.state = .removed

/-- The removal of a compute system succeeds, or fails because there is none. -/
def Clears : (op : Op) → op.Ans → Prop
  | .removeComputeSystem _, r => ∀ e, r = .error e → resourceIsAbsent e = true
  | _, _ => True

def clearing : World System Op Op.Ans := fun op s r s' => world op s r s' ∧ Clears op r

/-- Others leave the record of the VM alone. -/
def LeavesRecord (v : VmId) (s s' : System) : Prop := s'.recordOf v = s.recordOf v

/-- Network and disks are taken away only from a released VM. -/
def Orders (v : VmId) (op : Op) (s _ : System) : Prop := op.Dismantles → Released v s

section Steps

variable {α : Type} {v : VmId} {s s' : System}

theorem stable_released : Stable (LeavesRecord v) (Released v) := by
  rintro s s' hsame ⟨record, hrecord, hstate⟩
  exact ⟨record, hsame.trans hrecord, hstate⟩

theorem stable_record (record : VmResourceRecord) :
    Stable (LeavesRecord v) fun s => s.recordOf v = some record :=
  fun _ _ hsame hrecord => hsame.trans hrecord

theorem recordOf_setRecord {record new : VmResourceRecord} (h : s.recordOf v = some record) :
    (s.setRecord v new).recordOf v = some new := by
  obtain ⟨sid, hlookup⟩ := System.recordOf_eq_some.1 h
  rw [System.setRecord_eq hlookup]
  simp [System.recordOf]

/-- An update that leaves a removed compute system removed. -/
def Releasing (update : VmResourceRecord → VmResourceRecord) : Prop :=
  ∀ record, record.computeSystem.state = .removed → (update record).computeSystem.state = .removed

/-- Operations after which a released VM is still released. -/
def Op.Retains (v : VmId) : Op → Prop
  | .updateVm w update => w = v ∧ Releasing update
  | .deleteNetwork _ | .pathExists _ | .revokeAccess _ _ | .removeFile _ | .fileIdentity _ => True
  | _ => False

theorem Released.of_records (h : Released v s) (hrecords : s'.records = s.records) :
    Released v s' := by
  obtain ⟨record, hrecord, hstate⟩ := h
  refine ⟨record, ?_, hstate⟩
  rwa [System.recordOf, hrecords]

theorem records_setAces (s : System) (path : Path) (f : List VmId → List VmId) :
    (setAces s path f).records = s.records := by
  unfold setAces
  split <;> rfl

theorem records_deleteFile (s : System) (path : Path) : (s.deleteFile path).records = s.records := by
  unfold System.deleteFile
  split <;> rfl

variable {op : Op} {I : System → Prop} {p : M α}

theorem Op.Retains.released {r : op.Ans} (h : op.Retains v) (hs : Released v s)
    (hop : world op s r s') : Released v s' := by
  cases op with
  | updateVm w update =>
    obtain ⟨rfl, hupdate⟩ := h
    rcases hop with ⟨record, hrecord, -, rfl⟩ | ⟨-, rfl⟩
    · obtain ⟨old, hold, hstate⟩ := hs
      obtain rfl : record = old := Option.some.inj (hrecord.symm.trans hold)
      exact ⟨_, recordOf_setRecord hrecord, hupdate record hstate⟩
    · exact hs
  | deleteNetwork w =>
    obtain ⟨⟨network, endpoint, -, -, rfl⟩, -⟩ := hop
    exact hs.of_records rfl
  | pathExists path =>
    obtain ⟨-, rfl⟩ := hop
    exact hs
  | revokeAccess w path =>
    rcases hop with ⟨-, rfl⟩ | ⟨-, rfl⟩
    · exact hs.of_records (records_setAces _ _ _)
    · exact hs
  | removeFile path =>
    rcases hop with ⟨-, rfl⟩ | ⟨-, rfl⟩
    · exact hs.of_records (records_deleteFile _ _)
    · exact hs
  | fileIdentity path =>
    obtain ⟨rfl, -⟩ := hop
    exact hs
  | _ => exact h.elim

theorem triple_retains (h : Only (Op.Retains v) p) :
    Triple clearing (LeavesRecord v) (Orders v) (Released v) p (fun _ => Released v)
      fun _ => Released v := by
  intro s hs
  induction p generalizing s with
  | done r => cases r <;> exact hs
  | step op next ih =>
    intro s₁ hs₁ r s' hop
    have hreleased := stable_released hs₁ hs
    exact ⟨fun _ => hreleased, ih r (h.2 r) s' (h.1.released hreleased hop.1)⟩

theorem triple_harmless (h : Only (fun op => ¬ op.Dismantles) p) :
    Triple clearing (LeavesRecord v) (Orders v) I p (fun _ _ => True) fun _ _ => True := by
  intro s hs
  clear hs
  induction p generalizing s with
  | done r => cases r <;> trivial
  | step op next ih =>
    intro s₁ _ r s' _
    exact ⟨fun hop => absurd hop h.1, ih r (h.2 r) s'⟩

theorem triple_call {Q : op.Result → System → Prop}
    {E : Text → System → Prop} (hharmless : ¬ op.Dismantles) (hI : Stable (LeavesRecord v) I)
    (h : ∀ s r s', I s → clearing op s r s' → Post Q E r s') :
    Triple clearing (LeavesRecord v) (Orders v) I (perform op) Q E := by
  intro s hs s₁ hs₁ r s' hop
  refine ⟨fun hdismantles => absurd hdismantles hharmless, ?_⟩
  have hpost := h s₁ r s' (hI hs₁ hs) hop
  cases r with
  | ok a | error e => exact hpost

end Steps

/-! ## The pass -/

section Pass

variable {sid : SessionId} {v : VmId}

variable {op : Op} {resource : Resource}

theorem releasing_setState (h : resource ≠ .computeSystem)
    (state : ResourceState) : Releasing (·.setState resource state) := by
  intro record hstate
  cases resource with
  | computeSystem => exact absurd rfl h
  | network | disk index => exact hstate

theorem only_retains (h : op.Retains v) : Only (Op.Retains v) (perform op) :=
  ⟨h, fun _ => trivial⟩

theorem only_harmless (h : ¬ op.Dismantles) : Only (fun op => ¬ op.Dismantles) (perform op) :=
  ⟨h, fun _ => trivial⟩

/-- The operations of a disk's removal. -/
def Op.Unlinks : Op → Prop
  | .pathExists _ | .revokeAccess _ _ | .removeFile _ | .fileIdentity _ => True
  | _ => False

theorem only_unlinks (h : op.Unlinks) : Only Op.Unlinks (perform op) :=
  ⟨h, fun _ => trivial⟩

theorem only_removeDisk (disk : DiskResource) : Only Op.Unlinks (removeDisk v disk) := by
  unfold removeDisk
  split
  · exact pure _
  refine bind ?_ fun _ => ?_
  · unfold revokeIfAdded
    split
    · refine bind (only_unlinks trivial) fun found => ?_
      split
      · exact only_unlinks trivial
      · exact pure _
    · exact pure _
  · unfold deleteOwned
    split
    · exact pure _
    refine bind (only_unlinks trivial) fun found => ?_
    split
    · cases disk.fileIdentity with
      | none => exact throw _
      | some expected =>
        refine bind (only_unlinks trivial) fun current => ?_
        split
        · exact throw _
        · refine bind (attempt (only_unlinks trivial)) fun result => ?_
          cases result with
          | ok _ => exact pure _
          | error e => exact throw _
    · exact pure _

variable {ok : Op → Prop}

theorem only_removeResource_disk (h : ∀ op : Op, op.Unlinks → ok op)
    (record : VmResourceRecord) (index : Nat) :
    Only ok (removeResource v record (.disk index)) := by
  change Only ok (record.disks[index]?.elim (return ()) (removeDisk v) : M Unit)
  cases record.disks[index]? with
  | none => exact pure _
  | some disk => exact (only_removeDisk disk).mono h

theorem only_cleanupResource {record : VmResourceRecord}
    (hremove : Only ok (removeResource v record resource))
    (hremoved : ok (.updateVm v (·.setState resource .removed)))
    (hfailed : ∀ failure, ok (.updateVm v (failedRecord resource failure))) :
    Only ok (cleanupResource v record resource) := by
  have hmark : Only ok (markRemoved v resource) := ⟨hremoved, fun r => by cases r <;> trivial⟩
  unfold cleanupResource
  split
  · exact pure _
  cases record.identity resource with
  | none => exact pure _
  | some identity =>
    refine bind (attempt hremove) fun result => ?_
    cases result with
    | ok _ => exact hmark
    | error cause =>
      change Only ok (if resourceIsAbsent cause then markRemoved v resource
        else markFailed v resource ⟨resource.kind, identity, cause⟩)
      split
      · exact hmark
      · exact ⟨hfailed _, fun r => by cases r <;> trivial⟩

theorem retains_cleanupResource (record : VmResourceRecord)
    (h : resource ≠ .computeSystem) : Only (Op.Retains v) (cleanupResource v record resource) := by
  refine only_cleanupResource ?_ ⟨rfl, releasing_setState h _⟩
    fun _ => ⟨rfl, fun record hstate => releasing_setState h _ record hstate⟩
  cases resource with
  | computeSystem => exact absurd rfl h
  | network => exact only_retains trivial
  | disk index =>
    refine only_removeResource_disk (fun op hop => ?_) record index
    cases op <;> first | exact hop.elim | trivial

theorem retains_cleanupEach (record : VmResourceRecord) {resources : List Resource}
    (h : ∀ resource ∈ resources, resource ≠ .computeSystem) :
    Only (Op.Retains v) (cleanupEach v record resources) := by
  induction resources with
  | nil => exact pure _
  | cons resource rest ih =>
    refine bind (retains_cleanupResource record (h resource List.mem_cons_self)) fun _ => ?_
    exact bind (ih fun r hr => h r (List.mem_cons_of_mem _ hr)) fun _ => pure _

theorem triple_cleanupCompute (record : VmResourceRecord) :
    Triple clearing (LeavesRecord v) (Orders v) (fun s => s.recordOf v = some record)
      (cleanupResource v record .computeSystem) (fun _ => Released v) fun _ _ => True := by
  unfold cleanupResource
  split
  · next hstate =>
    exact pure fun s hs => ⟨record, hs, Option.some.inj hstate⟩
  have hremove : Triple clearing (LeavesRecord v) (Orders v) (fun s => s.recordOf v = some record)
      (attempt (removeResource v record .computeSystem))
      (fun result s => (∀ e, result = .error e → resourceIsAbsent e = true) ∧
        s.recordOf v = some record) fun _ _ => True := by
    refine attempt (triple_call id (stable_record record) fun s r s' hs hop => ?_)
    have hrecord : s'.recordOf v = some record := by
      rcases hop.1 with ⟨-, rfl⟩ | ⟨-, rfl | rfl⟩ <;> exact hs
    cases r with
    | ok _ => exact ⟨fun e he => (by cases he), hrecord⟩
    | error e => exact ⟨hop.2, hrecord⟩
  have hmark : Triple clearing (LeavesRecord v) (Orders v) (fun s => s.recordOf v = some record)
      (markRemoved v .computeSystem) (fun _ => Released v) fun _ _ => True := by
    refine bind (P := fun _ => Released v) ?_ fun _ => pure fun _ => id
    refine triple_call id (stable_record record) fun s r s' hs hop => ?_
    rcases hop.1 with ⟨old, hold, rfl, rfl⟩ | ⟨⟨e, rfl⟩, rfl⟩
    · exact ⟨_, recordOf_setRecord hold, rfl⟩
    · trivial
  refine bind hremove fun result => given fun habsent => ?_
  cases result with
  | ok _ => exact hmark
  | error cause =>
    unfold applyResourceOutcome
    simp only [habsent cause rfl, if_true]
    exact hmark

theorem harmless_readRecord : Only (fun op => ¬ op.Dismantles) (readRecord v) := by
  refine bind (only_harmless id) fun record => ?_
  cases record with
  | none => exact throw _
  | some record => exact pure _

theorem harmless_ending (failures : List CleanupFailure) : Only (fun op => ¬ op.Dismantles)
    (if failures = [] then finishCleanup v else giveUp sid v failures) := by
  split
  · exact bind (only_harmless id) fun _ =>
      bind (only_harmless id) fun _ => only_harmless id
  · refine bind harmless_readRecord fun record => ?_
    split
    · refine bind (only_harmless id) fun now => ?_
      refine bind (only_harmless id) fun existing => ?_
      refine bind ?_ fun _ => only_harmless id
      exact bind (only_harmless id) fun previous => only_harmless id
    · exact throw _

theorem triple_readRecord :
    Triple clearing (LeavesRecord v) (Orders v) (fun _ => True) (readRecord v)
      (fun record s => s.recordOf v = some record) fun _ _ => True := by
  have hread : Triple clearing (LeavesRecord v) (Orders v) (fun _ => True) (perform (.vm v))
      (fun found s => s.recordOf v = found) fun _ _ => True := by
    refine triple_call id (fun _ _ _ => id) fun s r s' _ hop => ?_
    rcases hop.1 with ⟨rfl, rfl⟩ | ⟨⟨e, rfl⟩, rfl⟩
    · rfl
    · trivial
  refine bind hread fun found => ?_
  cases found with
  | none => exact throw fun _ _ => trivial
  | some record => exact pure fun _ => id

end Pass

/-- In every pass on a host that removes compute systems or reports them as absent, while
others leave the record alone, network and disks are taken away only when the record's
compute system is removed. -/
theorem teardown_ordered (sid : SessionId) (v : VmId) (s : System) :
    Obeys clearing (LeavesRecord v) (Orders v) (fun _ _ => True) (cleanupRecord sid v) s := by
  have hpass : Triple clearing (LeavesRecord v) (Orders v) (fun _ => True) (cleanupRecord sid v)
      (fun _ _ => True) fun _ _ => True := by
    refine bind (triple_harmless (only_harmless id)) fun _ => ?_
    refine bind triple_readRecord fun record => ?_
    refine bind (P := fun _ _ => True) ?_ fun failures => triple_harmless (harmless_ending _)
    refine bind (triple_cleanupCompute record) fun first => ?_
    have hothers : ∀ resource ∈ Resource.network :: (List.range record.disks.length).map .disk,
        resource ≠ .computeSystem := by
      intro resource hmem heq
      simp [heq] at hmem
    refine bind (P := fun _ _ => True) ?_ fun _ => pure fun _ _ => trivial
    exact (triple_retains (retains_cleanupEach record hothers)).mono (fun _ => id)
      (fun _ _ _ => trivial) fun _ _ _ => trivial
  exact (hpass s trivial).mono fun _ _ _ => trivial

def runningRecord : VmResourceRecord :=
  startingRecord (setEndpointId (utf8 "e") (plannedRecord 1 (some 7) []))

def runningSystem : System := System.empty.putRecord 10 runningRecord

/-- The record when the removal of the compute system has failed. -/
def stuckRecord : VmResourceRecord :=
  failedRecord .computeSystem ⟨.computeSystem, uuidText 1, utf8 "busy"⟩ (beginCleanup runningRecord)

/-- If the compute system of a running VM cannot be removed, the pass deletes its network
all the same. -/
theorem network_taken_from_running_vm :
    ¬ Obeys world (LeavesRecord 1) (Orders 1) (fun _ _ => True) (cleanupRecord 10 1)
      runningSystem := by
  intro h
  let begun := runningSystem.setRecord 1 (beginCleanup runningRecord)
  have h₁ := (h runningSystem rfl (.ok ()) begun (.inl ⟨runningRecord, rfl, rfl, rfl⟩)).2
  have h₂ := (h₁ begun rfl (.ok (some (beginCleanup runningRecord))) begun (.inl ⟨rfl, rfl⟩)).2
  have h₃ := (h₂ begun rfl (.error (utf8 "busy")) begun (.inr ⟨⟨_, rfl⟩, .inl rfl⟩)).2
  let stuck := begun.setRecord 1 stuckRecord
  have h₄ := (h₃ begun rfl (.ok ()) stuck (.inl ⟨beginCleanup runningRecord, rfl, rfl, rfl⟩)).2
  let bare : System :=
    { stuck with
      network := Function.update stuck.network 1 false
      endpoint := Function.update stuck.endpoint 1 false }
  have hdelete : world (.deleteNetwork 1) stuck (.ok ()) bare :=
    ⟨⟨false, false, by simp, by simp, rfl⟩, fun _ => ⟨rfl, rfl⟩⟩
  obtain ⟨record, hrecord, hstate⟩ := (h₄ stuck rfl (.ok ()) bare hdelete).1 trivial
  have hstuck : stuck.recordOf 1 = some stuckRecord := rfl
  rw [hstuck] at hrecord
  rw [← Option.some.inj hrecord] at hstate
  exact absurd hstate (by decide)

end Jyth.Hcs
