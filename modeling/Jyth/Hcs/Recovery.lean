import Jyth.Hcs.Teardown

/-!
# Bounded recovery

What a completed cleanup pass does to a record: it removes it, or counts the attempt; from
the third attempt on every resource is removed or abandoned when it ends.  So at most
three passes can end with work left or with a resource newly abandoned, and after three
passes the record is terminal and goes without another removal.

    one pass:    the record is gone, or Advances record new        (stage_cleanupRecord)
    n passes:    min n 3 attempts, and from 3 on a settled record    (Passes.progress)
-/

namespace Jyth.Hcs

open Format Effect Option Function Triple VmResourceRecord

/-! ## Completed passes -/

/-- The transactions of the journal succeed. -/
def Journaled : (op : Op) → op.Ans → Prop
  | .updateVm _ _, r => ∃ a, r = .ok a
  | .vm _, r => ∃ a, r = .ok a
  | .removeVm _, r => ∃ a, r = .ok a
  | .abandoned _, r => ∃ a, r = .ok a
  | .putAbandoned _ _, r => ∃ a, r = .ok a
  | .removeAbandoned _, r => ∃ a, r = .ok a
  | _, _ => True

/-- Every resource is removed or given up. -/
def VmResourceRecord.Settled (record : VmResourceRecord) : Prop :=
  ∀ resource state, record.state resource = some state → state = .removed ∨ state = .abandoned

/-- What a pass makes of a record: one attempt more, nothing forgotten, nothing removed comes
back, and after the last attempt everything is settled. -/
structure Advances (record new : VmResourceRecord) : Prop where
  attempts : new.cleanupAttempts = (beginCleanup record).cleanupAttempts
  present : ∀ resource, (new.state resource).isSome = (record.state resource).isSome
  removed : ∀ resource, record.state resource = some .removed → new.state resource = some .removed
  settled : maxCleanupAttempts ≤ new.cleanupAttempts → new.Settled

/-! ## States of a record -/

variable {resource : Resource}

section States

variable {record current : VmResourceRecord}

theorem state_setState (record : VmResourceRecord) (resource other : Resource)
    (state : ResourceState) : (record.setState resource state).state other =
      if other = resource then (record.state resource).map fun _ => state
      else record.state other := by
  cases resource with
  | computeSystem =>
    cases other with
    | computeSystem => rfl
    | network | disk index => simp [VmResourceRecord.setState, VmResourceRecord.state]
  | network =>
    cases other with
    | computeSystem | disk index => simp [VmResourceRecord.setState, VmResourceRecord.state]
    | network =>
      simp [VmResourceRecord.setState, VmResourceRecord.state, comp_def]
  | disk index =>
    cases other with
    | computeSystem | network => simp [VmResourceRecord.setState, VmResourceRecord.state,
        modifyDisk]
    | disk other =>
      simp only [VmResourceRecord.setState, VmResourceRecord.state, VmResourceRecord.modifyDisk,
        List.getElem?_modify, Resource.disk.injEq]
      by_cases h : other = index
      · subst h
        simp [comp_def, DiskResource.setState]
      · simp [h, Ne.symm h]

theorem state_abandonedRecord (entries : List AbandonedResourceEntry) (record : VmResourceRecord)
    (resource : Resource) :
    (abandonedRecord entries record).state resource = (record.state resource).map abandonState := by
  cases resource with
  | computeSystem => rfl
  | network | disk index => simp [abandonedRecord, state, comp_def]

/-- What a pass leaves as it is: the record's resources and their names, and what was
removed. -/
structure During (record current : VmResourceRecord) : Prop where
  attempts : current.cleanupAttempts = record.cleanupAttempts
  resources : current.resources = record.resources
  named : ∀ resource, current.identity resource = record.identity resource
  present : ∀ resource, (current.state resource).isSome = (record.state resource).isSome
  removed : ∀ resource, record.state resource = some .removed →
    current.state resource = some .removed

/-- During the removals no further resource is given up. -/
structure Cleaning (record current : VmResourceRecord) : Prop extends During record current where
  unabandoned : ∀ resource, current.state resource = some .abandoned →
    record.state resource = some .abandoned

theorem Cleaning.refl (record : VmResourceRecord) : Cleaning record record :=
  ⟨⟨rfl, rfl, fun _ => rfl, fun _ => rfl, fun _ => id⟩, fun _ => id⟩

theorem resources_setState (record : VmResourceRecord) (resource : Resource)
    (state : ResourceState) : (record.setState resource state).resources = record.resources := by
  cases resource with
  | computeSystem | network => rfl
  | disk index =>
    simp [setState, modifyDisk, resources]

theorem identity_setState (record : VmResourceRecord) (resource other : Resource)
    (state : ResourceState) :
    (record.setState resource state).identity other = record.identity other := by
  cases resource with
  | computeSystem => cases other <;> rfl
  | network =>
    cases other with
    | computeSystem | disk index => rfl
    | network => simp [setState, identity, comp_def]
  | disk index =>
    cases other with
    | computeSystem | network => rfl
    | disk other =>
      simp only [setState, identity, modifyDisk, List.getElem?_modify]
      split
      · cases record.disks[other]? <;> rfl
      · cases record.disks[other]? <;> rfl

theorem Cleaning.setState (h : Cleaning record current)
    (hresource : record.state resource ≠ some .removed) {state : ResourceState}
    (hstate : state ≠ .abandoned) : Cleaning record (current.setState resource state) where
  attempts := by
    rw [← h.attempts]
    cases resource <;> rfl
  resources := by rw [resources_setState, h.resources]
  named other := by rw [identity_setState, h.named]
  present other := by
    rw [state_setState, ← h.present other]
    split
    · next heq => rw [heq, isSome_map]
    · rfl
  removed other hother := by
    rw [state_setState, if_neg]
    · exact h.removed other hother
    · rintro rfl
      exact hresource hother
  unabandoned other hother := by
    rw [state_setState] at hother
    split at hother
    · obtain ⟨old, -, hold⟩ := map_eq_some_iff.1 hother
      exact absurd hold hstate
    · exact h.unabandoned other hother

theorem Cleaning.failed (h : Cleaning record current)
    (hresource : record.state resource ≠ some .removed) (failure : CleanupFailure) :
    Cleaning record (failedRecord resource failure current) := by
  have hset : Cleaning record (current.setState resource .removalFailed) :=
    h.setState hresource (by decide)
  have hstate : ∀ r, (failedRecord resource failure current).state r =
      (current.setState resource .removalFailed).state r := fun r => by cases r <;> rfl
  have hidentity : ∀ r, (failedRecord resource failure current).identity r =
      (current.setState resource .removalFailed).identity r := fun r => by cases r <;> rfl
  exact ⟨⟨hset.attempts, hset.resources, fun r => (hidentity r).trans (hset.named r),
    fun r => (congrArg Option.isSome (hstate r)).trans (hset.present r),
    fun r hr => (hstate r).trans (hset.removed r hr)⟩,
    fun r hr => hset.unabandoned r ((hstate r).symm.trans hr)⟩

theorem abandonState_cases (state : ResourceState) :
    abandonState state = .removed ∨ abandonState state = .abandoned := by
  unfold abandonState
  split
  · exact .inl rfl
  · exact .inr rfl

theorem During.abandoned (h : During record current) (entries : List AbandonedResourceEntry) :
    During record (abandonedRecord entries current) ∧
      (abandonedRecord entries current).Settled := by
  refine ⟨⟨h.attempts, ?_, fun r => ?_, fun r => ?_, fun r hr => ?_⟩, fun r state hstate => ?_⟩
  · rw [← h.resources]
    simp [abandonedRecord, VmResourceRecord.resources]
  · rw [← h.named r]
    cases r with
    | computeSystem => rfl
    | network | disk index => simp [abandonedRecord, VmResourceRecord.identity, comp_def]
  · rw [state_abandonedRecord, isSome_map, h.present r]
  · rw [state_abandonedRecord, h.removed r hr]
    rfl
  · rw [state_abandonedRecord] at hstate
    obtain ⟨old, -, rfl⟩ := map_eq_some_iff.1 hstate
    exact abandonState_cases old

theorem state_beginCleanup (record : VmResourceRecord) (resource : Resource) :
    (beginCleanup record).state resource = record.state resource := by
  cases resource <;> rfl

theorem During.advances {new : VmResourceRecord} (h : During (beginCleanup record) new)
    (hsettled : maxCleanupAttempts ≤ new.cleanupAttempts → new.Settled) : Advances record new where
  attempts := h.attempts
  present r := by rw [h.present r, state_beginCleanup]
  removed r hr := h.removed r (by rw [state_beginCleanup, hr])
  settled := hsettled

end States

/-! ## One pass -/

section Pass

variable {α : Type} {sid : SessionId} {v : VmId} {record : VmResourceRecord}
  {W : World System Op Op.Ans}

/-- The journal has a record of the VM, with this property. -/
def Holds (v : VmId) (P : VmResourceRecord → Prop) (s : System) : Prop :=
  ∃ record, s.recordOf v = some record ∧ P record

/-- A stage of a pass on the host `W`, while others leave the record alone. -/
abbrev Stage (W : World System Op Op.Ans) (v : VmId) {α : Type} (I : System → Prop) (p : M α)
    (Q : α → System → Prop) (E : Text → System → Prop) : Prop :=
  Triple W (LeavesRecord v) (fun _ _ _ => True) I p Q E

theorem stable_holds (P : VmResourceRecord → Prop) : Stable (LeavesRecord v) (Holds v P) := by
  rintro s s' hsame ⟨record, hrecord, hP⟩
  exact ⟨record, hsame.trans hrecord, hP⟩

theorem stable_gone : Stable (LeavesRecord v) fun s => s.recordOf v = none :=
  fun _ _ hsame hgone => hsame.trans hgone

/-- A host whose journal works, so that every pass is completed. -/
def Completing (W : World System Op Op.Ans) : Prop :=
  ∀ op s r s', W op s r s' → world op s r s' ∧ Journaled op r

variable (hW : Completing W)

include hW

variable {E : Text → System → Prop} {P : VmResourceRecord → Prop} {op : Op}

theorem stage_call {I : System → Prop} {Q : op.Result → System → Prop}
    (hI : Stable (LeavesRecord v) I)
    (h : ∀ s r s', I s → world op s r s' → Journaled op r → Post Q E r s') :
    Stage W v I (perform op) Q E := by
  intro s hs s₁ hs₁ r s' hop
  refine ⟨trivial, ?_⟩
  obtain ⟨hworld, hjournaled⟩ := hW op s₁ r s' hop
  have hpost := h s₁ r s' (hI hs₁ hs) hworld hjournaled
  cases r with
  | ok a | error e => exact hpost

theorem stage_update {Q : VmResourceRecord → Prop}
    {update : VmResourceRecord → VmResourceRecord} (h : ∀ record, P record → Q (update record)) :
    Stage W v (Holds v P) (perform (.updateVm v update)) (fun _ => Holds v Q) E := by
  refine stage_call hW (stable_holds P) fun s r s' ⟨record, hrecord, hP⟩ hop hok => ?_
  obtain ⟨a, rfl⟩ := hok
  rcases hop with ⟨old, hold, -, rfl⟩ | ⟨⟨e, he⟩, -⟩
  · obtain rfl : old = record := some.inj (hold.symm.trans hrecord)
    exact ⟨_, recordOf_setRecord hold, h old hP⟩
  · cases he

theorem stage_readRecord :
    Stage W v (Holds v P) (readRecord v) (fun found => Holds v fun r => r = found ∧ P r) E := by
  have hread : Stage W v (Holds v P) (perform (.vm v))
      (fun found s => ∃ record, found = some record ∧ Holds v (fun r => r = record ∧ P r) s) E := by
    refine stage_call hW (stable_holds P) fun s r s' ⟨record, hrecord, hP⟩ hop hok => ?_
    obtain ⟨a, rfl⟩ := hok
    rcases hop with ⟨hanswer, rfl⟩ | ⟨⟨e, he⟩, -⟩
    · exact ⟨record, (Except.ok.inj hanswer).trans hrecord, record, hrecord, rfl, hP⟩
    · cases he
  refine bind hread fun found => ?_
  cases found with
  | none =>
    rintro s ⟨record, hnone, -⟩
    cases hnone
  | some record =>
    refine pure fun s hs => ?_
    obtain ⟨other, hother, hholds⟩ := hs
    rwa [some.inj hother]

/-- The operation leaves the record of the VM alone. -/
def Op.Outside : Op → Prop
  | .deleteNetwork _ | .pathExists _ | .revokeAccess _ _ | .removeFile _ | .fileIdentity _
  | .removeComputeSystem _ | .unixTimeMs | .abandoned _ | .putAbandoned _ _ | .removeAbandoned _ => True
  | _ => False

omit hW in
theorem Op.Outside.records {s s' : System} {r : op.Ans} (h : op.Outside)
    (hop : world op s r s') : s'.records = s.records := by
  cases op with
  | deleteNetwork w =>
    obtain ⟨⟨network, endpoint, -, -, rfl⟩, -⟩ := hop
    rfl
  | pathExists path | unixTimeMs => rw [hop.2]
  | fileIdentity path => rw [hop.1]
  | revokeAccess w path =>
    rcases hop with ⟨-, rfl⟩ | ⟨-, rfl⟩
    · exact records_setAces _ _ _
    · rfl
  | removeFile path =>
    rcases hop with ⟨-, rfl⟩ | ⟨-, rfl⟩
    · exact records_deleteFile _ _
    · rfl
  | removeComputeSystem w =>
    rcases hop with ⟨-, rfl⟩ | ⟨-, rfl | rfl⟩ <;> rfl
  | abandoned w | putAbandoned w row | removeAbandoned w =>
    rcases hop with ⟨-, rfl⟩ | ⟨-, rfl⟩ <;> rfl
  | _ => exact h.elim

theorem stage_outside {p : M α} (h : Only Op.Outside p) :
    Stage W v (Holds v P) p (fun _ => Holds v P) fun _ => Holds v P := by
  refine h.triple (stable_holds P) fun op hop s₀ s r s' _ hworld => ⟨trivial, ?_⟩
  rintro ⟨record, hrecord, hP⟩
  refine ⟨record, ?_, hP⟩
  rwa [System.recordOf, hop.records (hW op s r s' hworld).1]

omit hW in
theorem outside_removeResource (record : VmResourceRecord) (resource : Resource) :
    Only Op.Outside (removeResource v record resource) := by
  cases resource with
  | computeSystem | network => exact ⟨trivial, fun _ => trivial⟩
  | disk index =>
    refine only_removeResource_disk (fun op hop => ?_) record index
    cases op <;> first | exact hop.elim | trivial

theorem stage_applyResourceOutcome (hresource : record.state resource ≠ some .removed)
    (identity : Text) (result : Except Text Unit) :
    Stage W v (Holds v (Cleaning record)) (applyResourceOutcome v resource identity result)
      (fun failures s => (∀ a, result = .ok a → failures = []) ∧ Holds v (Cleaning record) s) E := by
  have hremoved : Stage W v (Holds v (Cleaning record)) (markRemoved v resource)
      (fun failures s => failures = [] ∧ Holds v (Cleaning record) s) E :=
    bind (stage_update hW fun current h => h.setState hresource (by decide)) fun _ =>
      pure fun _ hs => ⟨rfl, hs⟩
  cases result with
  | ok a => exact hremoved.mono (fun _ => id) (fun _ _ h => ⟨fun _ _ => h.1, h.2⟩) fun _ _ => id
  | error cause =>
    change Stage W v _ (if resourceIsAbsent cause then markRemoved v resource
      else markFailed v resource ⟨resource.kind, identity, cause⟩) _ E
    split
    · exact hremoved.mono (fun _ => id) (fun _ _ h => ⟨fun _ _ => h.1, h.2⟩) fun _ _ => id
    · refine bind (stage_update hW fun current h => h.failed hresource _) fun _ => ?_
      exact pure fun _ hs => ⟨fun a ha => (by cases ha), hs⟩

/-- The removal of this resource does not fail on the host. -/
def Serves (W : World System Op Op.Ans) (v : VmId) (record : VmResourceRecord)
    (resource : Resource) : Prop :=
  record.state resource ≠ some .removed → ∀ s, Obeys W (LeavesRecord v) (fun _ _ _ => True)
    (Post (fun _ _ => True) fun _ _ => False) (removeResource v record resource) s

theorem stage_cleanupResource (record : VmResourceRecord) (resource : Resource) :
    Stage W v (Holds v (Cleaning record)) (cleanupResource v record resource)
      (fun failures s => (Serves W v record resource → failures = []) ∧
        Holds v (Cleaning record) s) E := by
  unfold cleanupResource
  split
  · exact pure fun _ hs => ⟨fun _ => rfl, hs⟩
  next hresource =>
  cases record.identity resource with
  | none => exact pure fun _ hs => ⟨fun _ => rfl, hs⟩
  | some identity =>
    have hremove : Stage W v (Holds v (Cleaning record)) (attempt (removeResource v record resource))
        (fun result s => (Serves W v record resource → ∃ a, result = .ok a) ∧
          Holds v (Cleaning record) s) E := by
      refine attempt ?_
      have hkeeps : Stage W v (Holds v (Cleaning record)) (removeResource v record resource)
          (fun _ => Holds v (Cleaning record)) fun _ => Holds v (Cleaning record) :=
        stage_outside hW (outside_removeResource record resource)
      intro s hs
      by_cases hserves : Serves W v record resource
      · refine ((hkeeps s hs).and (hserves hresource s)).mono fun r s' hr => ?_
        cases r with
        | ok a => exact ⟨fun _ => ⟨a, rfl⟩, hr.1⟩
        | error e => exact hr.2.elim
      · refine (hkeeps s hs).mono fun r s' hr => ?_
        cases r with
        | ok a | error e => exact ⟨fun h => absurd h hserves, hr⟩
    refine bind hremove fun result => given fun hok => ?_
    refine (stage_applyResourceOutcome hW hresource identity result).mono (fun _ => id) ?_ fun _ _ => id
    rintro failures s ⟨hfailures, hs⟩
    refine ⟨fun hserves => ?_, hs⟩
    obtain ⟨a, ha⟩ := hok hserves
    exact hfailures a ha

theorem stage_cleanupEach (record : VmResourceRecord) (resources : List Resource) :
    Stage W v (Holds v (Cleaning record)) (cleanupEach v record resources)
      (fun failures s => ((∀ resource ∈ resources, Serves W v record resource) → failures = []) ∧
        Holds v (Cleaning record) s) E := by
  induction resources with
  | nil => exact pure fun _ hs => ⟨fun _ => rfl, hs⟩
  | cons resource rest ih =>
    refine bind (stage_cleanupResource hW record resource) fun failures =>
      given fun hfirst => ?_
    refine bind ih fun others => given fun hothers => pure fun s hs => ⟨?_, hs⟩
    intro hall
    rw [hfirst (hall resource List.mem_cons_self),
      hothers fun r hr => hall r (List.mem_cons_of_mem _ hr)]
    rfl

omit hW in
theorem recordOf_removeRecord (s : System) (v : VmId) : (s.removeRecord v).recordOf v = none := by
  simp [System.removeRecord, System.recordOf]

theorem stage_finishCleanup :
    Stage W v (Holds v P) (finishCleanup v) (fun _ s => s.recordOf v = none) E := by
  refine bind (stage_update hW (Q := fun _ => True) fun _ _ => trivial) fun _ => ?_
  have hremove : Stage W v (Holds v fun _ => True) (perform (.removeVm v))
      (fun _ s => s.recordOf v = none) E := by
    refine stage_call hW (stable_holds _) fun s r s' _ hop hok => ?_
    obtain ⟨a, rfl⟩ := hok
    rcases hop with ⟨-, rfl⟩ | ⟨⟨e, he⟩, -⟩
    · exact recordOf_removeRecord s v
    · cases he
  refine bind hremove fun _ => ?_
  refine stage_call hW stable_gone fun s r s' hs hop hok => ?_
  obtain ⟨a, rfl⟩ := hok
  rcases hop with ⟨-, rfl⟩ | ⟨⟨e, he⟩, -⟩
  · exact hs
  · cases he

/-- If the VM still has a record, the pass has advanced it. -/
def Left (v : VmId) (record : VmResourceRecord) (s : System) : Prop :=
  ∀ new, s.recordOf v = some new → Advances record new

omit hW in
theorem Holds.left {s : System} (h : Holds v P s)
    (hP : ∀ new, P new → Advances record new) : Left v record s := by
  obtain ⟨found, hfound, hfoundP⟩ := h
  intro new hnew
  rw [← some.inj (hfound.symm.trans hnew)]
  exact hP found hfoundP

theorem stage_beside
    (hop : op.Outside) (hok : ∀ s r s', world op s r s' → Journaled op r → ∃ a, r = .ok a) :
    Stage W v (Holds v P) (perform op) (fun _ => Holds v P) E := by
  refine stage_call hW (stable_holds P) fun s r s' ⟨record, hrecord, hP⟩ hworld hjournaled => ?_
  obtain ⟨a, rfl⟩ := hok s r s' hworld hjournaled
  refine ⟨record, ?_, hP⟩
  rwa [System.recordOf, hop.records hworld]

theorem stage_abandonRemaining {found : VmResourceRecord} (failures : List CleanupFailure) :
    Stage W v (Holds v (Cleaning (beginCleanup record))) (abandonRemaining sid v found failures)
      (fun _ => Left v record) fun _ => Left v record := by
  refine bind (stage_beside hW trivial fun _ _ _ hop _ => hop.1) fun now => ?_
  refine bind (stage_beside hW trivial fun _ _ _ _ hok => hok) fun existing => ?_
  refine bind (P := fun _ => Holds v (Cleaning (beginCleanup record))) ?_ fun _ => ?_
  · exact bind (stage_beside hW trivial fun _ _ _ _ hok => hok) fun previous =>
      stage_beside hW trivial fun _ _ _ _ hok => hok
  · refine (stage_update hW (Q := fun new => During (beginCleanup record) new ∧ new.Settled)
      fun current h => h.toDuring.abandoned _).mono (fun _ => id) ?_ fun _ _ => id
    exact fun _ s hs => hs.left fun new hnew => hnew.1.advances fun _ => hnew.2

theorem stage_giveUp (failures : List CleanupFailure) :
    Stage W v (Holds v (Cleaning (beginCleanup record))) (giveUp sid v failures)
      (fun _ => Left v record) fun _ => Left v record := by
  refine bind (stage_readRecord hW) fun found => ?_
  split
  · refine (stage_abandonRemaining hW failures).pre fun s hs => ?_
    obtain ⟨new, hnew, -, hcleaning⟩ := hs
    exact ⟨new, hnew, hcleaning⟩
  · next hfew =>
    refine throw fun s hs => hs.left ?_
    rintro new ⟨rfl, hcleaning⟩
    exact hcleaning.toDuring.advances fun hmany => absurd hmany hfew

/-- A pass removes the record or advances it; if every removal succeeds, it removes it. -/
theorem stage_cleanupRecord (record : VmResourceRecord) :
    Stage W v (Holds v (· = record)) (cleanupRecord sid v)
      (fun _ s => Left v record s ∧ ((∀ resource ∈ record.resources,
        Serves W v (beginCleanup record) resource) → s.recordOf v = none))
      fun _ s => Left v record s ∧ ((∀ resource ∈ record.resources,
        Serves W v (beginCleanup record) resource) → False) := by
  have hbegin : ∀ r, r = record → beginCleanup r = beginCleanup record := fun r hr => hr ▸ rfl
  refine bind (stage_update hW (Q := (· = beginCleanup record)) hbegin) fun _ => ?_
  refine bind (stage_readRecord hW) fun found => ?_
  rintro s ⟨current, hcurrent, rfl, rfl⟩
  refine (?_ : Stage W v (Holds v (Cleaning (beginCleanup record))) _ _ _) s
    ⟨_, hcurrent, Cleaning.refl _⟩
  refine bind (stage_cleanupEach hW _ _) fun failures => given fun hfailures => ?_
  split
  · refine (stage_finishCleanup hW).mono (fun _ => id) (fun _ s hs => ⟨?_, fun _ => hs⟩) fun _ _ => id
    intro new hnew
    rw [hs] at hnew
    cases hnew
  · next hsome =>
    have hnot : ¬ ∀ resource ∈ record.resources, Serves W v (beginCleanup record) resource :=
      fun hall => hsome (hfailures hall)
    exact (stage_giveUp hW failures).mono (fun _ => id) (fun _ _ hs => ⟨hs, fun h => absurd h hnot⟩)
      fun _ _ hs => ⟨hs, fun h => absurd h hnot⟩

end Pass

/-! ## Sequences of passes -/

section Sequence

variable {W : World System Op Op.Ans} {sid : SessionId} {v : VmId} {s s' : System}

/-- Completed passes one after another, with the state after each. -/
inductive Passes (W : World System Op Op.Ans) (sid : SessionId) (v : VmId) : System →
    List System → Prop
  | nil (s : System) : Passes W sid v s []
  | cons {s s' : System} {rest : List System} {r : Except Text Unit}
      (hpass : Exec W (cleanupRecord sid v) s (some r) s') (hrest : Passes W sid v s' rest) :
      Passes W sid v s (s' :: rest)

/-- A pass ends with the record not terminal, or with a resource newly abandoned. -/
def Unsettles (v : VmId) (s s' : System) : Prop :=
  ∃ new, s'.recordOf v = some new ∧ (new.isComplete = false ∨ ∃ resource,
    new.state resource = some .abandoned ∧
      ∀ old, s.recordOf v = some old → old.state resource ≠ some .abandoned)

/-- After `n` passes: as many attempts, up to three, and from three on a settled record. -/
def Progress (v : VmId) (n : Nat) (s : System) : Prop :=
  ∀ record, s.recordOf v = some record → min n 3 ≤ record.cleanupAttempts.toNat ∧
    (3 ≤ n → record.Settled)

variable {n : Nat} {r : Except Text Unit}

theorem record_of_pass (hW : Completing W)
    (hpass : Exec W (cleanupRecord sid v) s (some r) s') : ∃ record, s.recordOf v = some record := by
  change Exec W (.step (.updateVm v beginCleanup) _) s (some r) s' at hpass
  cases hpass with
  | step hop _ =>
    obtain ⟨hworld, a, rfl⟩ := hW _ _ _ _ hop
    rcases hworld with ⟨record, hrecord, -⟩ | ⟨⟨e, he⟩, -⟩
    · exact ⟨record, hrecord⟩
    · cases he

variable {record : VmResourceRecord}

theorem left_of_pass (hW : Completing W)
    (hrecord : s.recordOf v = some record) (hpass : Exec W (cleanupRecord sid v) s (some r) s') :
    Left v record s' ∧ ((∀ resource ∈ record.resources,
      Serves W v (beginCleanup record) resource) → s'.recordOf v = none) := by
  have hpost := (stage_cleanupRecord hW record s ⟨record, hrecord, rfl⟩).exec (fun _ => rfl) hpass
  cases r with
  | ok a => exact hpost
  | error e => exact ⟨hpost.1, fun hall => (hpost.2 hall).elim⟩

theorem attempts_le (record : VmResourceRecord) (h : min n 3 ≤ record.cleanupAttempts.toNat) :
    min (n + 1) 3 ≤ (beginCleanup record).cleanupAttempts.toNat := by
  change _ ≤ (if record.cleanupAttempts = 0xffffffff then record.cleanupAttempts
    else record.cleanupAttempts + 1).toNat
  split
  · next hmax =>
    rw [hmax]
    change _ ≤ 4294967295
    omega
  · next hsmall =>
    have hne : record.cleanupAttempts.toNat ≠ 4294967295 := by
      intro heq
      exact hsmall (UInt32.toNat_inj.1 heq)
    have hlt := record.cleanupAttempts.toNat_lt
    rw [UInt32.toNat_add, show (1 : UInt32).toNat = 1 from rfl]
    omega

theorem Progress.pass (hW : Completing W) (h : Progress v n s)
    (hpass : Exec W (cleanupRecord sid v) s (some r) s') : Progress v (n + 1) s' := by
  obtain ⟨record, hrecord⟩ := record_of_pass hW hpass
  intro new hnew
  have hadvances := (left_of_pass hW hrecord hpass).1 new hnew
  have hattempts : min (n + 1) 3 ≤ new.cleanupAttempts.toNat := by
    rw [hadvances.attempts]
    exact attempts_le record (h record hrecord).1
  refine ⟨hattempts, fun hmany => hadvances.settled ?_⟩
  rw [UInt32.le_iff_toNat_le]
  change 3 ≤ _
  omega

theorem isComplete_of_settled (h : record.Settled) : record.isComplete = true :=
  isComplete_iff.2 (.inr h)

theorem not_unsettles (hW : Completing W) (h : Progress v n s)
    (hn : 3 ≤ n) (hpass : Exec W (cleanupRecord sid v) s (some r) s') : ¬ Unsettles v s s' := by
  obtain ⟨record, hrecord⟩ := record_of_pass hW hpass
  rintro ⟨new, hnew, hincomplete | ⟨resource, habandoned, hnewly⟩⟩
  · have hsettled := (h.pass hW hpass new hnew).2 (by omega)
    rw [isComplete_of_settled hsettled] at hincomplete
    cases hincomplete
  · have hadvances := (left_of_pass hW hrecord hpass).1 new hnew
    have hpresent := hadvances.present resource
    rw [habandoned] at hpresent
    obtain ⟨state, hstate⟩ := isSome_iff_exists.1 hpresent.symm
    rcases (h record hrecord).2 hn resource state hstate with rfl | rfl
    · rw [hadvances.removed resource hstate] at habandoned
      cases habandoned
    · exact hnewly record hrecord hstate

variable {trace : List System}

theorem Passes.progress (hW : Completing W) (h : Passes W sid v s trace)
    (hs : Progress v n s) (i : Nat) {a : System} (ha : (s :: trace)[i]? = some a) :
    Progress v (n + i) a := by
  induction h generalizing n i with
  | nil s =>
    cases i with
    | zero => exact some.inj ha ▸ hs
    | succ i => simp at ha
  | cons hpass _ ih =>
    cases i with
    | zero => exact some.inj ha ▸ hs
    | succ i =>
      have hnext := ih (hs.pass hW hpass) i ha
      rwa [Nat.add_right_comm] at hnext

theorem Passes.pass (h : Passes W sid v s trace) (i : Nat) {a b : System}
    (ha : (s :: trace)[i]? = some a) (hb : (s :: trace)[i + 1]? = some b) :
    ∃ r, Exec W (cleanupRecord sid v) a (some r) b := by
  induction h generalizing i with
  | nil s => simp at hb
  | cons hpass _ ih =>
    cases i with
    | zero =>
      obtain rfl := some.inj ha
      obtain rfl := some.inj hb
      exact ⟨_, hpass⟩
    | succ i => exact ih i ha hb

end Sequence

/-- On a host whose journal works, only the first three of the passes on a record can end
with the record not terminal or newly abandoned; after three passes a record that is still
there is complete, and recovery removes a complete record without a removal; and a pass in
which every removal succeeds removes the record. -/
theorem recovery_bounded (W : World System Op Op.Ans) (hW : Completing W) (sid : SessionId)
    (v : VmId) (s : System) (trace : List System) (h : Passes W sid v s trace) :
    (∀ i a b, maxCleanupAttempts.toNat ≤ i → (s :: trace)[i]? = some a →
        (s :: trace)[i + 1]? = some b → ¬ Unsettles v a b) ∧
      (∀ i a record, maxCleanupAttempts.toNat ≤ i → (s :: trace)[i]? = some a →
        a.recordOf v = some record → record.isComplete = true) ∧
      (∀ record : VmResourceRecord, record.isComplete = true →
        recoverRecord sid record = perform (.removeVm record.vmId)) ∧
      ∀ i a b record, (s :: trace)[i]? = some a → (s :: trace)[i + 1]? = some b →
        a.recordOf v = some record →
        (∀ resource ∈ record.resources, Serves W v (beginCleanup record) resource) →
        b.recordOf v = none := by
  have hstart : Progress v 0 s := fun record _ => ⟨Nat.zero_le _, fun h => absurd h (by decide)⟩
  refine ⟨?_, ?_, ?_, ?_⟩
  · intro i a b hi ha hb
    obtain ⟨r, hpass⟩ := h.pass i ha hb
    refine not_unsettles hW (h.progress hW hstart i ha) ?_ hpass
    rw [Nat.zero_add]
    exact hi
  · intro i a record hi ha hrecord
    refine isComplete_of_settled ((h.progress hW hstart i ha record hrecord).2 ?_)
    rw [Nat.zero_add]
    exact hi
  · intro record hcomplete
    rw [recoverRecord, if_pos hcomplete]
  · intro i a b record ha hb hrecord hserves
    obtain ⟨r, hpass⟩ := h.pass i ha hb
    exact (left_of_pass hW hrecord hpass).2 hserves

/-- The removals of the compute system and the network succeed. -/
def Served : (op : Op) → op.Ans → Prop
  | .removeComputeSystem _, r => ∃ a, r = .ok a
  | .deleteNetwork _, r => ∃ a, r = .ok a
  | _, _ => True

def serving : World System Op Op.Ans :=
  fun op s r s' => world op s r s' ∧ Journaled op r ∧ Served op r

theorem completing_serving : Completing serving := fun _ _ _ _ h => ⟨h.1, h.2.1⟩

theorem serves_running (resource : Resource) (hresource : resource ∈ runningRecord.resources) :
    Serves serving 1 (beginCleanup runningRecord) resource := by
  intro _ s
  cases resource with
  | computeSystem | network =>
    intro s₁ _ r s' hop
    obtain ⟨a, rfl⟩ := hop.2.2
    exact ⟨trivial, trivial⟩
  | disk index => simp [resources, runningRecord, startingRecord, setEndpointId,
      plannedRecord] at hresource

/-- A host that no compute system can be removed from, and that does everything else. -/
def busy : (op : Op) → System → op.Ans × System
  | .removeComputeSystem _, s => (.error (utf8 "busy"), s)
  | op, s => Calm.answer op s

theorem world_busy {s : System} (hs : Calm.Single s) (op : Op) :
    world op s (busy op s).1 (busy op s).2 ∧ Calm.Single (busy op s).2 := by
  cases op with
  | removeComputeSystem v => exact ⟨.inr ⟨⟨_, rfl⟩, .inl rfl⟩, hs⟩
  | _ => exact ⟨Calm.world_answer hs _, Calm.single_answer hs _⟩

/-- Every answer that the run gets is as `P` says. -/
def Along {α : Type} (answer : (op : Op) → System → op.Ans × System) (P : (op : Op) → op.Ans → Prop) :
    Prog Op Op.Ans α → System → Prop
  | .done _, _ => True
  | .step op next, s =>
    P op (answer op s).1 ∧ Along answer P (next (answer op s).1) (answer op s).2

theorem exec_answer {α : Type} {answer : (op : Op) → System → op.Ans × System}
    {P : (op : Op) → op.Ans → Prop} (hanswer : ∀ s, Calm.Single s → ∀ op,
      world op s (answer op s).1 (answer op s).2 ∧ Calm.Single (answer op s).2)
    (p : Prog Op Op.Ans α) {s : System} (hs : Calm.Single s) (hp : Along answer P p s) :
    Exec (fun op s r s' => world op s r s' ∧ P op r) p s (some (p.interp answer s).1)
        (p.interp answer s).2 ∧ Calm.Single (p.interp answer s).2 := by
  induction p generalizing s with
  | done a => exact ⟨.done a s, hs⟩
  | step op next ih =>
    obtain ⟨hworld, hsingle⟩ := hanswer s hs op
    obtain ⟨hrest, hend⟩ := ih _ hsingle hp.2
    exact ⟨.step ⟨hworld, hp.1⟩ hrest, hend⟩

/-- The states between the passes. -/
def passed : Nat → System
  | 0 => runningSystem
  | n + 1 => ((cleanupRecord 10 1).interp busy (passed n)).2

theorem along_busy (n : Nat) (hn : n < 4) :
    Along busy Journaled (cleanupRecord 10 1) (passed n) := by
  interval_cases n <;> repeat' constructor

theorem single_running : Calm.Single runningSystem := fun _ h => absurd rfl h

def journaling : World System Op Op.Ans := fun op s r s' => world op s r s' ∧ Journaled op r

theorem single_passed (n : Nat) (hn : n ≤ 4) : Calm.Single (passed n) := by
  induction n with
  | zero => exact single_running
  | succ n ih => exact (exec_answer (fun _ hs => world_busy hs) _ (ih (by omega))
      (along_busy n (by omega))).2

theorem exec_passed (n : Nat) (hn : n < 4) :
    ∃ r, Exec journaling (cleanupRecord 10 1) (passed n) (some r) (passed (n + 1)) :=
  ⟨_, (exec_answer (fun _ hs => world_busy hs) _ (single_passed n hn.le) (along_busy n hn)).1⟩

theorem passes_passed : Passes journaling 10 1 runningSystem
    [passed 1, passed 2, passed 3, passed 4] := by
  obtain ⟨_, hfirst⟩ := exec_passed 0 (by decide)
  obtain ⟨_, hsecond⟩ := exec_passed 1 (by decide)
  obtain ⟨_, hthird⟩ := exec_passed 2 (by decide)
  obtain ⟨_, hfourth⟩ := exec_passed 3 (by decide)
  exact .cons hfirst (.cons hsecond (.cons hthird (.cons hfourth (.nil _))))

/-- A running VM with a network.  On a host that cannot remove its compute system, the third pass
abandons that, and the fourth changes nothing; where both can be removed, the first pass removes
the record. -/
theorem running_vm_recovered :
    ((∃ record, (passed 3).recordOf 1 = some record ∧
        record.state .computeSystem = some .abandoned ∧ record.isComplete = true) ∧
      ¬ Unsettles 1 (passed 3) (passed 4)) ∧
    ∃ r s', Exec serving (cleanupRecord 10 1) runningSystem (some r) s' ∧ s'.recordOf 1 = none := by
  obtain ⟨hbounded, hcomplete, -⟩ := recovery_bounded journaling (fun _ _ _ _ h => h) 10 1
    runningSystem _ passes_passed
  refine ⟨⟨⟨_, rfl, rfl, hcomplete 3 (passed 3) _ (by decide) rfl rfl⟩,
    hbounded 3 (passed 3) (passed 4) (by decide) rfl rfl⟩, ?_⟩
  have halong : Along Calm.answer (fun op r => Journaled op r ∧ Served op r) (cleanupRecord 10 1)
      runningSystem := by
    repeat' constructor
  have hpass : Exec serving (cleanupRecord 10 1) runningSystem _ _ :=
    (exec_answer (fun _ hs op => ⟨Calm.world_answer hs op, Calm.single_answer hs op⟩) _
      single_running halong).1
  refine ⟨_, _, hpass, ?_⟩
  exact (recovery_bounded serving completing_serving 10 1 runningSystem _
    (.cons hpass (.nil _))).2.2.2 0 runningSystem _ runningRecord rfl rfl rfl serves_running

end Jyth.Hcs
