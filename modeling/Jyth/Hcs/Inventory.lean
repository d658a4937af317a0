import Jyth.Hcs.Recovery

/-!
# The abandoned inventory

The row of a VM in the table of abandoned resources, along completed cleanup passes.  A
pass that gives up merges what is left into the row and a pass that succeeds removes it;
nothing takes a single entry out.  So the row names exactly the abandoned resources as
long as no pass removes an abandoned resource and leaves another one.

    the row lists each abandoned resource once     (inventory_exact)
-/

namespace Jyth.Hcs

open Format Effect List VmResourceRecord Triple

/-! ## Merging -/

variable {entry : AbandonedResourceEntry}

section Merge

variable {entry : AbandonedResourceEntry} {entries new : List AbandonedResourceEntry}

def AbandonedResourceEntry.key (entry : AbandonedResourceEntry) : ResourceKind × Text :=
  (entry.kind, entry.identity)

def keys (entries : List AbandonedResourceEntry) : List (ResourceKind × Text) := entries.map (·.key)

theorem keys_upsert (entry : AbandonedResourceEntry) (entries : List AbandonedResourceEntry) :
    keys (upsert entry entries) =
      if entry.key ∈ keys entries then keys entries else keys entries ++ [entry.key] := by
  induction entries with
  | nil => simp [keys, upsert]
  | cons first rest ih =>
    unfold upsert
    split
    · next hsame =>
      have hkey : entry.key = first.key := Prod.ext hsame.1.symm hsame.2.symm
      rw [if_pos (hkey ▸ mem_cons_self)]
      rfl
    · next hdiffers =>
      have hkey : entry.key ≠ first.key := fun h =>
        hdiffers ⟨(congrArg Prod.fst h).symm, (congrArg Prod.snd h).symm⟩
      have hmem : entry.key ∈ keys (first :: rest) ↔ entry.key ∈ keys rest :=
        ⟨fun h => (mem_cons.1 h).resolve_left hkey, mem_cons_of_mem _⟩
      change first.key :: keys (upsert entry rest) = _
      rw [ih, if_congr hmem rfl rfl]
      split
      · rfl
      · rfl

theorem nodup_upsert (h : (keys entries).Nodup) : (keys (upsert entry entries)).Nodup := by
  rw [keys_upsert]
  split
  · exact h
  · next hnew => exact nodup_append.2 ⟨h, nodup_singleton _, by
      intro a ha b hb
      rw [mem_singleton.1 hb]
      rintro rfl
      exact hnew ha⟩

variable {kept old : AbandonedResourceEntry} {key : ResourceKind × Text}

theorem mem_keys_upsert :
    key ∈ keys (upsert entry entries) ↔ key ∈ keys entries ∨ key = entry.key := by
  rw [keys_upsert]
  split
  · next hold =>
    refine ⟨.inl, ?_⟩
    rintro (h | rfl)
    · exact h
    · exact hold
  · rw [mem_append, mem_singleton]

theorem upsert_keeps (entry : AbandonedResourceEntry) (h : old ∈ entries) :
    ∃ kept ∈ upsert entry entries, kept.key = old.key ∧
      kept.firstAbandonedAtUnixMs = old.firstAbandonedAtUnixMs := by
  induction entries with
  | nil => cases h
  | cons first rest ih =>
    unfold upsert
    split
    · rcases mem_cons.1 h with rfl | h
      · exact ⟨_, mem_cons_self, rfl, rfl⟩
      · exact ⟨old, mem_cons_of_mem _ h, rfl, rfl⟩
    · rcases mem_cons.1 h with rfl | h
      · exact ⟨old, mem_cons_self, rfl, rfl⟩
      · obtain ⟨kept, hkept, hsame⟩ := ih h
        exact ⟨kept, mem_cons_of_mem _ hkept, hsame⟩

def merge (entries new : List AbandonedResourceEntry) : List AbandonedResourceEntry :=
  new.foldl (fun entries entry => upsert entry entries) entries

theorem nodup_merge (h : (keys entries).Nodup) : (keys (merge entries new)).Nodup := by
  induction new generalizing entries with
  | nil => exact h
  | cons entry rest ih => exact ih (nodup_upsert h)

theorem mem_keys_merge : key ∈ keys (merge entries new) ↔ key ∈ keys entries ∨ key ∈ keys new := by
  induction new generalizing entries with
  | nil => simp [merge, keys]
  | cons entry rest ih =>
    change key ∈ keys (merge (upsert entry entries) rest) ↔ _
    rw [ih, mem_keys_upsert, or_assoc]
    simp [keys]

theorem merge_keeps (new : List AbandonedResourceEntry) (h : old ∈ entries) :
    ∃ kept ∈ merge entries new, kept.key = old.key ∧
      kept.firstAbandonedAtUnixMs = old.firstAbandonedAtUnixMs := by
  induction new generalizing entries old with
  | nil => exact ⟨old, h, rfl, rfl⟩
  | cons entry rest ih =>
    obtain ⟨kept, hkept, hkey, htime⟩ := upsert_keeps entry h
    obtain ⟨last, hlast, hlastKey, hlastTime⟩ := ih hkept
    exact ⟨last, hlast, hlastKey.trans hkey, hlastTime.trans htime⟩

/-- Name and time of an entry are those of one that was there or of the new one. -/
theorem upsert_source (h : kept ∈ upsert entry entries) :
    ∃ source ∈ entry :: entries, kept.key = source.key ∧
      kept.firstAbandonedAtUnixMs = source.firstAbandonedAtUnixMs := by
  induction entries with
  | nil => exact ⟨kept, h, rfl, rfl⟩
  | cons first rest ih =>
    unfold upsert at h
    split at h
    · rcases mem_cons.1 h with rfl | h
      · exact ⟨first, by simp, rfl, rfl⟩
      · exact ⟨kept, by simp [h], rfl, rfl⟩
    · rcases mem_cons.1 h with rfl | h
      · exact ⟨kept, by simp, rfl, rfl⟩
      · obtain ⟨source, hsource, hsame⟩ := ih h
        refine ⟨source, ?_, hsame⟩
        rcases mem_cons.1 hsource with rfl | hsource
        · exact mem_cons_self
        · exact mem_cons_of_mem _ (mem_cons_of_mem _ hsource)

theorem merge_source (h : kept ∈ merge entries new) :
    ∃ source ∈ entries ++ new, kept.key = source.key ∧
      kept.firstAbandonedAtUnixMs = source.firstAbandonedAtUnixMs := by
  induction new generalizing entries with
  | nil => exact ⟨kept, by rw [append_nil]; exact h, rfl, rfl⟩
  | cons entry rest ih =>
    obtain ⟨source, hsource, hkey, htime⟩ := ih h
    rcases mem_append.1 hsource with hsource | hsource
    · obtain ⟨first, hfirst, hfirstKey, hfirstTime⟩ := upsert_source hsource
      refine ⟨first, ?_, hkey.trans hfirstKey, htime.trans hfirstTime⟩
      rcases mem_cons.1 hfirst with rfl | hfirst
      · simp
      · exact mem_append_left _ hfirst
    · exact ⟨source, by simp [hsource], hkey, htime⟩

/-- Listed entries keep their times, and new ones get the time of the pass. -/
structure Dated (old new : List AbandonedResourceEntry) (now : UInt64) : Prop where
  kept : ∀ entry ∈ old, ∃ same ∈ new, same.key = entry.key ∧
    same.firstAbandonedAtUnixMs = entry.firstAbandonedAtUnixMs
  fresh : ∀ entry ∈ new, entry.key ∉ keys old → entry.firstAbandonedAtUnixMs = now

theorem Dated.refl (entries : List AbandonedResourceEntry) (now : UInt64) :
    Dated entries entries now :=
  ⟨fun entry h => ⟨entry, h, rfl, rfl⟩, fun _ h hnew => absurd (mem_map_of_mem h) hnew⟩

theorem Dated.merge {old : List AbandonedResourceEntry} {now : UInt64} (h : Dated old entries now)
    (hnew : ∀ entry ∈ new, entry.key ∉ keys old → entry.firstAbandonedAtUnixMs = now) :
    Dated old (merge entries new) now where
  kept entry hentry := by
    obtain ⟨same, hsame, hkey, htime⟩ := h.kept entry hentry
    obtain ⟨last, hlast, hlastKey, hlastTime⟩ := merge_keeps new hsame
    exact ⟨last, hlast, hlastKey.trans hkey, hlastTime.trans htime⟩
  fresh entry hentry hfresh := by
    obtain ⟨source, hsource, hkey, htime⟩ := merge_source hentry
    rw [hkey] at hfresh
    rw [htime]
    rcases mem_append.1 hsource with hsource | hsource
    · exact h.fresh source hsource hfresh
    · exact hnew source hsource hfresh

end Merge

/-! ## Exactness -/

section Exact

def VmResourceRecord.key (record : VmResourceRecord) (resource : Resource) :
    Option (ResourceKind × Text) :=
  (record.identity resource).map fun identity => (resource.kind, identity)

def System.rowOf (s : System) (v : VmId) : Option AbandonedRecord :=
  (s.abandoned.lookup v).map (·.record)

/-- The row lists the abandoned resources of the record, each once, and nothing else. -/
def Listed (record : VmResourceRecord) (row : Option AbandonedRecord) : Prop :=
  (keys (entriesOf row)).Nodup ∧ ∀ key, key ∈ keys (entriesOf row) ↔
    ∃ resource ∈ record.resources, record.state resource = some .abandoned ∧
      record.key resource = some key

variable {record : VmResourceRecord}

variable {failures : List CleanupFailure} {now : UInt64} {key : ResourceKind × Text}

theorem mem_keys_remaining : key ∈ keys (remaining failures now record) ↔
      ∃ resource ∈ record.resources, record.state resource ≠ some .removed ∧
        record.key resource = some key := by
  simp only [keys, remaining, List.mem_map, List.mem_filterMap]
  constructor
  · rintro ⟨entry, ⟨resource, hmem, hentry⟩, rfl⟩
    split at hentry
    · cases hentry
    · next hstate =>
      obtain ⟨identity, hidentity, rfl⟩ := Option.map_eq_some_iff.1 hentry
      exact ⟨resource, hmem, hstate, by rw [key, hidentity]; rfl⟩
  · rintro ⟨resource, hmem, hstate, hkey⟩
    obtain ⟨identity, hidentity, rfl⟩ := Option.map_eq_some_iff.1 hkey
    refine ⟨abandonedEntry failures now resource.kind identity, ⟨resource, hmem, ?_⟩, rfl⟩
    rw [if_neg hstate, hidentity]
    rfl

theorem time_remaining (h : entry ∈ remaining failures now record) :
    entry.firstAbandonedAtUnixMs = now := by
  obtain ⟨resource, -, hentry⟩ := mem_filterMap.1 h
  split at hentry
  · cases hentry
  · obtain ⟨identity, -, rfl⟩ := Option.map_eq_some_iff.1 hentry
    rfl

theorem state_of_key {resource : Resource}
    (h : record.key resource = some key) : ∃ state, record.state resource = some state := by
  obtain ⟨identity, hidentity, -⟩ := Option.map_eq_some_iff.1 h
  cases resource with
  | computeSystem => exact ⟨_, rfl⟩
  | network =>
    obtain ⟨network, hnetwork, -⟩ := Option.map_eq_some_iff.1 hidentity
    exact ⟨network.state, by rw [state, hnetwork]; rfl⟩
  | disk index =>
    obtain ⟨disk, hdisk, -⟩ := Option.map_eq_some_iff.1 hidentity
    exact ⟨disk.state, by rw [state, hdisk]; rfl⟩

end Exact

/-! ## Passes and rows -/

section Rows

variable {α : Type} {sid : SessionId} {v : VmId} {record : VmResourceRecord}
  {W : World System Op Op.Ans} {row : Option AbandonedRecord}

/-- Others leave the record and the row of the VM alone. -/
def LeavesVm (v : VmId) (s s' : System) : Prop := LeavesRecord v s s' ∧ s'.rowOf v = s.rowOf v

/-- Operations that leave the inventory alone. -/
def Op.Unlisted : Op → Prop
  | .updateVm _ _ | .vm _ | .deleteNetwork _ | .removeComputeSystem _ | .pathExists _
  | .revokeAccess _ _ | .removeFile _ | .fileIdentity _ => True
  | _ => False

theorem abandoned_setRecord (s : System) (w : VmId) (new : VmResourceRecord) :
    (s.setRecord w new).abandoned = s.abandoned := by
  unfold System.setRecord
  split <;> rfl

theorem abandoned_setAces (s : System) (path : Path) (f : List VmId → List VmId) :
    (setAces s path f).abandoned = s.abandoned := by
  unfold setAces
  split <;> rfl

theorem abandoned_deleteFile (s : System) (path : Path) :
    (s.deleteFile path).abandoned = s.abandoned := by
  unfold System.deleteFile
  split <;> rfl

variable {E : Text → System → Prop} {op : Op} {I : System → Prop}

theorem Op.Unlisted.abandoned {s s' : System} {r : op.Ans} (h : op.Unlisted)
    (hop : world op s r s') : s'.abandoned = s.abandoned := by
  cases op with
  | updateVm w update =>
    rcases hop with ⟨old, -, -, rfl⟩ | ⟨-, rfl⟩
    · exact abandoned_setRecord _ _ _
    · rfl
  | vm w => rcases hop with ⟨-, rfl⟩ | ⟨-, rfl⟩ <;> rfl
  | deleteNetwork w =>
    obtain ⟨⟨network, endpoint, -, -, rfl⟩, -⟩ := hop
    rfl
  | removeComputeSystem w => rcases hop with ⟨-, rfl⟩ | ⟨-, rfl | rfl⟩ <;> rfl
  | pathExists path => rw [hop.2]
  | fileIdentity path => rw [hop.1]
  | revokeAccess w path =>
    rcases hop with ⟨-, rfl⟩ | ⟨-, rfl⟩
    · exact abandoned_setAces _ _ _
    · rfl
  | removeFile path =>
    rcases hop with ⟨-, rfl⟩ | ⟨-, rfl⟩
    · exact abandoned_deleteFile _ _
    · rfl
  | _ => exact h.elim

theorem unlisted_perform (h : op.Unlisted) : Only Op.Unlisted (perform op) :=
  ⟨h, fun _ => trivial⟩

theorem unlisted_cleanupEach (record : VmResourceRecord) (resources : List Resource) :
    Only Op.Unlisted (cleanupEach v record resources) := by
  induction resources with
  | nil => exact Only.pure _
  | cons resource rest ih =>
    refine Only.bind (only_cleanupResource ?_ trivial fun _ => trivial) fun _ =>
      Only.bind ih fun _ => Only.pure _
    cases resource with
    | computeSystem | network => exact unlisted_perform trivial
    | disk index =>
      refine only_removeResource_disk (fun op hop => ?_) record index
      cases op <;> first | exact hop.elim | trivial

theorem unlisted_readRecord (v : VmId) : Only Op.Unlisted (readRecord v) := by
  refine Only.bind (unlisted_perform trivial) fun found => ?_
  cases found with
  | none => exact Only.throw _
  | some found => exact Only.pure _

/-- A stage in which nobody else works on the VM. -/
abbrev RowStage (W : World System Op Op.Ans) (v : VmId) {α : Type} (I : System → Prop) (p : M α)
    (Q : α → System → Prop) (E : Text → System → Prop) : Prop :=
  Triple W (LeavesVm v) (fun _ _ _ => True) I p Q E

/-- The journal holds a record of the VM that satisfies `P` together with its row. -/
def Stands (v : VmId) (P : VmResourceRecord → Option AbandonedRecord → Prop) (s : System) : Prop :=
  ∃ record, s.recordOf v = some record ∧ P record (s.rowOf v)

theorem stable_stands (P : VmResourceRecord → Option AbandonedRecord → Prop) :
    Stable (LeavesVm v) (Stands v P) := by
  rintro s s' ⟨hrecords, hrows⟩ ⟨record, hrecord, hP⟩
  exact ⟨record, hrecords.trans hrecord, hrows ▸ hP⟩

variable {Q : op.Result → System → Prop} {P : VmResourceRecord → Option AbandonedRecord → Prop}
  {p : M α}

theorem Stage.rows {Q : α → System → Prop} (h : Stage W v I p Q E) : RowStage W v I p Q E :=
  fun s hs => (h s hs).rely fun _ _ hs' => hs'.1

variable (hW : Completing W)

include hW

theorem RowStage.of_stage {P : VmResourceRecord → Prop}
    {Q : α → VmResourceRecord → Prop} (hp : Only Op.Unlisted p)
    (h : Stage W v (Holds v P) p (fun a => Holds v (Q a)) fun _ _ => False) :
    RowStage W v (Stands v fun r x => P r ∧ x = row) p
      (fun a => Stands v fun r x => Q a r ∧ x = row) E := by
  have hrow : RowStage W v (fun s => s.rowOf v = row) p (fun _ s => s.rowOf v = row)
      fun _ s => s.rowOf v = row := by
    refine hp.triple (fun s s' hs hrow => hs.2.trans hrow) fun op hop s₀ s r s' _ hworld => ?_
    refine ⟨trivial, fun hs => ?_⟩
    rwa [System.rowOf, hop.abandoned (hW op s r s' hworld).1]
  rintro s ⟨current, hcurrent, hP, hx⟩
  have hboth := ((h s ⟨current, hcurrent, hP⟩).rely fun _ _ hs => hs.1).and (hrow s hx)
  refine hboth.mono fun r s' hr => ?_
  cases r with
  | ok a =>
    obtain ⟨⟨new, hnew, hQ⟩, hx'⟩ := hr
    exact ⟨new, hnew, hQ, hx'⟩
  | error e => exact hr.1.elim

omit hW in
theorem rowStage_perform (hI : Stable (LeavesVm v) I)
    (h : ∀ s r s', I s → W op s r s' → Post Q E r s') : RowStage W v I (perform op) Q E := by
  intro s hs s₁ hs₁ r s' hop
  refine ⟨trivial, ?_⟩
  have hpost := h s₁ r s' (hI hs₁ hs) hop
  cases r with
  | ok a | error e => exact hpost

theorem rowStage_call (hI : Stable (LeavesVm v) I)
    (h : ∀ s r s', I s → world op s r s' → Journaled op r → Post Q E r s') :
    RowStage W v I (perform op) Q E :=
  rowStage_perform hI fun s r s' hs hop => h s r s' hs (hW op s r s' hop).1 (hW op s r s' hop).2

omit hW in
theorem rowOf_putRow (s : System) (sid : SessionId) (row : AbandonedRecord) :
    (s.putRow sid row).rowOf row.vmId = some row := by
  simp [System.putRow, System.rowOf]

/-- The clock of the host can show this time. -/
def Tells (W : World System Op Op.Ans) (now : UInt64) : Prop :=
  ∃ s s', W .unixTimeMs s (.ok now) s'

/-- What a pass that gives up makes of the row. -/
def mergedRow (v : VmId) (row : Option AbandonedRecord) (new : List AbandonedResourceEntry) :
    AbandonedRecord :=
  ⟨v, merge (entriesOf row) (merge (entriesOf row) new)⟩

theorem rowStage_read : RowStage W v (Stands v fun r x => P r x ∧ x = row) (perform (.abandoned v))
      (fun found s => found = row ∧ Stands v (fun r x => P r x ∧ x = row) s) E := by
  refine rowStage_call hW (stable_stands _) fun s r s' hs hop hok => ?_
  obtain ⟨a, rfl⟩ := hok
  rcases hop with ⟨hanswer, rfl⟩ | ⟨⟨e, he⟩, -⟩
  · obtain ⟨record, hrecord, hP, hx⟩ := hs
    exact ⟨(Except.ok.inj hanswer).trans hx, record, hrecord, hP, hx⟩
  · cases he

theorem rowStage_abandonRemaining (sid : SessionId) (found : VmResourceRecord)
    (failures : List CleanupFailure) (row : Option AbandonedRecord) :
    RowStage W v (Stands v fun r x => r = found ∧ x = row) (abandonRemaining sid v found failures)
      (fun _ => Stands v fun r x => ∃ now, Tells W now ∧
        r = abandonedRecord (remaining failures now found) found ∧
        x = some (mergedRow v row (remaining failures now found))) E := by
  have htime : RowStage W v (Stands v fun r x => r = found ∧ x = row) (perform .unixTimeMs)
      (fun now s => Tells W now ∧ Stands v (fun r x => r = found ∧ x = row) s) E := by
    refine rowStage_perform (stable_stands _) fun s r s' hs hop => ?_
    obtain ⟨⟨a, rfl⟩, rfl⟩ := (hW _ s r s' hop).1
    exact ⟨⟨s', s', hop⟩, hs⟩
  refine bind htime fun now => given fun htells => ?_
  refine bind (rowStage_read hW) fun existing => given ?_
  rintro rfl
  have hput : RowStage W v (Stands v fun r x => r = found ∧ x = existing)
      (putAbandoned sid ⟨v, merge (entriesOf existing) (remaining failures now found)⟩)
      (fun _ => Stands v fun r x => r = found ∧
        x = some (mergedRow v existing (remaining failures now found))) E := by
    refine bind (rowStage_read hW) fun previous => given ?_
    intro hprevious
    rw [hprevious]
    refine rowStage_call hW (stable_stands _) fun s r s' hs hop hok => ?_
    obtain ⟨a, rfl⟩ := hok
    rcases hop with ⟨-, rfl⟩ | ⟨⟨e, he⟩, -⟩
    · obtain ⟨record, hrecord, hfound, -⟩ := hs
      exact ⟨record, hrecord, hfound, rowOf_putRow _ _ _⟩
    · cases he
  refine bind hput fun _ => ?_
  refine rowStage_call hW (stable_stands _) fun s r s' hs hop hok => ?_
  obtain ⟨a, rfl⟩ := hok
  rcases hop with ⟨old, hold, -, rfl⟩ | ⟨⟨e, he⟩, -⟩
  · obtain ⟨record, hrecord, rfl, hx⟩ := hs
    obtain rfl : old = record := Option.some.inj (hold.symm.trans hrecord)
    refine ⟨_, recordOf_setRecord hold, now, htells, rfl, ?_⟩
    rw [System.rowOf, abandoned_setRecord]
    exact hx
  · cases he

/-- How a pass ends: record and row are gone, or the record is left with its row as it was,
or what is left is abandoned and merged into the row. -/
inductive PassEnd (W : World System Op Op.Ans) (v : VmId) (record : VmResourceRecord)
    (row : Option AbandonedRecord)
    (s : System) : Prop
  | gone (hrecord : s.recordOf v = none) (hrow : s.rowOf v = none)
  | left (new : VmResourceRecord) (hnew : s.recordOf v = some new) (hrow : s.rowOf v = row)
      (hcleaning : Cleaning (beginCleanup record) new)
      (hfew : ¬ maxCleanupAttempts ≤ new.cleanupAttempts)
  | abandoned (found : VmResourceRecord) (failures : List CleanupFailure) (now : UInt64)
      (htells : Tells W now) (hcleaning : Cleaning (beginCleanup record) found)
      (hmany : maxCleanupAttempts ≤ found.cleanupAttempts)
      (hnew : s.recordOf v = some (abandonedRecord (remaining failures now found) found))
      (hrow : s.rowOf v = some (mergedRow v row (remaining failures now found)))

theorem rowStage_giveUp (failures : List CleanupFailure) :
    RowStage W v (Stands v fun r x => Cleaning (beginCleanup record) r ∧ x = row)
      (giveUp sid v failures) (fun _ => PassEnd W v record row) fun _ => PassEnd W v record row := by
  have hread : RowStage W v (Stands v fun r x => Cleaning (beginCleanup record) r ∧ x = row)
      (readRecord v)
      (fun found => Stands v fun r x => (r = found ∧ Cleaning (beginCleanup record) r) ∧ x = row)
      fun _ => PassEnd W v record row := by
    exact RowStage.of_stage hW (unlisted_readRecord v) (stage_readRecord hW)
  refine bind hread fun found => ?_
  split
  · next hmany =>
    rintro s ⟨current, hcurrent, ⟨rfl, hcleaning⟩, hx⟩
    have habandon := rowStage_abandonRemaining hW sid current failures row
      (E := fun _ => PassEnd W v record row) s ⟨current, hcurrent, rfl, hx⟩
    refine habandon.mono fun r s' hr => ?_
    cases r with
    | ok a =>
      obtain ⟨new, hnew, now, htells, rfl, hrow⟩ := hr
      exact .abandoned current failures now htells hcleaning hmany hnew hrow
    | error e => exact hr
  · next hfew =>
    refine throw fun s hs => ?_
    obtain ⟨new, hnew, ⟨rfl, hcleaning⟩, hx⟩ := hs
    exact .left new hnew hx hcleaning hfew

omit hW in
theorem rowOf_removeRow (s : System) (v : VmId) : (s.removeRow v).rowOf v = none := by
  simp [System.removeRow, System.rowOf]

theorem rowStage_finishCleanup :
    RowStage W v (Stands v P) (finishCleanup v) (fun _ => PassEnd W v record row)
      fun _ => PassEnd W v record row := by
  have hgone : Stable (LeavesVm v) fun s => s.recordOf v = none :=
    fun s s' hs h => hs.1.trans h
  have hremove : Stage W v (Holds v fun _ => True) (perform (.removeVm v))
      (fun _ s => s.recordOf v = none) fun _ => PassEnd W v record row := by
    refine stage_call hW (stable_holds _) fun s r s' _ hop hok => ?_
    obtain ⟨a, rfl⟩ := hok
    rcases hop with ⟨-, rfl⟩ | ⟨⟨e, he⟩, -⟩
    · exact recordOf_removeRecord s v
    · cases he
  have hupdate : Stage W v (Holds v fun _ => True) (perform (.updateVm v completed))
      (fun _ => Holds v fun _ => True) fun _ => PassEnd W v record row :=
    stage_update hW fun _ _ => trivial
  have hrow : RowStage W v (fun s => s.recordOf v = none) (perform (.removeAbandoned v))
      (fun _ => PassEnd W v record row) fun _ => PassEnd W v record row := by
    refine rowStage_call hW hgone fun s r s' hs hop hok => ?_
    obtain ⟨a, rfl⟩ := hok
    rcases hop with ⟨-, rfl⟩ | ⟨⟨e, he⟩, -⟩
    · exact .gone hs (rowOf_removeRow s v)
    · cases he
  refine bind (hupdate.rows.pre fun s hs => ?_) fun _ => bind hremove.rows fun _ => hrow
  obtain ⟨current, hcurrent, -⟩ := hs
  exact ⟨current, hcurrent, trivial⟩

theorem rowStage_cleanupRecord (sid : SessionId) (record : VmResourceRecord)
    (row : Option AbandonedRecord) :
    RowStage W v (Stands v fun r x => r = record ∧ x = row) (cleanupRecord sid v)
      (fun _ => PassEnd W v record row) fun _ => PassEnd W v record row := by
  have hbegin : Stage W v (Holds v (· = record)) (perform (.updateVm v beginCleanup))
      (fun _ => Holds v (· = beginCleanup record)) fun _ _ => False :=
    stage_update hW fun r hr => hr ▸ rfl
  refine bind (RowStage.of_stage hW (unlisted_perform trivial) hbegin) fun _ => ?_
  refine bind (RowStage.of_stage hW (unlisted_readRecord v) (stage_readRecord hW)) fun found => ?_
  rintro s ⟨current, hcurrent, ⟨rfl, rfl⟩, hx⟩
  have heach : Stage W v (Holds v (Cleaning (beginCleanup record)))
      (cleanupEach v (beginCleanup record) (beginCleanup record).resources)
      (fun _ => Holds v (Cleaning (beginCleanup record))) fun _ _ => False :=
    (stage_cleanupEach hW _ _).mono (fun _ => id) (fun _ _ h => h.2) fun _ _ => id
  have hrest : RowStage W v (Stands v fun r x => Cleaning (beginCleanup record) r ∧ x = row)
      (do
        let failures ← cleanupEach v (beginCleanup record) (beginCleanup record).resources
        if failures = [] then finishCleanup v else giveUp sid v failures)
      (fun _ => PassEnd W v record row) fun _ => PassEnd W v record row := by
    refine bind (RowStage.of_stage hW (unlisted_cleanupEach _ _) heach) fun failures => ?_
    split
    · exact rowStage_finishCleanup hW
    · exact rowStage_giveUp hW failures
  exact hrest s ⟨_, hcurrent, Cleaning.refl _, hx⟩

end Rows

/-! ## Sequences of passes -/

section Inventory

variable {W : World System Op Op.Ans} {sid : SessionId} {v : VmId} {s s' : System}
  {record : VmResourceRecord} {row : Option AbandonedRecord}

/-- Record and row agree; a VM without a record has no row. -/
def Exact (v : VmId) (s : System) : Prop :=
  match s.recordOf v with
  | none => s.rowOf v = none
  | some record => Listed record (s.rowOf v)

/-- If the pass leaves the record, no resource that was abandoned is removed. -/
def Sticky (v : VmId) (s s' : System) : Prop :=
  ∀ old new resource, s.recordOf v = some old → s'.recordOf v = some new →
    old.state resource = some .abandoned → new.state resource ≠ some .removed

variable {r : Except Text Unit}

theorem passEnd_of_pass (hW : Completing W)
    (hrecord : s.recordOf v = some record) (hpass : Exec W (cleanupRecord sid v) s (some r) s') :
    PassEnd W v record (s.rowOf v) s' := by
  have hpost := (rowStage_cleanupRecord hW sid record (s.rowOf v) s
    ⟨record, hrecord, rfl, rfl⟩).exec (fun _ => ⟨rfl, rfl⟩) hpass
  cases r with
  | ok a | error e => exact hpost

theorem key_of_named {old new : VmResourceRecord} (h : During old new) (resource : Resource) :
    new.key resource = old.key resource := by
  rw [key, h.named, key]

theorem key_beginCleanup (record : VmResourceRecord) (resource : Resource) :
    (beginCleanup record).key resource = record.key resource := by
  cases resource <;> rfl

theorem Listed.left {new : VmResourceRecord} (h : Listed record none)
    (hnew : Cleaning (beginCleanup record) new) : Listed new none := by
  refine ⟨h.1, fun key => ⟨fun hkey => absurd hkey (not_mem_nil), ?_⟩⟩
  rintro ⟨resource, hmem, hstate, hkey⟩
  refine (h.2 key).2 ⟨resource, ?_, ?_, ?_⟩
  · rw [hnew.resources] at hmem
    exact hmem
  · rw [← state_beginCleanup]
    exact hnew.unabandoned resource hstate
  · rw [← key_beginCleanup, ← key_of_named hnew.toDuring]
    exact hkey

theorem Listed.abandoned {found : VmResourceRecord} (h : Listed record row)
    (hfound : Cleaning (beginCleanup record) found) (failures : List CleanupFailure) (now : UInt64)
    (hsticky : ∀ resource, record.state resource = some .abandoned →
      (abandonedRecord (remaining failures now found) found).state resource ≠ some .removed) :
    Listed (abandonedRecord (remaining failures now found) found)
      (some (mergedRow v row (remaining failures now found))) := by
  have hduring := (hfound.toDuring.abandoned (remaining failures now found)).1
  have hresources : (abandonedRecord (remaining failures now found) found).resources =
      found.resources := hduring.resources.trans hfound.resources.symm
  have hkeys : ∀ resource, (abandonedRecord (remaining failures now found) found).key resource =
      found.key resource := fun resource =>
    (key_of_named hduring resource).trans (key_of_named hfound.toDuring resource).symm
  have hstates : ∀ resource key, found.key resource = some key →
      ((abandonedRecord (remaining failures now found) found).state resource = some .abandoned ↔
        found.state resource ≠ some .removed) := by
    intro resource key hkey
    obtain ⟨state, hstate⟩ := state_of_key hkey
    rw [state_abandonedRecord, hstate]
    cases state <;> decide
  refine ⟨nodup_merge h.1, fun key => ?_⟩
  change key ∈ keys (merge (entriesOf row) (merge (entriesOf row) _)) ↔ _
  rw [mem_keys_merge, mem_keys_merge, ← or_assoc, or_self, mem_keys_remaining, hresources]
  constructor
  · rintro (hold | ⟨resource, hmem, hstate, hkey⟩)
    · obtain ⟨resource, hmem, hstate, hkey⟩ := (h.2 key).1 hold
      have hkey' : found.key resource = some key := by
        rw [key_of_named hfound.toDuring, key_beginCleanup, hkey]
      refine ⟨resource, ?_, (hstates resource key hkey').2 fun hremoved => ?_, ?_⟩
      · rw [hfound.resources]
        exact hmem
      · refine hsticky resource hstate ?_
        rw [state_abandonedRecord, hremoved]
        rfl
      · rw [hkeys, hkey']
    · exact ⟨resource, hmem, (hstates resource key hkey).2 hstate, by rw [hkeys, hkey]⟩
  · rintro ⟨resource, hmem, hstate, hkey⟩
    rw [hkeys] at hkey
    exact .inr ⟨resource, hmem, (hstates resource key hkey).1 hstate, hkey⟩

/-- What holds between passes: record and row agree, and there is no row before the third
attempt. -/
structure Kept (v : VmId) (s : System) : Prop where
  exact : Exact v s
  early : ∀ record, s.recordOf v = some record → ¬ maxCleanupAttempts ≤ record.cleanupAttempts →
    s.rowOf v = none

/-- The row after a pass against the row before it. -/
def Follows (W : World System Op Op.Ans) (v : VmId) (s s' : System) : Prop :=
  s'.recordOf v ≠ none → ∃ now, Dated (entriesOf (s.rowOf v)) (entriesOf (s'.rowOf v)) now ∧
    (s'.rowOf v ≠ s.rowOf v → Tells W now)

theorem Exact.listed (h : Exact v s) (hrecord : s.recordOf v = some record) :
    Listed record (s.rowOf v) := by
  rw [Exact, hrecord] at h
  exact h

theorem early_of_begun (h : ¬ maxCleanupAttempts ≤ (beginCleanup record).cleanupAttempts) :
    ¬ maxCleanupAttempts ≤ record.cleanupAttempts := by
  intro hmany
  have hbegun := attempts_le record (n := 3) (by rw [UInt32.le_iff_toNat_le] at hmany; exact hmany)
  exact h (UInt32.le_iff_toNat_le.2 hbegun)

theorem Kept.pass (hW : Completing W) (h : Kept v s)
    (hsticky : Sticky v s s') (hpass : Exec W (cleanupRecord sid v) s (some r) s') : Kept v s' := by
  obtain ⟨record, hrecord⟩ := record_of_pass hW hpass
  have hlisted := h.exact.listed hrecord
  cases passEnd_of_pass hW hrecord hpass with
  | gone hgone hrow =>
    refine ⟨?_, fun _ _ _ => hrow⟩
    rw [Exact, hgone]
    exact hrow
  | left new hnew hrow hcleaning hfew =>
    have hnone : s.rowOf v = none := h.early record hrecord (early_of_begun (hcleaning.attempts ▸ hfew))
    refine ⟨?_, fun _ _ _ => hrow.trans hnone⟩
    rw [Exact, hnew, hrow, hnone]
    exact Listed.left (hnone ▸ hlisted) hcleaning
  | abandoned found failures now htells hcleaning hmany hnew hrow =>
    refine ⟨?_, fun other hother hfew => ?_⟩
    · rw [Exact, hnew, hrow]
      exact hlisted.abandoned hcleaning failures now fun resource hstate =>
        hsticky record _ resource hrecord hnew hstate
    · rw [← Option.some.inj (hnew.symm.trans hother)] at hfew
      exact absurd hmany hfew

theorem follows_of_pass (hW : Completing W)
    (hpass : Exec W (cleanupRecord sid v) s (some r) s') : Follows W v s s' := by
  obtain ⟨record, hrecord⟩ := record_of_pass hW hpass
  intro hleft
  cases passEnd_of_pass hW hrecord hpass with
  | gone hgone _ => exact absurd hgone hleft
  | left new hnew hrow _ _ =>
    refine ⟨0, ?_, fun hchanged => absurd hrow hchanged⟩
    rw [hrow]
    exact Dated.refl _ _
  | abandoned found failures now htells _ _ _ hrow =>
    refine ⟨now, ?_, fun _ => htells⟩
    rw [hrow]
    refine (Dated.refl _ now).merge ?_
    exact ((Dated.refl _ now).merge fun entry hentry _ => time_remaining hentry).fresh

theorem Passes.kept (hW : Completing W) {trace : List System} (h : Passes W sid v s trace)
    (hs : Kept v s) (hsticky : ∀ i a b, (s :: trace)[i]? = some a → (s :: trace)[i + 1]? = some b →
      Sticky v a b) (i : Nat) {a : System} (ha : (s :: trace)[i]? = some a) : Kept v a := by
  induction h generalizing i with
  | nil s =>
    cases i with
    | zero => exact Option.some.inj ha ▸ hs
    | succ i => simp at ha
  | cons hpass _ ih =>
    cases i with
    | zero => exact Option.some.inj ha ▸ hs
    | succ i =>
      refine ih (hs.pass hW (hsticky 0 _ _ rfl rfl) hpass) (fun j a b hja hjb => ?_) i ha
      exact hsticky (j + 1) a b hja hjb

end Inventory

/-- Passes on a record of which nothing is abandoned yet, on a host whose journal works: if
no pass that leaves the record removes a resource abandoned before, then after each pass
the row lists exactly the abandoned resources, each once, and an entry keeps the time at
which it was first listed. -/
theorem inventory_exact (W : World System Op Op.Ans) (hW : Completing W) (sid : SessionId)
    (v : VmId) (s : System) (trace : List System) (h : Passes W sid v s trace)
    (hrow : s.rowOf v = none) (hfresh : ∀ record resource, s.recordOf v = some record →
      record.state resource ≠ some .abandoned)
    (hsticky : ∀ i a b, (s :: trace)[i]? = some a → (s :: trace)[i + 1]? = some b → Sticky v a b)
    (i : Nat) (a b : System) (ha : (s :: trace)[i]? = some a) (hb : (s :: trace)[i + 1]? = some b) :
    Exact v b ∧ Follows W v a b := by
  have hstart : Kept v s := by
    refine ⟨?_, fun _ _ _ => hrow⟩
    rw [Exact, hrow]
    split
    · rfl
    · next record hrecord =>
      refine ⟨nodup_nil, fun key => ⟨fun hkey => absurd hkey not_mem_nil, ?_⟩⟩
      rintro ⟨resource, -, hstate, -⟩
      exact absurd hstate (hfresh record resource hrecord)
  obtain ⟨r, hpass⟩ := h.pass i ha hb
  exact ⟨(h.kept hW hstart hsticky (i + 1) hb).exact, follows_of_pass hW hpass⟩

/-! ## A host that is busy -/

namespace Busy

/-- The compute system is never removed, the network once the record counts `attempts`. -/
def answer (attempts : UInt32) : (op : Op) → System → op.Ans × System
  | .removeComputeSystem _, s => (.error (utf8 "busy"), s)
  | .deleteNetwork v, s =>
    if (s.recordOf v).elim 0 (·.cleanupAttempts) < attempts then (.error (utf8 "busy"), s)
    else Calm.answer (.deleteNetwork v) s
  | op, s => Calm.answer op s

theorem completing_journaling : Completing journaling := fun _ _ _ _ h => h

variable {attempts : UInt32} {s : System}

theorem networkFades_refl (v : VmId) (s : System) : NetworkFades v s s :=
  ⟨s.network v, s.endpoint v, id, id, by rw [Function.update_eq_self, Function.update_eq_self]⟩

theorem world_answer (hs : Calm.Single s) (op : Op) :
    world op s (answer attempts op s).1 (answer attempts op s).2 ∧
      Calm.Single (answer attempts op s).2 := by
  cases op with
  | removeComputeSystem v => exact ⟨.inr ⟨⟨_, rfl⟩, .inl rfl⟩, hs⟩
  | deleteNetwork v =>
    simp only [answer]
    split
    · exact ⟨⟨networkFades_refl v s, nofun⟩, hs⟩
    · exact ⟨Calm.world_answer hs (.deleteNetwork v), Calm.single_answer hs (.deleteNetwork v)⟩
  | _ => exact ⟨Calm.world_answer hs _, Calm.single_answer hs _⟩

def afterPass (attempts : UInt32) (s : System) : System :=
  (Prog.interp (answer attempts) (cleanupRecord 10 1) s).2

def passes (attempts : UInt32) : Nat → System → List System
  | 0, _ => []
  | n + 1, s => afterPass attempts s :: passes attempts n (afterPass attempts s)

/-- In each of the passes the journal answers. -/
def AlongEach (attempts : UInt32) : Nat → System → Prop
  | 0, _ => True
  | n + 1, s => Along (answer attempts) Journaled (cleanupRecord 10 1) s ∧
      AlongEach attempts n (afterPass attempts s)

theorem passes_run {n : Nat} (hs : Calm.Single s) (h : AlongEach attempts n s) :
    Passes journaling 10 1 s (passes attempts n s) := by
  induction n generalizing s with
  | zero => exact .nil s
  | succ n ih =>
    obtain ⟨hpass, hsingle⟩ := exec_answer (fun _ hs => world_answer hs) _ hs h.1
    exact .cons hpass (ih hsingle h.2)

/-- No resource of the VM is removed, and it has no disk. -/
def unremoved (s : System) : Bool :=
  (s.recordOf 1).all fun record => record.computeSystem.state ≠ .removed &&
    record.network.all (·.state ≠ .removed) && record.disks = []

theorem sticky_of_unremoved {s s' : System} (h : unremoved s' = true) : Sticky 1 s s' := by
  intro old new resource _ hnew _ hremoved
  rw [unremoved, hnew] at h
  simp only [Option.all_some, Bool.and_eq_true, decide_eq_true_eq, Option.all_eq_true] at h
  obtain ⟨⟨hcompute, hnetwork⟩, hdisks⟩ := h
  cases resource with
  | computeSystem => exact hcompute (Option.some.inj hremoved)
  | network =>
    obtain ⟨network, hsome, hstate⟩ := Option.map_eq_some_iff.1 hremoved
    exact hnetwork network hsome hstate
  | disk index => simp [state, hdisks] at hremoved

end Busy

theorem running_unabandoned (record : VmResourceRecord) (resource : Resource)
    (h : runningSystem.recordOf 1 = some record) : record.state resource ≠ some .abandoned := by
  have hrunning : runningSystem.recordOf 1 = some runningRecord := rfl
  rw [← Option.some.inj (hrunning.symm.trans h)]
  cases resource with
  | computeSystem | network => decide
  | disk index => exact nofun

open Busy

/-- Compute system and network cannot be removed: four passes, the last on the abandoned
record. -/
theorem stuck_vm_inventory : Exact 1 (afterPass 5 (afterPass 5 (afterPass 5
    (afterPass 5 runningSystem)))) := by
  have hrun : Passes journaling 10 1 runningSystem (passes 5 4 runningSystem) :=
    passes_run single_running (by repeat' constructor)
  have hunremoved : (passes 5 4 runningSystem).all unremoved = true := rfl
  refine (inventory_exact journaling completing_journaling 10 1 runningSystem _ hrun rfl
    running_unabandoned (fun i a b _ hb => ?_) 3 _ _ rfl rfl).1
  exact sticky_of_unremoved (all_eq_true.1 hunremoved b (mem_of_getElem? hb))

/-- The network is removed by the fourth pass, the compute system stays: the row goes on
listing the network. -/
theorem removed_network_listed : ∃ W trace b, Completing W ∧ Passes W 10 1 runningSystem trace ∧
    runningSystem.rowOf 1 = none ∧ (∀ record resource, runningSystem.recordOf 1 = some record →
      record.state resource ≠ some .abandoned) ∧ b ∈ trace ∧ ¬ Exact 1 b := by
  refine ⟨journaling, passes 4 4 runningSystem, afterPass 4 (afterPass 4
    (afterPass 4 (afterPass 4 runningSystem))), completing_journaling,
    passes_run single_running (by repeat' constructor), rfl, running_unabandoned, ?_, fun hexact => ?_⟩
  · exact mem_of_getElem? (i := 3) rfl
  · obtain ⟨record, hrecord, hnetwork⟩ : ∃ record, (afterPass 4 (afterPass 4
        (afterPass 4 (afterPass 4 runningSystem)))).recordOf 1 = some record ∧
        record.state .network = some .removed := ⟨_, rfl, rfl⟩
    obtain ⟨key, hkey, hkind⟩ : ∃ key ∈ keys (entriesOf ((afterPass 4 (afterPass 4
        (afterPass 4 (afterPass 4 runningSystem)))).rowOf 1)), key.1 = .network :=
      ⟨_, mem_of_getElem? (i := 1) rfl, rfl⟩
    obtain ⟨resource, -, hstate, hnamed⟩ := ((hexact.listed hrecord).2 key).1 hkey
    obtain ⟨identity, -, rfl⟩ := Option.map_eq_some_iff.1 hnamed
    cases resource with
    | computeSystem | disk index => cases hkind
    | network =>
      rw [hnetwork] at hstate
      cases hstate

end Jyth.Hcs
