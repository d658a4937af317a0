import Jyth.Hcs.Passes
import Jyth.Lib.Run

/-!
# Histories of launches, publications, closes and recoveries

Any number of VMs and sessions are at work on one host.  A pass (a provisioning step,
a rollback, a cleanup or the recovery of a session) performs one operation at a time,
in any order with the operations of the other passes; it may be cut off, and files
may come and go by other hands.  The locks of sessions and of disk paths are not
modelled, so there are more histories here than those the locks allow.

A published VM's persistent disks survive if at its publication nothing else has a
claim on their files (`Exclusive`).  Without this they may be lost: a disk of a
crashed session's VM may be reused, as a persistent one, by another VM, and the
recovery of the crashed session then deletes it.
-/

namespace Jyth.Hcs

open Format Effect List Function

/-- Who runs a pass: a launch, or the recovery of a session. -/
inductive Work
  | vm (v : VmId)
  | session (sid : SessionId)
deriving DecidableEq

/-- The disk paths that the work is about. -/
def Work.paths (conf : VmId → Conf) : Work → Path → Prop
  | .vm v, path => path ∈ (conf v).paths
  | .session sid, path => ∃ v, (conf v).session = sid ∧ path ∈ (conf v).paths

abbrev Pass := Prog Op Op.Ans (Except Text Provisioned)

/-- The host, its passes under way and what its launches hold. -/
structure Machine where
  system : System
  running : Work → Option Pass
  /-- The disks on the list of a launch's `ProvisioningGuard`. -/
  created : VmId → List (Path × FileIdentity)
  /-- The attached disks with origin `CreatedByLaunch`, until the VM is booted. -/
  attached : VmId → List Path
  /-- The files sent to a guest with `initialize = true`. -/
  initialized : List (VmId × File)

/-- What happens on the machine. -/
inductive Event
  /-- The intent of a launch is journaled. -/
  | plan (v : VmId)
  | provision (v : VmId) (step : Step)
  /-- The launch failed or was dropped: its guard is dropped. -/
  | rollback (v : VmId)
  /-- The launch succeeded: its guard is disarmed. -/
  | disarm (v : VmId)
  /-- The boot configuration is sent. -/
  | boot (v : VmId)
  | publish (v : VmId)
  | close (v : VmId)
  | recover (sid : SessionId)
  | operate (work : Work)
  | finish (work : Work)
  /-- The process of a pass is gone. -/
  | crash (work : Work)
  /-- Somebody else puts a file at a path. -/
  | appear (path : Path) (identity : FileIdentity)
  | vanish (path : Path)

namespace Machine

def empty : Machine := ⟨System.empty, fun _ => none, fun _ => [], fun _ => [], []⟩

variable (m : Machine)

def start (work : Work) (p : Pass) : Machine :=
  { m with running := Function.update m.running work (some p) }

def stop (work : Work) : Machine := { m with running := Function.update m.running work none }

def disarm (v : VmId) : Machine := { m with created := Function.update m.created v [] }

def detach (v : VmId) : Machine := { m with attached := Function.update m.attached v [] }

/-- The guard and the launch learn which disks a step created. -/
def collect : Work → Except Text Provisioned → Machine
  | .vm v, .ok out =>
    { m with
      created := Function.update m.created v (m.created v ++ out.1)
      attached := Function.update m.attached v (m.attached v ++ out.1.map (·.1)) }
  | _, _ => m

/-- The launch is gone with its process. -/
def forget : Work → Machine
  | .vm v => (m.disarm v).detach v
  | .session _ => m

/-- `build_boot_config`: the disks the launch created are sent with `initialize = true`. -/
def boot (v : VmId) : Machine :=
  { m with
    initialized := (m.attached v).filterMap (fun path => (m.system.files path).map (v, ·)) ++
      m.initialized }.detach v

end Machine

/-- One event of the machine: a step of a launch, of its rollback or of a recovery. -/
inductive Next (conf : VmId → Conf) : Machine → Event → Machine → Prop
  | plan {m : Machine} {v : VmId} {r : Except Text Unit} {s' : System}
      (h : world (.putVm (conf v).session (plannedRecord v (conf v).network (conf v).specs))
        m.system r s') : Next conf m (.plan v) { m with system := s' }
  | provision {m : Machine} {v : VmId} {step : Step} (hidle : m.running (.vm v) = none)
      (hstep : step ∈ launchSteps (conf v).network (conf v).specs) :
      Next conf m (.provision v step) (m.start (.vm v) (provision v step))
  | rollback {m : Machine} {v : VmId} :
      Next conf m (.rollback v) (((m.start (.vm v)
        (withoutDisks (rollback (conf v).session v (m.created v)))).disarm v).detach v)
  | disarm {m : Machine} {v : VmId} (hidle : m.running (.vm v) = none) :
      Next conf m (.disarm v) (m.disarm v)
  | boot {m : Machine} {v : VmId} (hidle : m.running (.vm v) = none)
      (hdisarmed : m.created v = []) : Next conf m (.boot v) (m.boot v)
  | publish {m : Machine} {v : VmId} {r : Except Text Unit} {s' : System}
      (hidle : m.running (.vm v) = none) (hdisarmed : m.created v = [])
      (h : world (.publishVm v) m.system r s') : Next conf m (.publish v) { m with system := s' }
  | close {m : Machine} {v : VmId} (hidle : m.running (.vm v) = none)
      (hdisarmed : m.created v = []) :
      Next conf m (.close v)
        ((m.detach v).start (.vm v) (withoutDisks (cleanupRecord (conf v).session v)))
  | recover {m : Machine} {sid : SessionId} (hidle : m.running (.session sid) = none) :
      Next conf m (.recover sid) (m.start (.session sid) (withoutDisks (recoverSession sid)))
  | operate {m : Machine} {work : Work} {op : Op} {next : op.Ans → Pass} {r : op.Ans}
      {s' : System} (hrun : m.running work = some (.step op next))
      (h : world op m.system r s') :
      Next conf m (.operate work) ({ m with system := s' }.start work (next r))
  | finish {m : Machine} {work : Work} {out : Except Text Provisioned}
      (hrun : m.running work = some (.done out)) :
      Next conf m (.finish work) ((m.stop work).collect work out)
  | crash {m : Machine} {work : Work} : Next conf m (.crash work) ((m.stop work).forget work)
  | appear {m : Machine} {path : Path} {identity : FileIdentity}
      (hfree : m.system.files path = none) (hfresh : m.system.Fresh identity) :
      Next conf m (.appear path identity)
        { m with system := m.system.putFile path ⟨identity, none, false, false, []⟩ }
  | vanish {m : Machine} {path : Path} : Next conf m (.vanish path)
      { m with system := { m.system with files := m.system.files.remove path } }

/-! ## Publication -/

/-- When `v` is published with `record`, nothing else has a claim on the file at
`path`, and no pass works on the path. -/
structure Exclusive (conf : VmId → Conf) (m : Machine) (v : VmId) (record : VmResourceRecord)
    (path : Path) (file : File) : Prop where
  others : ∀ w other, w ≠ v → m.system.recordOf w = some other →
    ¬ other.Claims path file.identity
  own : ∀ disk ∈ record.disks, disk.Claims path file.identity →
    disk.effectiveRetention = .persistent
  created : ∀ w, (path, file.identity) ∉ m.created w
  running : ∀ work, m.running work ≠ none → ¬ work.paths conf path

/-- The condition on an event: a VM is published only if the files it attached as
persistent disks are its own. -/
def Event.Fair (conf : VmId → Conf) (m : Machine) : Event → Prop
  | .publish v => ∀ record path file, m.system.recordOf v = some record →
      m.system.files path = some file → System.attaches record path file = true →
      Exclusive conf m v record path file
  | _ => True

/-- A step of the machine with a fair event. -/
abbrev Fairly (conf : VmId → Conf) (m : Machine) (event : Event) (m' : Machine) : Prop :=
  Next conf m event m' ∧ event.Fair conf m

section

variable {μ : Mark} {conf : VmId → Conf} {s s' : System} {v : VmId} {record : VmResourceRecord}
variable {path : Path} {identity : FileIdentity}

theorem claims_published (h : (System.published record).Claims path identity) :
    ∃ disk ∈ record.disks, disk.Claims path identity ∧ disk.effectiveRetention = .ephemeral := by
  obtain ⟨disk', hdisk, hpath, horigin, hdeletable, hidentity⟩ := h
  obtain ⟨disk, hmem, rfl⟩ := mem_map.1 hdisk
  have hephemeral : disk.effectiveRetention = .ephemeral := by
    simpa [DiskResource.deletable] using hdeletable
  exact ⟨disk, hmem, ⟨hpath, horigin, by simp [DiskResource.deletable, hephemeral], hidentity⟩,
    hephemeral⟩

theorem unmarked_keepFiles (h : Unmarked .kept s path identity)
    (hno : ∀ file, s.files path = some file → file.identity = identity →
      System.attaches record path file ≠ true) :
    Unmarked .kept (s.keepFiles record) path identity := by
  intro file hfile hidentity
  obtain ⟨old, hold, rfl⟩ := Option.map_eq_some_iff.1 hfile
  have hattaches := hno old hold hidentity
  have hkept : old.kept = false := h old hold hidentity
  simp only [Bool.not_eq_true] at hattaches
  simp [Mark.kept, hkept, hattaches]

theorem Orderly.published (h : Orderly μ conf s) (hrecord : s.recordOf v = some record) :
    Spares μ conf s (s.setRecord v (System.published record)) := by
  refine h.setRecord hrecord rfl ?_ fun path identity hclaim => .inl ?_
  · simp [System.published, comp_def]
  · obtain ⟨disk, hdisk, hclaim, -⟩ := claims_published hclaim
    exact ⟨disk, hdisk, hclaim⟩

theorem Orderly.appear (h : Orderly .kept conf s) (path : Path) (identity : FileIdentity) :
    Spares .kept conf s (s.putFile path ⟨identity, none, false, false, []⟩) := by
  exact h.spares (fun _ _ => id) (fun p i hs => hs.putFile fun _ _ => rfl) rfl

theorem Orderly.findFile (h : Orderly .kept conf s) (path : Path) :
    Spares .kept conf s (s.findFile path) := by
  unfold System.findFile
  split
  · next old hold =>
    refine h.spares (fun _ _ => id) (fun p identity hs => hs.putFile fun hp hidentity => ?_) rfl
    exact hs old (hp ▸ hold) hidentity
  · exact h.refl

theorem files_setRecord (s : System) (v : VmId) (record : VmResourceRecord) :
    (s.setRecord v record).files = s.files ∧ (s.setRecord v record).deleted = s.deleted := by
  unfold System.setRecord
  split <;> exact ⟨rfl, rfl⟩

end

/-! ## The invariant -/

/-- A pass ends with disks that have no mark. -/
abbrev Ended (μ : Mark) (conf : VmId → Conf) (work : Work) : Except Text Provisioned → System → Prop :=
  Post (Delivers μ (work.paths conf)) fun _ _ => True

/-- `p` can go on: each of its operations spares. -/
abbrev Proceeds (μ : Mark) (conf : VmId → Conf) (work : Work) (p : Pass) (s : System) : Prop :=
  Obeys world (Leaves μ conf (work.paths conf)) (Behaves μ conf) (Ended μ conf work) p s

/-- What every history keeps: no marked file is on a list or was deleted. -/
structure Sound (μ : Mark) (conf : VmId → Conf) (m : Machine) : Prop where
  orderly : Orderly μ conf m.system
  created : ∀ v, ∀ disk ∈ m.created v, disk.1 ∈ (conf v).paths ∧ Unmarked μ m.system disk.1 disk.2
  running : ∀ work p, m.running work = some p → Proceeds μ conf work p m.system
  deleted : ∀ file ∈ m.system.deleted, μ.flag file = false

section

variable {μ : Mark} {conf : VmId → Conf} {m m' : Machine} {s' : System} {v : VmId}
    {work : Work} {p : Pass}

theorem stable_ended (out : Except Text Provisioned) :
    Stable (Leaves μ conf (work.paths conf)) (Ended μ conf work out) := by
  intro s s' hleaves h
  cases out with
  | ok out => exact ⟨h.1, Leaves.cleared (fun p i hmem => h.1 (p, i) hmem) hleaves h.2⟩
  | error e => trivial

theorem Proceeds.leaves {s : System} (h : Proceeds μ conf work p s)
    (hleaves : Leaves μ conf (work.paths conf) s s') : Proceeds μ conf work p s' :=
  Obeys.stable (R := Leaves μ conf (work.paths conf)) (fun _ _ _ => Leaves.trans) stable_ended
    hleaves h

namespace Sound

section

variable (h : Sound μ conf m)
include h

theorem change (horderly : Orderly μ conf s')
    (hcreated : ∀ v, ∀ disk ∈ m.created v, Unmarked μ s' disk.1 disk.2)
    (hrunning : ∀ work p, m.running work = some p → Leaves μ conf (work.paths conf) m.system s')
    (hdeleted : ∀ file ∈ s'.deleted, μ.flag file = false) : Sound μ conf { m with system := s' } where
  orderly := horderly
  created v disk hdisk := ⟨(h.created v disk hdisk).1, hcreated v disk hdisk⟩
  running work p hp := (h.running work p hp).leaves (hrunning work p hp)
  deleted := hdeleted

theorem spares (hspares : Spares μ conf m.system s') : Sound μ conf { m with system := s' } := by
  refine h.change hspares.orderly (fun v disk hdisk => ?_) (fun _ _ _ => hspares.leaves) ?_
  · exact hspares.unmarked _ _ (h.created v disk hdisk).2
  · intro file hfile
    rcases hspares.deleted file hfile with hold | hnew
    · exact h.deleted file hold
    · exact hnew

theorem start (hp : Proceeds μ conf work p m.system) : Sound μ conf (m.start work p) := by
  refine { h with running := fun work' p' hp' => ?_ }
  replace hp' := (update_apply m.running work (some p) work').symm.trans hp'
  split at hp'
  · next hsame =>
    cases hp'
    exact hsame ▸ hp
  · exact h.running work' p' hp'

theorem stop (work : Work) : Sound μ conf (m.stop work) := by
  refine { h with running := fun work' p' hp' => ?_ }
  replace hp' := (update_apply m.running work none work').symm.trans hp'
  split at hp'
  · cases hp'
  · exact h.running work' p' hp'

theorem setCreated {disks : List (Path × FileIdentity)}
    (hdisks : ∀ disk ∈ disks, disk.1 ∈ (conf v).paths ∧ Unmarked μ m.system disk.1 disk.2) :
    Sound μ conf { m with created := Function.update m.created v disks } := by
  refine { h with created := fun w disk hdisk => ?_ }
  by_cases hw : w = v
  · subst hw
    exact hdisks disk ((update_self w disks m.created) ▸ hdisk)
  · exact h.created w disk ((update_of_ne hw disks m.created) ▸ hdisk)

theorem setAttached (attached : VmId → List Path) :
    Sound μ conf { m with attached := attached } := { h with }

theorem disarm (v : VmId) : Sound μ conf (m.disarm v) :=
  h.setCreated fun _ hdisk => (not_mem_nil hdisk).elim

end

variable {r : Except Text Unit} {event : Event} {op : Op}

theorem plan (h : Sound μ conf m)
    (hop : world (.putVm (conf v).session (plannedRecord v (conf v).network (conf v).specs))
      m.system r s') : Sound μ conf { m with system := s' } := by
  refine h.spares (Commits.spares hop h.orderly (h.orderly.insert ⟨rfl, rfl, ?_, ?_⟩))
  · refine ext_getElem? fun i => ?_
    simp [plannedRecord, Conf.paths, plannedDisk, comp_def]
  · rintro path identity ⟨disk, hdisk, -, -, -, hidentity⟩
    obtain ⟨index, hindex, rfl⟩ := mem_mapIdx.1 hdisk
    cases hidentity

theorem publish (h : Sound Mark.kept conf m) (hfair : (Event.publish v).Fair conf m)
    (hop : world (.publishVm v) m.system r s') : Sound Mark.kept conf { m with system := s' } := by
  rcases hop with ⟨hsome, -, rfl⟩ | ⟨-, rfl⟩
  swap
  · exact h.spares h.orderly.refl
  obtain ⟨record, hrecord⟩ := Option.isSome_iff_exists.1 hsome
  have hpublish : m.system.publish v =
      (m.system.setRecord v (System.published record)).keepFiles record := by
    rw [System.publish, hrecord]
  have hset := h.orderly.published hrecord
  obtain ⟨hfiles, hdeleted⟩ := files_setRecord m.system v (System.published record)
  -- a claim that is cleared stays so, unless the file becomes one that is to be kept
  have hkeep : ∀ path identity, Unmarked Mark.kept m.system path identity →
      (∀ file, Exclusive conf m v record path file → file.identity ≠ identity) →
      Unmarked Mark.kept (m.system.publish v) path identity := by
    intro path identity hunmarked hno
    rw [hpublish]
    refine unmarked_keepFiles (hset.unmarked path identity hunmarked) fun file hfile hid hattaches => ?_
    exact hno file (hfair record path file hrecord (hfiles ▸ hfile) hattaches) hid
  have horderly : Orderly Mark.kept conf (m.system.publish v) := by
    intro w entry hentry
    rw [hpublish] at hentry
    have hfiled := hset.orderly w entry hentry
    refine { hfiled with unmarked := fun path identity hclaim => ?_ }
    have hunmarked : Unmarked Mark.kept m.system path identity := by
      intro file hfile
      exact hfiled.unmarked path identity hclaim file (hfiles.symm ▸ hfile)
    refine hkeep path identity hunmarked fun file hexclusive hid => ?_
    subst hid
    obtain ⟨sid, hlookup⟩ := System.recordOf_eq_some.1 hrecord
    have hentry' : (m.system.setRecord v (System.published record)).records.lookup w =
        some entry := hentry
    rw [System.setRecord_eq hlookup, lookup_insert_apply] at hentry'
    split at hentry'
    · cases hentry'
      obtain ⟨disk, hdisk, hold, hephemeral⟩ := claims_published hclaim
      have hpersistent := hexclusive.own disk hdisk hold
      rw [hephemeral] at hpersistent
      cases hpersistent
    · next hw =>
      exact hexclusive.others w entry.record hw (System.recordOf_eq_some.2 ⟨_, hentry'⟩) hclaim
  refine h.change horderly (fun w disk hdisk => ?_) (fun work p hp => ⟨horderly, ?_⟩) ?_
  · refine hkeep disk.1 disk.2 (h.created w disk hdisk).2 fun file hexclusive hid => ?_
    exact hexclusive.created w (hid ▸ hdisk)
  · intro path hpath identity hunmarked
    refine hkeep path identity hunmarked fun file hexclusive _ => ?_
    exact hexclusive.running work (by rw [hp]; nofun) hpath
  · intro file hfile
    rw [hpublish] at hfile
    exact h.deleted file (hdeleted ▸ hfile)

theorem operate {next : op.Ans → Pass} {r : op.Ans}
    (hrun : m.running work = some (.step op next)) (hop : world op m.system r s')
    (h : Sound μ conf m) (hrest : Sound μ conf { m.stop work with system := s' }) :
    Sound μ conf ({ m with system := s' }.start work (next r)) := by
  obtain ⟨-, hgoes⟩ := h.running work _ hrun m.system h.orderly.refl.leaves r s' hop
  have hstart : Sound μ conf ({ m.stop work with system := s' }.start work (next r)) :=
    hrest.start hgoes
  simpa only [Machine.start, Machine.stop, update_idem] using hstart

theorem behave {next : op.Ans → Pass} {r : op.Ans} (h : Sound μ conf m)
    (hrun : m.running work = some (.step op next)) (hop : world op m.system r s')
    (hno : ∀ path, op ≠ .claimPath path) :
    Sound μ conf ({ m with system := s' }.start work (next r)) := by
  obtain ⟨hspares, -⟩ := h.running work _ hrun m.system h.orderly.refl.leaves r s' hop
  exact operate hrun hop h ((h.stop work).spares (hspares hno))

theorem collect (h : Sound μ conf m) {out : Except Text Provisioned}
    (hended : Ended μ conf work out m.system) : Sound μ conf (m.collect work out) := by
  cases work with
  | session sid => exact h
  | vm v =>
    cases out with
    | error e => exact h
    | ok out =>
      refine (h.setCreated (v := v) fun disk hdisk => ?_).setAttached _
      rcases mem_append.1 hdisk with hold | hnew
      · exact h.created v disk hold
      · exact ⟨hended.1 disk hnew, hended.2 disk.1 disk.2 hnew⟩

theorem next_common (h : Sound μ conf m) (hnext : Next conf m event m')
    (hpublish : ∀ v, event ≠ .publish v) (hoperate : ∀ work, event ≠ .operate work)
    (happear : ∀ path identity, event ≠ .appear path identity) : Sound μ conf m' := by
  have hnone : Cleared μ (fun _ _ => False) m.system := fun _ _ h => h.elim
  cases hnext with
  | plan hop => exact h.plan hop
  | provision hidle hstep => exact h.start (heeds_provision (fun _ => id) hstep _ trivial)
  | @rollback v =>
    have hcleared : Cleared μ (fun p i => (p, i) ∈ m.created v) m.system :=
      fun p i hmem => (h.created v (p, i) hmem).2
    refine ((h.start (heeds_withoutDisks (keeps_rollback ?_ ?_ ?_) _ hcleared)).disarm
      v).setAttached _
    · exact fun p i hmem => (h.created v (p, i) hmem).1
    · exact fun p hp => hp
    · exact fun disk hdisk => hdisk
  | disarm hidle => exact h.disarm _
  | boot hidle hdisarmed => exact { h with }
  | @publish v => exact absurd rfl (hpublish v)
  | close hidle hdisarmed =>
    refine (h.setAttached _).start (heeds_withoutDisks (keeps_cleanupRecord ?_ ?_) _ hnone)
    · exact fun _ _ h => h.elim
    · exact fun p hp => hp
  | recover hidle =>
    refine h.start (heeds_withoutDisks (keeps_recoverSession ?_ ?_) _ hnone)
    · exact fun _ _ h => h.elim
    · exact fun v hv p hp => ⟨v, hv, hp⟩
  | @operate work => exact absurd rfl (hoperate work)
  | @finish work out hrun => exact (h.stop work).collect (h.running work _ hrun)
  | @crash work =>
    cases work with
    | vm v => exact ((h.stop (.vm v)).disarm v).setAttached _
    | session sid => exact h.stop (.session sid)
  | @appear path identity => exact absurd rfl (happear path identity)
  | vanish =>
    exact h.spares (h.orderly.spares (fun _ _ => id) (fun _ _ hs => hs.remove) rfl)

theorem next (h : Sound .kept conf m) (hnext : Fairly conf m event m') : Sound .kept conf m' := by
  obtain ⟨hnext, hfair⟩ := hnext
  cases event with
  | publish v =>
    cases hnext with
    | publish hidle hdisarmed hop => exact h.publish hfair hop
  | operate work =>
    cases hnext with
    | @operate _ op _ _ _ hrun hop =>
      by_cases hclaim : ∃ path, op = .claimPath path
      · obtain ⟨path, rfl⟩ := hclaim
        refine operate hrun hop h ((h.stop work).spares ?_)
        exact Commits.spares hop h.orderly (h.orderly.findFile path)
      · exact h.behave hrun hop fun path heq => hclaim ⟨path, heq⟩
  | appear path identity =>
    cases hnext with
    | appear hfree hfresh => exact h.spares (h.orderly.appear path identity)
  | _ => exact h.next_common hnext nofun nofun nofun

end Sound

theorem sound_empty : Sound μ conf .empty where
  orderly v entry hentry := by cases hentry
  created v disk hdisk := (not_mem_nil hdisk).elim
  running work p hp := by cases hp
  deleted file hfile := (not_mem_nil hfile).elim

end

/-- No cleanup, rollback or recovery ever deletes a file that a published VM attached
as a persistent disk, if every publication is of files that nothing else claims. -/
theorem persistent_disks_survive {conf : VmId → Conf} {events : List Event} {m : Machine}
    (h : Run.Trace (Fairly conf) .empty events m) : ∀ file ∈ m.system.deleted, file.kept = false := by
  have hsound : Sound .kept conf m :=
    h.invariant (I := fun _ m => Sound .kept conf m) sound_empty
      fun _ _ _ _ hs hnext => hs.next hnext
  exact hsound.deleted

/-! ## A host on which nothing fails -/

namespace Calm

/-- The only disk path in use, and the identity of a file created there. -/
def shared : Path := [0x43, 0x3a, 0x5c, 0x64]
def identity : FileIdentity := ⟨1, 1⟩

def setNetwork (s : System) (v : VmId) (present : Bool) : System :=
  { s with network := Function.update s.network v present }

def setEndpoint (s : System) (v : VmId) (present : Bool) : System :=
  { s with endpoint := Function.update s.endpoint v present }

def setCompute (s : System) (v : VmId) (present : Bool) : System :=
  { s with compute := Function.update s.compute v present }

def onRecord (s : System) (v : VmId) (f : VmResourceRecord → System) : Except Text Unit × System :=
  match s.recordOf v with
  | some record => (.ok (), f record)
  | none => (.error [], s)

/-- Every operation that can succeed does. -/
def answer : (op : Op) → System → op.Ans × System
  | .putVm sid record, s => (.ok (), s.putRecord sid record)
  | .updateVm v update, s => onRecord s v fun record => s.setRecord v (update record)
  | .publishVm v, s => onRecord s v fun _ => s.publish v
  | .vm v, s => (.ok (s.recordOf v), s)
  | .allVms sid, s => (.ok (s.recordsOf sid), s)
  | .removeVm v, s => (.ok (), s.removeRecord v)
  | .abandoned v, s => (.ok ((s.abandoned.lookup v).map (·.record)), s)
  | .putAbandoned sid record, s => (.ok (), s.putRow sid record)
  | .removeAbandoned v, s => (.ok (), s.removeRow v)
  | .hasAbandoned sid, s => (.ok (s.hasAbandoned sid), s)
  | .removeSession sid, s => (.ok (), s.removeSession sid)
  | .unixTimeMs, s => (.ok 0, s)
  | .createNetwork v, s => (.ok (), setNetwork s v true)
  | .createEndpoint v, s => (.ok [], setEndpoint s v true)
  | .rollbackNetwork v, s => (.ok (), setEndpoint (setNetwork s v false) v false)
  | .deleteNetwork v, s => (.ok (), setEndpoint (setNetwork s v false) v false)
  | .createComputeSystem v, s => (.ok (), setCompute s v true)
  | .removeComputeSystem v, s => (.ok (), setCompute s v false)
  | .pathExists path, s => (.ok (s.files path).isSome, s)
  | .claimPath path, s => (.ok (), s.findFile path)
  | .createVhdx v path, s =>
    if path = shared ∧ (s.files path).isNone then
      (.ok (), s.putFile path ⟨identity, some v, false, false, []⟩)
    else (.error [], s)
  | .validateVhdx _, s => (.ok (), s)
  | .fileIdentity path, s =>
    match s.files path with
    | some file => (.ok file.identity, s)
    | none => (.error [], s)
  | .grantAccess v path, s => (.ok (), setAces s path fun aces => v :: aces)
  | .revokeAccess v path, s => (.ok (), setAces s path (·.filter (· ≠ v)))
  | .removeFile path, s => (.ok (s.files path).isSome, s.deleteFile path)

/-- Every file is at the shared path. -/
def Single (s : System) : Prop := ∀ path, s.files path ≠ none → path = shared

variable {s : System}

section

variable (h : Single s)
include h

theorem Single.of_files {s' : System} (hfiles : s'.files = s.files) : Single s' := by
  unfold Single
  rw [hfiles]
  exact h

theorem single_onRecord {v : VmId} {f : VmResourceRecord → System}
    (hf : ∀ record, s.recordOf v = some record → Single (f record)) : Single (onRecord s v f).2 := by
  unfold onRecord
  split
  · next record hrecord => exact hf record hrecord
  · exact h

theorem single_publish (v : VmId) : Single (s.publish v) := by
  unfold System.publish
  split
  · next record _ =>
    intro path hpath
    refine h path fun hnone => hpath ?_
    change Option.map _ ((s.setRecord v (System.published record)).files path) = none
    rw [(files_setRecord s v _).1, hnone]
    rfl
  · exact h

theorem single_putFile {path : Path} (hpath : path = shared) (file : File) :
    Single (s.putFile path file) := by
  intro p hp
  by_cases heq : p = path
  · exact heq.trans hpath
  · exact h p fun hnone => hp ((Table.insert_apply _ _ _ _).trans (by rw [if_neg heq, hnone]))

theorem single_setAces (path : Path) (f : List VmId → List VmId) : Single (setAces s path f) := by
  unfold setAces
  split
  · next file hfile => exact single_putFile h (h path (by rw [hfile]; nofun)) _
  · exact h

theorem single_findFile (path : Path) : Single (s.findFile path) := by
  unfold System.findFile
  split
  · next file hfile => exact single_putFile h (h path (by rw [hfile]; nofun)) _
  · exact h

theorem single_deleteFile (path : Path) : Single (s.deleteFile path) := by
  unfold System.deleteFile
  split
  · intro p hp
    refine h p fun hnone => hp ((Table.remove_apply _ _ _).trans ?_)
    rw [hnone, ite_self]
  · exact h

theorem single_answer (op : Op) : Single (answer op s).2 := by
  cases op with
  | updateVm v update => exact single_onRecord h fun _ _ => h.of_files (files_setRecord s v _).1
  | publishVm v => exact single_onRecord h fun _ _ => single_publish h v
  | removeVm v => exact h.of_files (fewer_removeRecord s v).files
  | removeSession sid => exact h.of_files (fewer_removeSession s sid).files
  | createVhdx v path =>
    simp only [answer]
    split
    · next hpath => exact single_putFile h hpath.1 _
    · exact h
  | fileIdentity path =>
    simp only [answer]
    split <;> exact h
  | claimPath path => exact single_findFile h path
  | grantAccess v path | revokeAccess v path => exact single_setAces h path _
  | removeFile path => exact single_deleteFile h path
  | _ => exact h

theorem world_answer (op : Op) : world op s (answer op s).1 (answer op s).2 := by
  cases op with
  | updateVm v update =>
    simp only [answer, onRecord]
    split
    · next record hrecord => exact .inl ⟨record, hrecord, rfl, rfl⟩
    · exact .inr ⟨⟨[], rfl⟩, rfl⟩
  | publishVm v =>
    simp only [answer, onRecord]
    split
    · next record hrecord => exact .inl ⟨by rw [hrecord]; rfl, rfl, rfl⟩
    · exact .inr ⟨⟨[], rfl⟩, rfl⟩
  | unixTimeMs => exact ⟨⟨0, rfl⟩, rfl⟩
  | createNetwork v | createComputeSystem v | removeComputeSystem v => exact .inl ⟨⟨(), rfl⟩, rfl⟩
  | createEndpoint v => exact .inl ⟨⟨[], rfl⟩, rfl⟩
  | rollbackNetwork v => exact ⟨rfl, false, false, nofun, nofun, rfl⟩
  | deleteNetwork v =>
    refine ⟨⟨false, false, nofun, nofun, rfl⟩, fun _ => ⟨?_, ?_⟩⟩
    · exact update_self _ _ _
    · exact update_self _ _ _
  | pathExists path => exact ⟨rfl, rfl⟩
  | createVhdx v path =>
    simp only [answer]
    split
    · next hpath =>
      have hnone : s.files path = none := Option.isNone_iff_eq_none.1 hpath.2
      refine .inl ⟨⟨(), rfl⟩, hnone, identity, fun p file hfile => ?_, rfl⟩
      -- the only path that can have a file is free
      rw [h p (by rw [hfile]; nofun), ← hpath.1, hnone] at hfile
      cases hfile
    · exact .inr ⟨⟨[], rfl⟩, .inl rfl⟩
  | fileIdentity path =>
    simp only [answer]
    split
    · next file hfile => exact ⟨rfl, .inl ⟨file, hfile, rfl⟩⟩
    · exact ⟨rfl, .inr ⟨[], rfl⟩⟩
  | _ => exact .inl ⟨rfl, rfl⟩

end

theorem single_interp {α : Type} (p : Prog Op Op.Ans α) (h : Single s) :
    Single (p.interp answer s).2 := by
  induction p generalizing s with
  | done a => exact h
  | step op next ih => exact ih _ (single_answer h op)

/-! ### Whole passes -/

def main : Event → Bool
  | .operate _ | .finish _ => false
  | _ => true

/-- A run from `m` to `m'` with these main events. -/
def Tells (next : Machine → Event → Machine → Prop) (m : Machine) (story : List Event)
    (m' : Machine) : Prop :=
  ∃ events, events.filter main = story ∧ Run.Trace next m events m'

section

variable {next : Machine → Event → Machine → Prop} {m m' m'' : Machine} {story story' : List Event}

theorem Tells.append (h : Tells next m story m') (h' : Tells next m' story' m'') :
    Tells next m (story ++ story') m'' := by
  obtain ⟨events, rfl, hrun⟩ := h
  obtain ⟨events', rfl, hrun'⟩ := h'
  exact ⟨events ++ events', filter_append .., hrun.append hrun'⟩

theorem Tells.single {event : Event} (hmain : main event = true) (h : next m event m') :
    Tells next m [event] m' := ⟨[] ++ [event], by simp [hmain], .snoc .nil h⟩

theorem Tells.mono {next' : Machine → Event → Machine → Prop} (h : Tells next m story m')
    (hnext : ∀ m e m', next m e m' → next' m e m') : Tells next' m story m' := by
  obtain ⟨events, hstory, hrun⟩ := h
  exact ⟨events, hstory, hrun.mono hnext⟩

end

def Allows (ok : Op → System → Bool) : Pass → System → Bool
  | .done _, _ => true
  | .step op next, s => ok op s && Allows ok (next (answer op s).1) (answer op s).2

theorem allows_all (p : Pass) (s : System) : Allows (fun _ _ => true) p s = true := by
  induction p generalizing s with
  | done out => rfl
  | step op next ih => exact ih _ _

/-- The steps that meet a condition. -/
abbrev Under (conf : VmId → Conf) (C : Machine → Event → Prop) (m : Machine) (event : Event)
    (m' : Machine) : Prop := Next conf m event m' ∧ C m event

/-- The condition lets a pass perform the operations in `ok`. -/
structure Admits (C : Machine → Event → Prop) (ok : Op → System → Bool) (m : Machine)
    (work : Work) : Prop where
  operate : ∀ s op next, ok op s = true →
    C ({ m with system := s }.start work (.step op next)) (.operate work)
  finish : ∀ m', C m' (.finish work)

variable {conf : VmId → Conf} {m : Machine} {work : Work} {v : VmId}
variable {C : Machine → Event → Prop} {ok : Op → System → Bool}

theorem admits_fair : Admits (fun m event => event.Fair conf m) (fun _ _ => true) m work :=
  ⟨fun _ _ _ _ => trivial, fun _ => trivial⟩

theorem tells_operate (hadmits : Admits C ok m work) (p : Pass) {s : System} (hsingle : Single s)
    (hallows : Allows ok p s = true) : Tells (Under conf C) ({ m with system := s }.start work p) []
      ({ m with system := (p.interp answer s).2 }.start work (.done (p.interp answer s).1)) := by
  induction p generalizing s with
  | done out => exact ⟨[], rfl, .nil⟩
  | step op next ih =>
    obtain ⟨hok, hallows⟩ := Bool.and_eq_true_iff.1 hallows
    have hstep : Next conf ({ m with system := s }.start work (.step op next)) (.operate work)
        ({ m with system := (answer op s).2 }.start work (next (answer op s).1)) := by
      have hnext : Next conf ({ m with system := s }.start work (.step op next)) (.operate work) _ :=
        .operate (update_self _ _ _) (world_answer hsingle op)
      simpa only [Machine.start, update_idem] using hnext
    obtain ⟨events, hmain, htrace⟩ := ih _ (single_answer hsingle op) hallows
    refine ⟨[] ++ [.operate work] ++ events, by simp [main, hmain], ?_⟩
    exact (Run.Trace.snoc .nil ⟨hstep, hadmits.operate s op next hok⟩).append htrace

def after (m : Machine) (work : Work) (p : Pass) : Machine :=
  { m with system := (p.interp answer m.system).2 }.collect work (p.interp answer m.system).1

@[simp] theorem running_collect (m : Machine) (work : Work) (out : Except Text Provisioned) :
    (m.collect work out).running = m.running := by
  unfold Machine.collect
  split <;> rfl

@[simp] theorem system_collect (m : Machine) (work : Work) (out : Except Text Provisioned) :
    (m.collect work out).system = m.system := by
  unfold Machine.collect
  split <;> rfl

theorem tells_pass {m₀ : Machine} {event : Event} {p : Pass} (hadmits : Admits C ok m work)
    (hallows : Allows ok p m.system = true) (hmain : main event = true)
    (hidle : m.running work = none) (hsingle : Single m.system)
    (hstart : Under conf C m₀ event (m.start work p)) :
    Tells (Under conf C) m₀ [event] (after m work p) := by
  let out := p.interp answer m.system
  let mid : Machine := { m with system := out.2 }.start work (.done out.1)
  have hoperate : Tells (Under conf C) (m.start work p) [] mid :=
    tells_operate hadmits p hsingle hallows
  have hfinish : Under conf C mid (.finish work) ((mid.stop work).collect work out.1) :=
    ⟨.finish (update_self _ _ _), hadmits.finish mid⟩
  have hstop : mid.stop work = { m with system := out.2 } := by
    simp only [mid, Machine.stop, Machine.start, update_idem]
    rw [← hidle, update_eq_self]
  rw [hstop] at hfinish
  obtain ⟨events, hevents, hrun⟩ := hoperate
  refine ⟨[] ++ [event] ++ events ++ [.finish work], ?_, ?_⟩
  · have hother : main (.finish work) = false := rfl
    simp [hmain, hother, hevents]
  · exact ((Run.Trace.snoc .nil hstart).append hrun).snoc hfinish

/-! ### A launch with one disk -/

def plan (conf : VmId → Conf) (m : Machine) (v : VmId) : Machine :=
  let record := plannedRecord v (conf v).network (conf v).specs
  { m with system := m.system.putRecord (conf v).session record }

def attach (conf : VmId → Conf) (m : Machine) (v : VmId) (spec : DiskSpec) : Machine :=
  after (plan conf m v) (.vm v) (provision v (.disk 0 spec))

def launch (conf : VmId → Conf) (m : Machine) (v : VmId) (spec : DiskSpec) : Machine :=
  (after (attach conf m v spec) (.vm v) (provision v .compute)).disarm v

/-- A launch whose process is gone once the disk is there. -/
def crashed (conf : VmId → Conf) (m : Machine) (v : VmId) (spec : DiskSpec) : Machine :=
  ((attach conf m v spec).stop (.vm v)).forget (.vm v)

def closed (conf : VmId → Conf) (m : Machine) (v : VmId) : Machine :=
  after (m.detach v) (.vm v) (withoutDisks (cleanupRecord (conf v).session v))

def recovered (m : Machine) (sid : SessionId) : Machine :=
  after m (.session sid) (withoutDisks (recoverSession sid))

/-- Nothing is running, and every file is at the shared path. -/
def Quiet (m : Machine) : Prop := (∀ work, m.running work = none) ∧ Single m.system

theorem quiet_after (h : Quiet m) (work : Work) (p : Pass) : Quiet (after m work p) := by
  unfold after
  refine ⟨fun other => ?_, ?_⟩
  · rw [running_collect]
    exact h.1 other
  · rw [system_collect]
    exact single_interp p h.2

theorem created_collect {w : VmId} (hw : w ≠ v) (out : Except Text Provisioned) :
    (m.collect (.vm v) out).created w = m.created w := by
  cases out with
  | error e => rfl
  | ok out => exact update_of_ne hw _ _

theorem created_launch (h : ∀ w, m.created w = []) (spec : DiskSpec) (w : VmId) :
    (launch conf m v spec).created w = [] := by
  by_cases hw : w = v
  · rw [hw]
    exact update_self _ _ _
  · refine (update_of_ne hw _ _).trans ?_
    unfold after
    rw [created_collect hw]
    exact (created_collect hw _).trans (h w)

def publication (m : Machine) (v : VmId) : Machine := { m with system := m.system.publish v }

/-! ### Stories -/

def begun (conf : VmId → Conf) (m : Machine) : Event → Machine × Option (Work × Pass)
  | .plan v => (plan conf m v, none)
  | .provision v step => (m, some (.vm v, provision v step))
  | .disarm v => (m.disarm v, none)
  | .boot v => (m.boot v, none)
  | .publish v => (publication m v, none)
  | .close v => (m.detach v, some (.vm v, withoutDisks (cleanupRecord (conf v).session v)))
  | .recover sid => (m, some (.session sid, withoutDisks (recoverSession sid)))
  | .crash work => ((m.stop work).forget work, none)
  | _ => (m, none)

def perform (conf : VmId → Conf) (m : Machine) (event : Event) : Machine :=
  match begun conf m event with
  | (m', none) => m'
  | (m', some (work, p)) => after m' work p

/-- What an event asks for while nothing is running. -/
def Ready (conf : VmId → Conf) (m : Machine) : Event → Prop
  | .provision v step => step ∈ launchSteps (conf v).network (conf v).specs
  | .boot v | .close v => m.created v = []
  | .publish v => m.created v = [] ∧ (m.system.recordOf v).isSome
  | .plan _ | .disarm _ | .recover _ | .crash _ => True
  | _ => False

/-- Each event of the story can happen when its turn comes. -/
def Readies (conf : VmId → Conf) (C : Machine → Event → Prop) : Machine → List Event → Prop
  | _, [] => True
  | m, event :: story => Ready conf m event ∧ C m event ∧ Readies conf C (perform conf m event) story

section

variable {event : Event} (h : Quiet m)
include h

theorem quiet_perform (conf : VmId → Conf) (event : Event) : Quiet (perform conf m event) := by
  cases event with
  | provision v step | recover sid => exact quiet_after h _ _
  | publish v => exact ⟨h.1, single_publish h.2 v⟩
  | close v =>
    have hdetached : Quiet (m.detach v) := h
    exact quiet_after hdetached _ _
  | crash work =>
    have hstopped : Quiet (m.stop work) := by
      refine ⟨fun other => (update_apply _ work none other).trans ?_, h.2⟩
      rw [h.1, ite_self]
    cases work <;> exact hstopped
  | _ => exact h

theorem tells_perform (ok : Op → System → Bool) (hready : Ready conf m event) (hcond : C m event)
    (hpass : ∀ m' work p, begun conf m event = (m', some (work, p)) →
      Admits C ok m' work ∧ Allows ok p m'.system = true) :
    Tells (Under conf C) m [event] (perform conf m event) := by
  cases event with
  | plan v => exact .single rfl ⟨.plan (.inl ⟨rfl, rfl⟩), hcond⟩
  | provision v step =>
    obtain ⟨hadmits, hallows⟩ := hpass _ _ _ rfl
    exact tells_pass hadmits hallows rfl (h.1 _) h.2 ⟨.provision (h.1 _) hready, hcond⟩
  | disarm v => exact .single rfl ⟨.disarm (h.1 _), hcond⟩
  | boot v => exact .single rfl ⟨.boot (h.1 _) hready, hcond⟩
  | publish v => exact .single rfl ⟨.publish (h.1 _) hready.1 (.inl ⟨hready.2, rfl, rfl⟩), hcond⟩
  | close v =>
    obtain ⟨hadmits, hallows⟩ := hpass _ _ _ rfl
    exact tells_pass hadmits hallows rfl (h.1 _) h.2 ⟨.close (h.1 _) hready, hcond⟩
  | recover sid =>
    obtain ⟨hadmits, hallows⟩ := hpass _ _ _ rfl
    exact tells_pass hadmits hallows rfl (h.1 _) h.2 ⟨.recover (h.1 _), hcond⟩
  | crash work => exact .single rfl ⟨.crash, hcond⟩
  | _ => exact hready.elim

end

theorem tells_story (hadmits : ∀ m work, Admits C (fun _ _ => true) m work) {story : List Event}
    (h : Quiet m) (hready : Readies conf C m story) :
    Tells (Under conf C) m story (story.foldl (perform conf) m) := by
  induction story generalizing m with
  | nil => exact ⟨[], rfl, .nil⟩
  | cons event story ih =>
    have hfirst := tells_perform h (fun _ _ => true) hready.1 hready.2.1
      fun m' work p _ => ⟨hadmits m' work, allows_all p m'.system⟩
    exact hfirst.append (ih (quiet_perform h conf event) hready.2.2)

/-- Two VMs of two sessions, with the same disk path. -/
def first : VmId := 1
def second : VmId := 2

def ephemeral : DiskSpec := ⟨shared, .ephemeral, .reuseAndKeep⟩
def persistent : DiskSpec := ⟨shared, .persistent, .reuseAndKeep⟩

def sample (v : VmId) : Conf :=
  if v = first then ⟨10, none, [ephemeral]⟩ else ⟨20, none, [persistent]⟩

theorem quiet_empty : Quiet .empty := ⟨fun _ => rfl, fun _ h => absurd rfl h⟩

/-! ### One VM -/

def alone : Machine := launch sample .empty second persistent

theorem quiet_attached : Quiet (attach sample .empty second persistent) :=
  quiet_perform (quiet_perform quiet_empty sample (.plan second)) sample
    (.provision second (.disk 0 persistent))

theorem quiet_alone : Quiet alone :=
  quiet_perform (quiet_perform quiet_attached sample (.provision second .compute)) sample
    (.disarm second)

theorem alone_fair : (Event.publish second).Fair sample alone := by
  have hkeys : ∀ entry ∈ alone.system.records.entries, entry.1 = second ∧
      ∀ disk ∈ entry.2.record.disks, disk.effectiveRetention = .persistent := by
    decide +kernel
  intro record path file hrecord hfile hattaches
  obtain ⟨sid, hlookup⟩ := System.recordOf_eq_some.1 hrecord
  refine ⟨fun w other hw hother => ?_, fun disk hdisk _ => ?_, fun w => ?_, fun work hwork => ?_⟩
  · obtain ⟨_, hother⟩ := System.recordOf_eq_some.1 hother
    exact absurd (hkeys _ (AList.mem_lookup_iff.1 hother)).1 hw
  · exact (hkeys _ (AList.mem_lookup_iff.1 hlookup)).2 disk hdisk
  · rw [alone, created_launch (fun _ => rfl)]
    exact not_mem_nil
  · exact absurd (quiet_alone.1 work) hwork

/-- The disk of a VM that is published and closed is still there. -/
theorem closed_vm_keeps_disk :
    Tells (Fairly sample) .empty [.plan second, .provision second (.disk 0 persistent),
      .provision second .compute, .disarm second, .publish second, .close second]
      (closed sample (publication alone second) second) ∧
    ((closed sample (publication alone second) second).system.files shared).any (·.kept) = true ∧
    ∀ file ∈ (closed sample (publication alone second) second).system.deleted,
      file.kept = false := by
  have hrun : Tells (Fairly sample) .empty [.plan second, .provision second (.disk 0 persistent),
      .provision second .compute, .disarm second, .publish second, .close second]
      (closed sample (publication alone second) second) :=
    tells_story (fun _ _ => admits_fair) quiet_empty ⟨trivial, trivial, .head _, trivial,
      .tail _ (.head _), trivial, trivial, trivial, ⟨rfl, by decide +kernel⟩, alone_fair,
      rfl, trivial, trivial⟩
  refine ⟨hrun, by decide +kernel, ?_⟩
  obtain ⟨events, -, htrace⟩ := hrun
  exact persistent_disks_survive htrace

/-! ### A reused disk -/

def reused : Machine := launch sample (crashed sample .empty first ephemeral) second persistent

def ending : Machine := recovered (closed sample (publication reused second) second) 10

/-- The process of the first VM crashes during the launch.  The second VM finds its disk,
takes it over as a persistent one, is published and closed.  Then the first session is
recovered. -/
def story : List Event := [.plan first, .provision first (.disk 0 ephemeral), .crash (.vm first),
  .plan second, .provision second (.disk 0 persistent), .provision second .compute,
  .disarm second, .publish second, .close second, .recover 10]

theorem tells_ending : Tells (Next sample) .empty story ending := by
  have hadmits : ∀ m work, Admits (fun _ _ => True) (fun _ _ => true) m work :=
    fun _ _ => ⟨fun _ _ _ _ => trivial, fun _ => trivial⟩
  have hstory : Tells (Under sample fun _ _ => True) .empty story ending :=
    tells_story hadmits quiet_empty ⟨trivial, trivial, .head _, trivial, trivial, trivial,
      trivial, trivial, .head _, trivial, .tail _ (.head _), trivial, trivial, trivial,
      ⟨rfl, by decide +kernel⟩, trivial, rfl, trivial, trivial, trivial, trivial⟩
  exact hstory.mono fun _ _ _ h => h.1

/-- The recovery deletes the disk, although a published VM attached it as a persistent
one. -/
theorem reused_disk_deleted : ∃ m, Tells (Next sample) .empty story m ∧
    ∃ file ∈ m.system.deleted, file.kept = true := by
  have hdeleted : ending.system.deleted.any (·.kept) = true := by decide +kernel
  exact ⟨ending, tells_ending, by simpa using hdeleted⟩

end Calm

end Jyth.Hcs
