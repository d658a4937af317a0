import Jyth.Hcs.Histories

/-!
# Files that were there before

A launch must neither delete nor initialize a file it did not create.  The histories
are those of `Histories`; a file is *found* when a launch sees it at a disk path whose
lock it has just taken, and *foreign* if it was found or no launch created it.

The code keeps this only if nobody interferes (`Undisturbed`): a file that a launch
finds must not be one that another VM still claims or is about to initialize, and while
a pass works on a path, no other party may put a file there, since identity and file
are not looked at in one step.

    Sound .foreign conf m    cleanup has no claim on a foreign file
    Owned conf m             the disks a launch is about to initialize are its own
-/

namespace Jyth.Hcs

open Format Effect List Option Function Jyth.Hcs.System Triple

/-- If there is a file at `path`, the launch of `v` created it and no launch found it. -/
def Own (s : System) (path : Path) (v : VmId) : Prop :=
  ∀ file, s.files path = some file → file.maker = some v ∧ file.found = false

/-! ## The condition -/

/-- No pass but that of `work` works on `path`, and no launch is about to initialize a
disk there. -/
structure Unused (conf : VmId → Conf) (m : Machine) (work : Option Work) (path : Path) : Prop where
  attached : ∀ v, path ∉ m.attached v
  running : ∀ other, some other ≠ work → m.running other ≠ none → ¬ other.paths conf path

/-- No record and no launch has the file on its list. -/
structure Unclaimed (m : Machine) (path : Path) (identity : FileIdentity) : Prop where
  records : ∀ w record, m.system.recordOf w = some record → ¬ record.Claims path identity
  created : ∀ w, (path, identity) ∉ m.created w

/-- The condition on an operation: a launch finds a file only if nobody has a claim on
it, and creates one only at a path nobody else uses. -/
def Op.Undisturbed (conf : VmId → Conf) (m : Machine) (work : Work) : Op → Prop
  | .claimPath path => ∀ file, m.system.files path = some file →
      Unused conf m (some work) path ∧ Unclaimed m path file.identity
  | .createVhdx _ path => Unused conf m (some work) path
  | _ => True

/-- The condition on an event: besides, others put files only at paths that nobody
uses, and not with an identity that somebody has recorded for the path. -/
def Event.Undisturbed (conf : VmId → Conf) (m : Machine) : Event → Prop
  | .operate work => ∀ op next, m.running work = some (.step op next) →
      op.Undisturbed conf m work
  | .appear path identity => Unused conf m none path ∧ Unclaimed m path identity
  | _ => True

/-- A step of the machine with an event that disturbs nobody. -/
abbrev Calmly (conf : VmId → Conf) (m : Machine) (event : Event) (m' : Machine) : Prop :=
  Next conf m event m' ∧ event.Undisturbed conf m

/-! ## Deletion -/

section

variable {conf : VmId → Conf} {m m' : Machine} {s s' : System} {v : VmId} {work : Work}
variable {path p : Path} {identity : FileIdentity}

/-- A change at one path only, where there is a file with this identity afterwards. -/
structure Touches (path : Path) (identity : FileIdentity) (s s' : System) : Prop where
  records : s'.records = s.records
  deleted : s'.deleted = s.deleted
  others : ∀ p, p ≠ path → s'.files p = s.files p
  identity : ∀ file, s'.files path = some file → file.identity = identity

theorem touches_putFile (file : File) : Touches path file.identity s (s.putFile path file) where
  records := rfl
  deleted := rfl
  others p hp := (Table.insert_apply _ _ _ _).trans (if_neg hp)
  identity other hother := by
    replace hother := (Table.insert_apply _ _ _ _).symm.trans hother
    rw [if_pos rfl] at hother
    cases hother
    rfl

theorem Touches.unmarked {μ : Mark} {i : FileIdentity} (h : Touches path identity s s')
    (hne : ¬ (p = path ∧ i = identity)) (hs : Unmarked μ s p i) : Unmarked μ s' p i := by
  intro file hfile hid
  by_cases hp : p = path
  · subst hp
    exact absurd ⟨rfl, hid.symm.trans (h.identity file hfile)⟩ hne
  · exact hs file (h.others p hp ▸ hfile) hid

theorem Sound.touch {μ : Mark} (h : Sound μ conf m) (htouch : Touches path identity m.system s')
    (hunused : ∀ other, m.running other ≠ none → ¬ other.paths conf path)
    (hunclaimed : Unclaimed m path identity) : Sound μ conf { m with system := s' } := by
  have horderly : Orderly μ conf s' := by
    intro w entry hentry
    rw [htouch.records] at hentry
    have hfiled := h.orderly w entry hentry
    refine { hfiled with unmarked := fun p i hclaim => ?_ }
    refine htouch.unmarked ?_ (hfiled.unmarked p i hclaim)
    rintro ⟨rfl, rfl⟩
    exact hunclaimed.records w _ (recordOf_eq_some.2 ⟨_, hentry⟩) hclaim
  refine h.change horderly (fun w disk hdisk => ?_) (fun other p hp => ⟨horderly, ?_⟩) ?_
  · refine htouch.unmarked ?_ (h.created w disk hdisk).2
    rintro ⟨hpath, hidentity⟩
    exact hunclaimed.created w (hpath ▸ hidentity ▸ hdisk)
  · intro q hq i hs
    refine htouch.unmarked ?_ hs
    rintro ⟨rfl, -⟩
    exact hunused other (by rw [hp]; nofun) hq
  · rw [htouch.deleted]
    exact h.deleted

theorem Sound.findFile {μ : Mark} (h : Sound μ conf m)
    (hcond : ∀ file, m.system.files path = some file →
      (∀ other, m.running other ≠ none → ¬ other.paths conf path) ∧
        Unclaimed m path file.identity) :
    Sound μ conf { m with system := m.system.findFile path } := by
  unfold System.findFile
  split
  · next file hfile =>
    obtain ⟨hunused, hunclaimed⟩ := hcond file hfile
    have htouch : Touches path file.identity m.system
        (m.system.putFile path { file with found := true }) :=
      touches_putFile { file with found := true }
    exact h.touch htouch hunused hunclaimed
  · exact h

theorem Unused.stopped (h : Unused conf m (some work) path) (other : Work)
    (hrun : (m.stop work).running other ≠ none) : ¬ other.paths conf path := by
  by_cases hsame : other = work
  · subst hsame
    exact absurd (update_self _ _ _) hrun
  · refine h.running other (fun heq => hsame (some.inj heq)) fun hnone => hrun ?_
    exact (update_of_ne hsame _ _).trans hnone

theorem Sound.publish_foreign (h : Sound .foreign conf m) {r : Except Text Unit}
    (hop : world (.publishVm v) m.system r s') : Sound .foreign conf { m with system := s' } := by
  rcases hop with ⟨hsome, -, rfl⟩ | ⟨-, rfl⟩
  swap
  · exact h.spares h.orderly.refl
  obtain ⟨record, hrecord⟩ := isSome_iff_exists.1 hsome
  have hset := h.orderly.published hrecord
  have hkeep : Spares .foreign conf (m.system.setRecord v (published record))
      ((m.system.setRecord v (published record)).keepFiles record) := by
    refine hset.orderly.spares (fun _ _ => id) (fun p i hs file hfile hid => ?_) rfl
    obtain ⟨old, hold, rfl⟩ := map_eq_some_iff.1 hfile
    exact hs old hold hid
  rw [System.publish, hrecord]
  exact (h.spares hset).spares hkeep

theorem Sound.next_calm {event : Event} (h : Sound .foreign conf m)
    (hnext : Calmly conf m event m') : Sound .foreign conf m' := by
  obtain ⟨hnext, hcond⟩ := hnext
  cases event with
  | publish v =>
    cases hnext with
    | publish hidle hdisarmed hop => exact h.publish_foreign hop
  | operate work =>
    cases hnext with
    | @operate _ op _ _ _ hrun hop =>
      by_cases hclaim : ∃ path, op = .claimPath path
      · obtain ⟨path, rfl⟩ := hclaim
        refine Sound.operate hrun hop h ?_
        rcases hop with ⟨-, rfl⟩ | ⟨-, rfl⟩
        · refine (h.stop work).findFile fun file hfile => ?_
          obtain ⟨hunused, hunclaimed⟩ := hcond _ _ hrun file hfile
          exact ⟨hunused.stopped, ⟨hunclaimed.records, hunclaimed.created⟩⟩
        · exact h.stop work
      · exact h.behave hrun hop fun path heq => hclaim ⟨path, heq⟩
  | appear path identity =>
    cases hnext with
    | appear hfree hfresh =>
      exact h.touch (touches_putFile _) (fun other => hcond.1.running other nofun) hcond.2
  | _ => exact h.next_common hnext nofun nofun nofun

end

/-! ## Initialization -/

/-- `s'` has some of the files of `s`, apart from their access rules and retention. -/
def Inherits (s s' : System) : Prop :=
  ∀ p file', s'.files p = some file' → ∃ file, s.files p = some file ∧
    file'.maker = file.maker ∧ file'.found = file.found

namespace Inherits

variable {s s' t : System} {α : Type}

theorem of_files (h : s'.files = s.files) : Inherits s s' :=
  fun _ file' hfile => ⟨file', h ▸ hfile, rfl, rfl⟩

theorem own {p : Path} {v : VmId} (h : Inherits s s') (hs : Own s p v) : Own s' p v := by
  intro file' hfile'
  obtain ⟨file, hfile, hmaker, hfound⟩ := h p file' hfile'
  rw [hmaker, hfound]
  exact hs file hfile

theorem commits {a : α} {r : Except Text α} (h : Commits s a t r s') (ht : Inherits s t) :
    Inherits s s' := by
  rcases h with ⟨-, rfl⟩ | ⟨-, rfl⟩
  · exact ht
  · exact of_files rfl

theorem affects {T : System → Prop} {r : Except Text α} (h : Affects s T r s')
    (hT : ∀ t, T t → Inherits s t) : Inherits s s' := by
  rcases h with ⟨-, ht⟩ | ⟨-, rfl | ht⟩
  · exact hT _ ht
  · exact of_files rfl
  · exact hT _ ht

theorem setAces (path : Path) (f : List VmId → List VmId) : Inherits s (setAces s path f) := by
  unfold Hcs.setAces
  split
  · next old hold =>
    intro p file hfile
    replace hfile := (Table.insert_apply _ _ _ _).symm.trans hfile
    split at hfile
    · next hp =>
      cases hfile
      exact ⟨old, hp ▸ hold, rfl, rfl⟩
    · exact ⟨file, hfile, rfl, rfl⟩
  · exact of_files rfl

theorem remove (path : Path) : Inherits s { s with files := s.files.remove path } := by
  intro p file hfile
  replace hfile := (Table.remove_apply _ _ _).symm.trans hfile
  split at hfile
  · cases hfile
  · exact ⟨file, hfile, rfl, rfl⟩

theorem deleteFile (path : Path) : Inherits s (s.deleteFile path) := by
  unfold System.deleteFile
  split
  · exact remove path
  · exact of_files rfl

theorem publish (v : VmId) : Inherits s (s.publish v) := by
  unfold System.publish
  split
  · next record _ =>
    intro p file hfile
    obtain ⟨old, hold, rfl⟩ := map_eq_some_iff.1 hfile
    exact ⟨old, (files_setRecord s v _).1 ▸ hold, rfl, rfl⟩
  · exact of_files rfl

end Inherits

/-- The operations that neither create a file nor find one. -/
def Op.Plain : Op → Prop
  | .claimPath _ | .createVhdx _ _ => False
  | _ => True

theorem Op.Plain.inherits {op : Op} {s s' : System} {r : op.Ans} (h : op.Plain)
    (hop : world op s r s') : Inherits s s' := by
  cases op with
  | claimPath path => exact h.elim
  | createVhdx v path => exact h.elim
  | updateVm v update =>
    rcases hop with ⟨record, -, -, rfl⟩ | ⟨-, rfl⟩
    · exact .of_files (files_setRecord s v _).1
    · exact .of_files rfl
  | publishVm v =>
    rcases hop with ⟨-, -, rfl⟩ | ⟨-, rfl⟩
    · exact .publish v
    · exact .of_files rfl
  | removeVm v => exact .commits hop (.of_files (fewer_removeRecord s v).files)
  | removeSession sid => exact .commits hop (.of_files (fewer_removeSession s sid).files)
  | unixTimeMs => exact .of_files (congrArg files hop.2)
  | createNetwork v | createEndpoint v | createComputeSystem v | removeComputeSystem v =>
    have hop : Affects s (fun t => t = _) r s' := hop
    exact .affects hop fun t ht => .of_files (ht ▸ rfl)
  | rollbackNetwork v =>
    obtain ⟨-, _, _, -, -, rfl⟩ := hop
    exact .of_files rfl
  | deleteNetwork v =>
    obtain ⟨⟨_, _, -, -, rfl⟩, -⟩ := hop
    exact .of_files rfl
  | pathExists path => exact .of_files (congrArg files hop.2)
  | fileIdentity path => exact .of_files (congrArg files hop.1)
  | grantAccess v path => exact .commits hop (.setAces path _)
  | revokeAccess v path => exact .commits hop (.setAces path _)
  | removeFile path => exact .commits hop (.deleteFile path)
  | _ => exact .commits hop (.of_files rfl)

/-- What a launch expects of others: at its paths they neither find nor put a file. -/
def Respects (paths : List Path) (s s' : System) : Prop :=
  ∀ p ∈ paths, ∀ v, Own s p v → Own s' p v

/-- A pass that says nothing about its own operations. -/
abbrev Tends (paths : List Path) {α : Type} (I : System → Prop) (p : M α)
    (Q : α → System → Prop) : Prop :=
  Triple world (Respects paths) (fun _ _ _ => True) I p Q fun _ _ => True

/-- The disks a step created are the launch's own. -/
def Yielded (paths : List Path) (v : VmId) (out : Provisioned) (s : System) : Prop :=
  ∀ disk ∈ out.1, disk.1 ∈ paths ∧ Own s disk.1 v

section

variable {conf : VmId → Conf} {m m' : Machine} {s s' : System} {v : VmId} {work : Work}
variable {path : Path} {paths : List Path} {α : Type}

theorem tends_any {I : System → Prop} (p : M α) : Tends paths I p fun _ _ => True := by
  intro s hs
  clear hs
  induction p generalizing s with
  | done r => cases r <;> trivial
  | step op next ih => exact fun s₁ _ r s' _ => ⟨trivial, ih r s'⟩

theorem tends_withoutDisks (p : M Unit) :
    Tends paths (fun _ => True) (withoutDisks p) (Yielded paths v) := by
  unfold withoutDisks
  refine bind (P := fun _ _ => True) (attempt (tends_any p)) fun result => ?_
  exact pure fun _ _ _ hdisk => (not_mem_nil hdisk).elim

theorem only_journalDisk {index : Nat} {m : Materialized} {identity : FileIdentity} :
    Only Op.Plain (journalDisk v index path m identity) :=
  Only.bind ⟨trivial, fun _ => trivial⟩ fun _ =>
    Only.bind ⟨trivial, fun _ => trivial⟩ fun _ => ⟨trivial, fun _ => trivial⟩

theorem tends_provisionDisk {index : Nat} {spec : DiskSpec} (hpath : spec.hostPath ∈ paths) :
    Tends paths (fun _ => True) (provisionDisk v index spec) (Yielded paths v) := by
  have hstable : Stable (Respects paths) (Own · spec.hostPath v) :=
    fun _ _ hR => hR spec.hostPath hpath v
  have hfresh : ∀ s s', Appears spec.hostPath (some v) s s' → Own s' spec.hostPath v := by
    rintro s _ ⟨-, identity, -, rfl⟩ file hfile
    replace hfile := (Table.insert_apply _ _ _ _).symm.trans hfile
    rw [if_pos rfl] at hfile
    cases hfile
    exact ⟨rfl, rfl⟩
  unfold provisionDisk
  refine bind (triple_prepareDisk (fun _ _ _ _ _ _ _ _ => trivial) hstable hfresh index)
    fun prepared => ?_
  cases prepared with
  | error e => exact pure fun _ _ _ hdisk => (not_mem_nil hdisk).elim
  | ok out =>
    obtain ⟨m, identity⟩ := out
    have hjournal : Triple world (Respects paths) (fun _ _ _ => True)
        (fun s => m.origin = .createdByLaunch → Own s spec.hostPath v)
        (journalDisk v index spec.hostPath m identity)
        (fun _ s => m.origin = .createdByLaunch → Own s spec.hostPath v)
        fun _ s => m.origin = .createdByLaunch → Own s spec.hostPath v :=
      only_journalDisk.triple (.imp fun _ => hstable) fun op hop _ s r s' _ hworld =>
        ⟨trivial, fun hs horigin => (hop.inherits hworld).own (hs horigin)⟩
    refine bind (P := fun _ s => m.origin = .createdByLaunch → Own s spec.hostPath v)
      (attempt (hjournal.pre fun s hs => hs _ rfl)) fun result => ?_
    refine pure fun s hs disk hdisk => ?_
    obtain ⟨rfl, horigin⟩ := createdBy_path hdisk
    exact ⟨hpath, hs horigin⟩

theorem tends_provision {step : Step} (hstep : step ∈ launchSteps (conf v).network (conf v).specs) :
    Tends (conf v).paths (fun _ => True) (provision v step) (Yielded (conf v).paths v) := by
  cases step with
  | network networkId => exact tends_withoutDisks _
  | compute => exact tends_withoutDisks _
  | disk index spec =>
    exact tends_provisionDisk (mem_of_getElem? (disk_of_mem_launchSteps hstep))

/-! ### The invariant -/

/-- A pass that ends with disks of its own VM, if others respect its paths. -/
abbrev Attends (conf : VmId → Conf) (v : VmId) (p : Pass) (s : System) : Prop :=
  Obeys world (Respects (conf v).paths) (fun _ _ _ => True)
    (Post (Yielded (conf v).paths v) fun _ _ => True) p s

/-- Attached disks are the VM's own, and what was initialized was made by its launch. -/
structure Owned (conf : VmId → Conf) (m : Machine) : Prop where
  attached : ∀ v, ∀ path ∈ m.attached v, Own m.system path v
  running : ∀ v p, m.running (.vm v) = some p → Attends conf v p m.system
  initialized : ∀ entry ∈ m.initialized, entry.2.maker = some entry.1 ∧ entry.2.found = false

theorem Attends.respects {p : Pass} (h : Attends conf v p s)
    (hR : Respects (conf v).paths s s') : Attends conf v p s' := by
  refine Obeys.stable (R := Respects (conf v).paths) ?_ ?_ hR h
  · exact fun _ _ _ h h' q hq w hs => h' q hq w (h q hq w hs)
  · intro out s s' hR hs
    cases out with
    | ok out => exact fun disk hdisk => ⟨(hs disk hdisk).1, hR _ (hs disk hdisk).1 v (hs disk hdisk).2⟩
    | error e => trivial

namespace Owned

section

variable (h : Owned conf m)
include h

theorem change (hattached : ∀ v, ∀ path ∈ m.attached v, Own m.system path v → Own s' path v)
    (hrunning : ∀ v, m.running (.vm v) ≠ none → Respects (conf v).paths m.system s') :
    Owned conf { m with system := s' } where
  attached v path hpath := hattached v path hpath (h.attached v path hpath)
  running v p hp := (h.running v p hp).respects (hrunning v (by rw [hp]; nofun))
  initialized := h.initialized

theorem inherits (hs : Inherits m.system s') : Owned conf { m with system := s' } :=
  h.change (fun _ _ _ => hs.own) fun _ _ _ _ _ => hs.own

theorem elsewhere (hother : ∀ p, p ≠ path → s'.files p = m.system.files p)
    (hattached : ∀ v, path ∉ m.attached v)
    (hunused : ∀ other, m.running other ≠ none → ¬ other.paths conf path) :
    Owned conf { m with system := s' } := by
  have hown : ∀ p v, p ≠ path → Own m.system p v → Own s' p v := by
    intro p v hp hs file hfile
    exact hs file (hother p hp ▸ hfile)
  refine h.change (fun v p hp => hown p v ?_) fun v hrun p hp w => hown p w ?_
  · rintro rfl
    exact hattached v hp
  · rintro rfl
    exact hunused (.vm v) hrun hp

theorem start {p : Pass} (hp : ∀ v, work = .vm v → Attends conf v p m.system) :
    Owned conf (m.start work p) := by
  refine { h with running := fun v p' hp' => ?_ }
  replace hp' := (update_apply m.running work (some p) (.vm v)).symm.trans hp'
  split at hp'
  · next hsame =>
    cases hp'
    exact hp v hsame.symm
  · exact h.running v p' hp'

theorem stop (work : Work) : Owned conf (m.stop work) := by
  refine { h with running := fun v p' hp' => ?_ }
  replace hp' := (update_apply m.running work none (.vm v)).symm.trans hp'
  split at hp'
  · cases hp'
  · exact h.running v p' hp'

theorem setAttached {disks : List Path} (hdisks : ∀ path ∈ disks, Own m.system path v) :
    Owned conf { m with attached := Function.update m.attached v disks } := by
  refine { h with attached := fun w path hpath => ?_ }
  by_cases hw : w = v
  · subst hw
    exact hdisks path ((update_self w disks m.attached) ▸ hpath)
  · exact h.attached w path ((update_of_ne hw disks m.attached) ▸ hpath)

theorem detach (v : VmId) : Owned conf (m.detach v) :=
  h.setAttached fun _ hpath => (not_mem_nil hpath).elim

end

theorem operate {op : Op} {next : op.Ans → Pass} {r : op.Ans}
    (hrun : m.running work = some (.step op next)) (hop : world op m.system r s')
    (h : Owned conf m) (hrest : Owned conf { m.stop work with system := s' }) :
    Owned conf ({ m with system := s' }.start work (next r)) := by
  have hstart : Owned conf ({ m.stop work with system := s' }.start work (next r)) := by
    refine hrest.start fun v hv => ?_
    subst hv
    exact (h.running v _ hrun m.system (fun _ _ _ => id) r s' hop).2
  simpa only [Machine.start, Machine.stop, update_idem] using hstart

theorem collect (h : Owned conf m) {out : Except Text Provisioned}
    (hended : ∀ v, work = .vm v → Post (Yielded (conf v).paths v) (fun _ _ => True) out m.system) :
    Owned conf (m.collect work out) := by
  cases work with
  | session sid => exact h
  | vm v =>
    cases out with
    | error e => exact h
    | ok out =>
      have hdisks : ∀ path ∈ m.attached v ++ out.1.map (·.1), Own m.system path v := by
        intro path hpath
        rcases mem_append.1 hpath with hold | hnew
        · exact h.attached v path hold
        · obtain ⟨disk, hdisk, rfl⟩ := mem_map.1 hnew
          exact (hended v rfl disk hdisk).2
      exact { h.setAttached hdisks with }

theorem boot (h : Owned conf m) (v : VmId) : Owned conf (m.boot v) := by
  let sent := (m.attached v).filterMap fun path => (m.system.files path).map (v, ·)
  suffices hsent : Owned conf { m with initialized := sent ++ m.initialized } from hsent.detach v
  refine { h with initialized := fun entry hentry => ?_ }
  rcases mem_append.1 hentry with hnew | hold
  · obtain ⟨path, hpath, heq⟩ := mem_filterMap.1 hnew
    obtain ⟨file, hfile, rfl⟩ := map_eq_some_iff.1 heq
    exact h.attached v path hpath file hfile
  · exact h.initialized entry hold

theorem next {event : Event} (h : Owned conf m) (hnext : Calmly conf m event m') :
    Owned conf m' := by
  obtain ⟨hnext, hcond⟩ := hnext
  have hpass : ∀ (p : M Unit) (v w : VmId), Work.vm v = .vm w →
      Attends conf w (withoutDisks p) m.system := by
    rintro p v w ⟨⟩
    exact tends_withoutDisks p _ trivial
  cases hnext with
  | plan hop => exact h.inherits (.commits hop (.of_files rfl))
  | provision hidle hstep =>
    refine h.start ?_
    rintro _ ⟨⟩
    exact tends_provision hstep _ trivial
  | @rollback v =>
    have hstart := (h.start (hpass (rollback (conf v).session v (m.created v)) v)).detach v
    exact { hstart with }
  | disarm hidle => exact { h with }
  | boot hidle hdisarmed => exact h.boot _
  | @publish v _ _ hidle hdisarmed hop =>
    have hplain : (Op.publishVm v).Plain := trivial
    exact h.inherits (hplain.inherits hop)
  | @close v hidle hdisarmed => exact (h.detach v).start (hpass _ v)
  | recover hidle => exact h.start nofun
  | @operate work op _ _ _ hrun hop =>
    refine operate hrun hop h ?_
    have hop' := hcond op _ hrun
    by_cases hplain : op.Plain
    · exact (h.stop work).inherits (hplain.inherits hop)
    cases op with
    | claimPath path =>
      rcases hop with ⟨-, rfl⟩ | ⟨-, rfl⟩
      · unfold findFile
        split
        · next file hfile =>
          obtain ⟨hunused, -⟩ := hop' file hfile
          exact (h.stop work).elsewhere (touches_putFile _).others hunused.attached hunused.stopped
        · exact h.stop work
      · exact h.stop work
    | createVhdx v path =>
      have happears : ∀ t, Appears path (some v) m.system t →
          Owned conf { m.stop work with system := t } := by
        rintro t ⟨-, identity, -, rfl⟩
        exact (h.stop work).elsewhere (touches_putFile _).others hop'.attached hop'.stopped
      have hop : Affects m.system (Appears path (some v) m.system) _ _ := hop
      rcases hop with ⟨-, ht⟩ | ⟨-, rfl | ht⟩
      · exact happears _ ht
      · exact h.stop work
      · exact happears _ ht
    | _ => exact absurd trivial hplain
  | @finish work out hrun =>
    refine (h.stop work).collect ?_
    rintro v rfl
    exact h.running v _ hrun
  | @crash work =>
    cases work with
    | vm v =>
      have hdetached := (h.stop (.vm v)).detach v
      exact { hdetached with }
    | session sid => exact h.stop (.session sid)
  | appear hfree hfresh =>
    exact h.elsewhere (touches_putFile _).others hcond.1.attached
      fun other => hcond.1.running other nofun
  | vanish => exact h.inherits (.remove _)

end Owned

end

/-- If nobody interferes, no file that a launch found, and none that no launch created,
is ever deleted, and a file sent with `initialize = true` was created by the launch of
the VM that is booted and is no file another launch found. -/
theorem foreign_files_safe {conf : VmId → Conf} {events : List Event} {m : Machine}
    (h : Run.Trace (Calmly conf) .empty events m) :
    (∀ file ∈ m.system.deleted, file.found = false ∧ file.maker ≠ none) ∧
      ∀ entry ∈ m.initialized, entry.2.maker = some entry.1 ∧ entry.2.found = false := by
  have hsound : Sound .foreign conf m ∧ Owned conf m := by
    refine h.invariant (I := fun _ m => Sound .foreign conf m ∧ Owned conf m) ?_ ?_
    · refine ⟨sound_empty, fun v path hpath => ?_, fun v p hp => ?_, fun entry hentry => ?_⟩
      · exact (not_mem_nil hpath).elim
      · cases hp
      · exact (not_mem_nil hentry).elim
    · exact fun _ _ _ _ hs hnext => ⟨hs.1.next_calm hnext, hs.2.next hnext⟩
  refine ⟨fun file hfile => ?_, hsound.2.initialized⟩
  have hflag : (file.found || file.maker.isNone) = false := hsound.1.deleted file hfile
  obtain ⟨hfound, hmaker⟩ := Bool.or_eq_false_iff.1 hflag
  exact ⟨hfound, isNone_eq_false_iff.1 hmaker |> isSome_iff_ne_none.1⟩

namespace Calm

/-- The disk that the second VM found is deleted by the recovery of the first one's
session. -/
theorem found_disk_deleted : ∃ m, Tells (Next sample) .empty story m ∧
    ∃ file ∈ m.system.deleted, file.found = true := by
  have hdeleted : ending.system.deleted.any (·.found) = true := by decide +kernel
  exact ⟨ending, tells_ending, by simpa using hdeleted⟩

/-! ### One VM -/

def plain : Op → System → Bool
  | .claimPath _, _ | .createVhdx _ _, _ => false
  | _, _ => true

/-- A lock may be taken at a free path. -/
def careful : Op → System → Bool
  | .claimPath path, s => (s.files path).isNone
  | _, _ => true

section

variable {conf : VmId → Conf} {m : Machine} {work : Work}

theorem admits_of_undisturbed {ok : Op → System → Bool} (h : ∀ s op next, ok op s = true →
      op.Undisturbed conf ({ m with system := s }.start work (.step op next)) work) :
    Admits (fun m event => event.Undisturbed conf m) ok m work where
  operate s op next hok op' next' hrun := by
    cases (update_self _ _ _).symm.trans hrun
    exact h s op next hok
  finish _ := trivial

theorem admits_plain : Admits (fun m event => event.Undisturbed conf m) plain m work := by
  refine admits_of_undisturbed fun s op next hok => ?_
  cases op with
  | claimPath path => cases hok
  | createVhdx v path => cases hok
  | _ => trivial

theorem admits_careful (hidle : ∀ other, m.running other = none)
    (hattached : ∀ v, m.attached v = []) :
    Admits (fun m event => event.Undisturbed conf m) careful m work := by
  refine admits_of_undisturbed fun s op next hok => ?_
  cases op with
  | claimPath path =>
    intro file hfile
    have hnone : s.files path = none := isNone_iff_eq_none.1 hok
    cases hfile.symm.trans hnone
  | createVhdx v path =>
    refine ⟨fun w => ?_, fun other hother hrun => absurd ?_ hrun⟩
    · exact (hattached w).symm ▸ not_mem_nil
    · have hne : other ≠ work := fun heq => hother (congrArg some heq)
      exact (update_of_ne hne _ _).trans (hidle other)
  | _ => trivial

end

def booted : Machine := closed sample (alone.boot second) second

/-- A VM initializes the disk it created and, closed before its publication, deletes
it. -/
theorem booted_vm_owns_disk :
    Tells (Calmly sample) .empty [.plan second, .provision second (.disk 0 persistent),
      .provision second .compute, .disarm second, .boot second, .close second] booted ∧
    booted.initialized.length = 1 ∧ booted.system.deleted.length = 1 ∧
    (∀ file ∈ booted.system.deleted, file.found = false ∧ file.maker ≠ none) ∧
      ∀ entry ∈ booted.initialized, entry.2.maker = some entry.1 ∧ entry.2.found = false := by
  have hplan : Quiet (plan sample .empty second) := quiet_empty
  let before := attach sample .empty second persistent
  have hcompute : Quiet (perform sample before (.provision second .compute)) :=
    quiet_perform quiet_attached sample _
  have hboot : Quiet (alone.boot second) := quiet_alone
  have hfirst : Tells (Calmly sample) .empty [.plan second] (plan sample .empty second) :=
    .single rfl ⟨.plan (.inl ⟨rfl, rfl⟩), trivial⟩
  have hsecond : Tells (Calmly sample) (plan sample .empty second)
      [.provision second (.disk 0 persistent)] (attach sample .empty second persistent) := by
    refine tells_perform hplan careful (.head _) trivial fun _ _ _ hbegun => ?_
    cases hbegun
    exact ⟨admits_careful hplan.1 fun _ => rfl, by decide +kernel⟩
  have hthird : Tells (Calmly sample) before [.provision second .compute]
      (perform sample before (.provision second .compute)) := by
    refine tells_perform quiet_attached plain (.tail _ (.head _)) trivial fun _ _ _ hbegun => ?_
    cases hbegun
    exact ⟨admits_plain, by decide +kernel⟩
  have hfourth : Tells (Calmly sample) _ [.disarm second] alone :=
    .single rfl ⟨.disarm (hcompute.1 _), trivial⟩
  have hfifth : Tells (Calmly sample) alone [.boot second] (alone.boot second) :=
    .single rfl ⟨.boot (quiet_alone.1 _) rfl, trivial⟩
  have hlast : Tells (Calmly sample) (alone.boot second) [.close second] booted := by
    refine tells_perform hboot plain rfl trivial fun _ _ _ hbegun => ?_
    cases hbegun
    exact ⟨admits_plain, by decide +kernel⟩
  have hlaunch := hfirst.append (hsecond.append (hthird.append hfourth))
  have hrun := hlaunch.append (hfifth.append hlast)
  refine ⟨hrun, by decide +kernel, by decide +kernel, ?_⟩
  obtain ⟨events, -, htrace⟩ := hrun
  exact foreign_files_safe htrace

end Calm

end Jyth.Hcs
