import Jyth.Hcs.Journal
import Jyth.Lib.Effect
import Jyth.Lib.Table

/-!
# Journal and host

The state a VM's lifecycle works on: the databases of all sessions, and the host's
compute systems, networks, endpoints and disk files.  An operation may fail or do
more than it reports; what it can do is a relation (`world`).

A VM's id is unique, so its record is found by the id, whichever session's database
holds it, and its compute system, network and endpoint are named by it.  Two parts of
the state are not on the host and only serve to state properties: who made a file,
whether it is to be kept and whether a launch found it (`File`), and the files deleted
by cleanup (`deleted`).
-/

namespace Jyth.Hcs

open Format Effect

structure File where
  identity : FileIdentity
  /-- The VM whose launch created it. -/
  maker : Option VmId
  /-- A VM that attached it with effective retention `Persistent` was published. -/
  kept : Bool
  /-- A launch saw it at a disk path when it had taken the path's lock. -/
  found : Bool
  /-- The VMs with an access rule of their own. -/
  aces : List VmId
deriving DecidableEq

structure Entry where
  session : SessionId
  record : VmResourceRecord
deriving DecidableEq

structure Row where
  session : SessionId
  record : AbandonedRecord
deriving DecidableEq

/-- The journal, the resources of the host and its files. -/
structure System where
  records : AList fun _ : VmId => Entry
  abandoned : AList fun _ : VmId => Row
  compute : VmId → Bool
  network : VmId → Bool
  endpoint : VmId → Bool
  files : Table Path File
  deleted : List File

namespace System

def empty : System := ⟨∅, ∅, fun _ => false, fun _ => false, fun _ => false, fun _ => none, []⟩

variable (s : System)

def recordOf (v : VmId) : Option VmResourceRecord := (s.records.lookup v).map (·.record)

def putRecord (sid : SessionId) (record : VmResourceRecord) : System :=
  { s with records := s.records.insert record.vmId ⟨sid, record⟩ }

def setRecord (v : VmId) (record : VmResourceRecord) : System :=
  match s.records.lookup v with
  | some entry => { s with records := s.records.insert v { entry with record := record } }
  | none => s

def removeRecord (v : VmId) : System := { s with records := s.records.erase v }

def putRow (sid : SessionId) (record : AbandonedRecord) : System :=
  { s with abandoned := s.abandoned.insert record.vmId ⟨sid, record⟩ }

def removeRow (v : VmId) : System := { s with abandoned := s.abandoned.erase v }

def members (sid : SessionId) : List VmId :=
  (s.records.entries.filter fun entry => entry.2.session = sid).map (·.1)

def recordsOf (sid : SessionId) : List VmResourceRecord :=
  (s.records.entries.filter fun entry => entry.2.session = sid).map (·.2.record)

def hasAbandoned (sid : SessionId) : Bool :=
  s.abandoned.entries.any fun row => row.2.session = sid

def removeSession (sid : SessionId) : System :=
  let rows := (s.abandoned.entries.filter fun row => row.2.session = sid).map (·.1)
  rows.foldl removeRow ((s.members sid).foldl removeRecord s)

/-- Publication: every disk of the record is published, and the files it attached
with effective retention `Persistent` are to be kept. -/
def published (record : VmResourceRecord) : VmResourceRecord :=
  { record with
    phase := .published
    published := true
    lastError := none
    disks := record.disks.map fun disk =>
      { disk with
        published := true
        initializationAcknowledged :=
          disk.initializationRequested || disk.initializationAcknowledged } }

def attaches (record : VmResourceRecord) (path : Path) (file : File) : Bool :=
  record.disks.any fun disk =>
    disk.path = path && disk.effectiveRetention = .persistent &&
      disk.fileIdentity = some file.identity

def keepFiles (record : VmResourceRecord) : System :=
  { s with files := fun path => (s.files path).map fun file =>
      { file with kept := file.kept || attaches record path file } }

def publish (v : VmId) : System :=
  match s.recordOf v with
  | some record => (s.setRecord v (published record)).keepFiles record
  | none => s

def putFile (path : Path) (file : File) : System := { s with files := s.files.insert path file }

def deleteFile (path : Path) : System :=
  match s.files path with
  | some file => { s with files := s.files.remove path, deleted := file :: s.deleted }
  | none => s

def findFile (path : Path) : System :=
  match s.files path with
  | some file => s.putFile path { file with found := true }
  | none => s

/-- No file has the identity. -/
def Fresh (identity : FileIdentity) : Prop :=
  ∀ path file, s.files path = some file → file.identity ≠ identity

end System

/-! ## Operations -/

/-- The calls of the lifecycle code to the journal and the host. -/
inductive Op
  | putVm (sid : SessionId) (record : VmResourceRecord)
  | updateVm (v : VmId) (update : VmResourceRecord → VmResourceRecord)
  | publishVm (v : VmId)
  | vm (v : VmId)
  | allVms (sid : SessionId)
  | removeVm (v : VmId)
  | abandoned (v : VmId)
  | putAbandoned (sid : SessionId) (record : AbandonedRecord)
  | removeAbandoned (v : VmId)
  | hasAbandoned (sid : SessionId)
  | removeSession (sid : SessionId)
  | unixTimeMs
  | createNetwork (v : VmId)
  /-- Answers the endpoint's id. -/
  | createEndpoint (v : VmId)
  | rollbackNetwork (v : VmId)
  | deleteNetwork (v : VmId)
  | createComputeSystem (v : VmId)
  | removeComputeSystem (v : VmId)
  | pathExists (path : Path)
  /-- The path's lock is taken, and the path and its parent are checked. -/
  | claimPath (path : Path)
  | createVhdx (v : VmId) (path : Path)
  | validateVhdx (path : Path)
  | fileIdentity (path : Path)
  | grantAccess (v : VmId) (path : Path)
  | revokeAccess (v : VmId) (path : Path)
  /-- Answers whether there was a file. -/
  | removeFile (path : Path)

@[reducible] def Op.Result : Op → Type
  | putVm _ _ => Unit
  | updateVm _ _ => Unit
  | publishVm _ => Unit
  | vm _ => Option VmResourceRecord
  | allVms _ => List VmResourceRecord
  | removeVm _ => Unit
  | abandoned _ => Option AbandonedRecord
  | putAbandoned _ _ => Unit
  | removeAbandoned _ => Unit
  | hasAbandoned _ => Bool
  | removeSession _ => Unit
  | unixTimeMs => UInt64
  | createNetwork _ => Unit
  | createEndpoint _ => Text
  | rollbackNetwork _ => Unit
  | deleteNetwork _ => Unit
  | createComputeSystem _ => Unit
  | removeComputeSystem _ => Unit
  | pathExists _ => Bool
  | claimPath _ => Unit
  | createVhdx _ _ => Unit
  | validateVhdx _ => Unit
  | fileIdentity _ => FileIdentity
  | grantAccess _ _ => Unit
  | revokeAccess _ _ => Unit
  | removeFile _ => Bool

/-- An error is the text of its report, attachments included. -/
abbrev Op.Ans (op : Op) : Type := Except Text op.Result

section World

variable {α : Type}

/-- The operation answers `a` and leads to `t`, or fails and changes nothing. -/
def Commits (s : System) (a : α) (t : System) (r : Except Text α) (s' : System) : Prop :=
  r = .ok a ∧ s' = t ∨ (∃ e, r = .error e) ∧ s' = s

/-- The operation leads to a state in `T`; if it fails, it may have had this effect
all the same. -/
def Affects (s : System) (T : System → Prop) (r : Except Text α) (s' : System) : Prop :=
  (∃ a, r = .ok a) ∧ T s' ∨ (∃ e, r = .error e) ∧ (s' = s ∨ T s')

/-- A file may appear at a free path, with an identity no existing file has. -/
def Appears (path : Path) (maker : Option VmId) (s s' : System) : Prop :=
  s.files path = none ∧ ∃ identity, s.Fresh identity ∧
    s' = s.putFile path ⟨identity, maker, false, false, []⟩

def setAces (s : System) (path : Path) (f : List VmId → List VmId) : System :=
  match s.files path with
  | some file => s.putFile path { file with aces := f file.aces }
  | none => s

/-- The network and the endpoint of the VM may be gone. -/
def NetworkFades (v : VmId) (s s' : System) : Prop :=
  ∃ network endpoint, (network = true → s.network v = true) ∧ (endpoint = true → s.endpoint v = true) ∧
    s' = { s with
      network := Function.update s.network v network
      endpoint := Function.update s.endpoint v endpoint }

/-- What an operation may do; files of other programs come and go between operations. -/
def world : World System Op Op.Ans
  | .putVm sid record, s, r, s' => Commits s () (s.putRecord sid record) r s'
  | .updateVm v update, s, r, s' =>
    (∃ record, s.recordOf v = some record ∧ r = .ok () ∧ s' = s.setRecord v (update record)) ∨
      (∃ e, r = .error e) ∧ s' = s
  | .publishVm v, s, r, s' =>
    (s.recordOf v).isSome ∧ r = .ok () ∧ s' = s.publish v ∨ (∃ e, r = .error e) ∧ s' = s
  | .vm v, s, r, s' => Commits s (s.recordOf v) s r s'
  | .allVms sid, s, r, s' => Commits s (s.recordsOf sid) s r s'
  | .removeVm v, s, r, s' => Commits s () (s.removeRecord v) r s'
  | .abandoned v, s, r, s' => Commits s ((s.abandoned.lookup v).map (·.record)) s r s'
  | .putAbandoned sid record, s, r, s' => Commits s () (s.putRow sid record) r s'
  | .removeAbandoned v, s, r, s' => Commits s () (s.removeRow v) r s'
  | .hasAbandoned sid, s, r, s' => Commits s (s.hasAbandoned sid) s r s'
  | .removeSession sid, s, r, s' => Commits s () (s.removeSession sid) r s'
  | .unixTimeMs, s, r, s' => (∃ t, r = .ok t) ∧ s' = s
  | .createNetwork v, s, r, s' =>
    Affects s (fun t => t = { s with network := Function.update s.network v true }) r s'
  | .createEndpoint v, s, r, s' =>
    Affects s (fun t => t = { s with endpoint := Function.update s.endpoint v true }) r s'
  | .rollbackNetwork v, s, r, s' => r = .ok () ∧ NetworkFades v s s'
  | .deleteNetwork v, s, r, s' =>
    NetworkFades v s s' ∧ (r = .ok () → s'.network v = false ∧ s'.endpoint v = false)
  | .createComputeSystem v, s, r, s' =>
    Affects s (fun t => t = { s with compute := Function.update s.compute v true }) r s'
  | .removeComputeSystem v, s, r, s' =>
    Affects s (fun t => t = { s with compute := Function.update s.compute v false }) r s'
  | .pathExists path, s, r, s' => r = .ok (s.files path).isSome ∧ s' = s
  | .claimPath path, s, r, s' => Commits s () (s.findFile path) r s'
  | .createVhdx v path, s, r, s' =>
    -- a failed `New-VHD` may leave the file behind
    Affects s (Appears path (some v) s) r s'
  | .validateVhdx _, s, r, s' => Commits s () s r s'
  | .fileIdentity path, s, r, s' =>
    s' = s ∧ ((∃ file, s.files path = some file ∧ r = .ok file.identity) ∨ ∃ e, r = .error e)
  | .grantAccess v path, s, r, s' => Commits s () (setAces s path fun aces => v :: aces) r s'
  | .revokeAccess v path, s, r, s' => Commits s () (setAces s path (·.filter (· ≠ v))) r s'
  | .removeFile path, s, r, s' => Commits s (s.files path).isSome (s.deleteFile path) r s'

end World

end Jyth.Hcs
