import Jyth.Hcs.Host

/-!
# The lifecycle of a VM

`vm.rs` of `hypervisor-hcs` as programs over journal and host: planning and
provisioning (`Vm::from_conf`), cleanup, the rollback of a failed launch and the
recovery of a stale session.  The asynchronous and the synchronous cleanup pass are
the same program.  Left out: the counters of the recovery summary, which only a log
line reads, and the handles a running VM passes to the removal of its own resources.
-/

namespace Jyth.Hcs

open Format Effect

abbrev M := Fallible Op Op.Ans Text

def perform (op : Op) : M op.Result := ExceptT.mk (Prog.call op)

def report (context : String) (attachment : Text) : Text := utf8 context ++ utf8 "; " ++ attachment

def missingRecord (v : VmId) : Text :=
  report "the durable HCS runtime journal failed"
    (utf8 "VM resource record " ++ uuidText v ++ utf8 " is missing")

/-! ## Removal of a disk -/

section RemoveDisk

def cleanupFailed (message : Text) : Text := report "journaled HCS resource cleanup failed" message

def refusing (path : Path) : Text :=
  cleanupFailed (utf8 "refusing to delete " ++ path.lossy ++ utf8 " without a recorded file identity")

def identityChanged (path : Path) : Text :=
  report "disk file identity changed since it was recorded"
    (utf8 "file identity changed before deleting " ++ path.lossy)

def removeFailed (path : Path) (error : Text) : Text :=
  cleanupFailed (utf8 "remove journaled disk " ++ path.lossy ++ utf8 ": " ++ error)

def revokeExisting (v : VmId) (path : Path) : M Unit := do
  let found ← perform (.pathExists path)
  if found then perform (.revokeAccess v path) else return ()

def revokeIfAdded (v : VmId) (disk : DiskResource) : M Unit :=
  if disk.vmAceAdded then revokeExisting v disk.path else return ()

def deleteFile (path : Path) : M Unit := do
  match ← attempt (perform (.removeFile path)) with
  | .ok _ => return ()
  | .error e => throw (removeFailed path e)

def deleteVerified (path : Path) (expected : FileIdentity) : M Unit := do
  let current ← perform (.fileIdentity path)
  if current ≠ expected then throw (identityChanged path) else deleteFile path

def deleteIdentified (path : Path) : Option FileIdentity → M Unit
  | none => throw (refusing path)
  | some expected => deleteVerified path expected

def deleteExisting (disk : DiskResource) : M Unit := do
  let found ← perform (.pathExists disk.path)
  if found then deleteIdentified disk.path disk.fileIdentity else return ()

def deleteOwned (disk : DiskResource) : M Unit :=
  if disk.origin = .preExisting ∨ ¬ disk.deletable then return () else deleteExisting disk

def removeDisk (v : VmId) (disk : DiskResource) : M Unit :=
  if disk.state = .planned then return ()
  else do
    revokeIfAdded v disk
    deleteOwned disk

end RemoveDisk

/-! ## Cleanup -/

section Cleanup

def maxCleanupAttempts : UInt32 := 3

def toLower (b : UInt8) : UInt8 := if 0x41 ≤ b && b ≤ 0x5a then b + 0x20 else b

def contains (needle : Text) : Text → Bool
  | [] => needle = []
  | b :: rest => needle.isPrefixOf (b :: rest) || contains needle rest

/-- An error is read as absence if its text has one of two HRESULTs in it. -/
def resourceIsAbsent (report : Text) : Bool :=
  contains (utf8 "0x80070490") (report.map toLower) ||
    contains (utf8 "0x80070002") (report.map toLower)

structure CleanupFailure where
  kind : ResourceKind
  identity : Text
  cause : Text
deriving DecidableEq

/-- The text persisted as `last_error`. -/
def CleanupFailure.message (failure : CleanupFailure) : Text :=
  utf8 "resource_kind=" ++ failure.kind.text ++ utf8 " operation=" ++ failure.kind.operation ++
    utf8 " resource_id=" ++ failure.identity ++ utf8 " cause=" ++ failure.cause

def failedRecord (resource : Resource) (failure : CleanupFailure) (record : VmResourceRecord) :
    VmResourceRecord :=
  { record.setState resource .removalFailed with lastError := some failure.message }

def markRemoved (v : VmId) (resource : Resource) : M (List CleanupFailure) := do
  perform (.updateVm v (·.setState resource .removed))
  return []

def markFailed (v : VmId) (resource : Resource) (failure : CleanupFailure) :
    M (List CleanupFailure) := do
  perform (.updateVm v (failedRecord resource failure))
  return [failure]

def applyResourceOutcome (v : VmId) (resource : Resource) (identity : Text)
    (result : Except Text Unit) : M (List CleanupFailure) :=
  match result with
  | .ok _ => markRemoved v resource
  | .error cause =>
    if resourceIsAbsent cause then markRemoved v resource
    else markFailed v resource ⟨resource.kind, identity, cause⟩

def removeResource (v : VmId) (record : VmResourceRecord) : Resource → M Unit
  | .computeSystem => perform (.removeComputeSystem v)
  | .network => perform (.deleteNetwork v)
  | .disk index => record.disks[index]?.elim (return ()) (removeDisk v)

def cleanupPresent (v : VmId) (record : VmResourceRecord) (resource : Resource) (identity : Text) :
    M (List CleanupFailure) := do
  let result ← attempt (removeResource v record resource)
  applyResourceOutcome v resource identity result

def cleanupResource (v : VmId) (record : VmResourceRecord) (resource : Resource) :
    M (List CleanupFailure) :=
  if record.state resource = some .removed then return []
  else (record.identity resource).elim (return []) (cleanupPresent v record resource)

def cleanupEach (v : VmId) (record : VmResourceRecord) : List Resource → M (List CleanupFailure)
  | [] => return []
  | resource :: rest => do
    let failures ← cleanupResource v record resource
    let others ← cleanupEach v record rest
    return failures ++ others

/-- What the inventory says of a resource that is given up. -/
def abandonedEntry (failures : List CleanupFailure) (now : UInt64) (kind : ResourceKind)
    (identity : Text) : AbandonedResourceEntry :=
  let lastError :=
    match failures.find? fun f => f.kind = kind ∧ f.identity = identity with
    | some failure => failure.message
    | none => utf8 "resource_kind=" ++ kind.text ++ utf8 " resource_id=" ++ identity ++
        utf8 " cause=cleanup attempts exhausted"
  ⟨kind, identity, lastError, now⟩

def remaining (failures : List CleanupFailure) (now : UInt64) (record : VmResourceRecord) :
    List AbandonedResourceEntry :=
  record.resources.filterMap fun resource =>
    if record.state resource = some .removed then none
    else (record.identity resource).map (abandonedEntry failures now resource.kind)

def abandonState (state : ResourceState) : ResourceState :=
  if state = .removed then .removed else .abandoned

def abandonedRecord (entries : List AbandonedResourceEntry) (record : VmResourceRecord) :
    VmResourceRecord :=
  { record with
    computeSystem := { record.computeSystem with state := abandonState record.computeSystem.state }
    network := record.network.map fun n => { n with state := abandonState n.state }
    disks := record.disks.map fun disk => { disk with state := abandonState disk.state }
    lastError := some (utf8 "abandoned after 3 cleanup attempts: " ++
      (utf8 "; ").intercalate (entries.map fun entry =>
        utf8 "resource_kind=" ++ entry.kind.text ++ utf8 " resource_id=" ++ entry.identity)) }

def entriesOf (row : Option AbandonedRecord) : List AbandonedResourceEntry :=
  row.elim [] (·.entries)

def putAbandoned (sid : SessionId) (row : AbandonedRecord) : M Unit := do
  let previous ← perform (.abandoned row.vmId)
  perform (.putAbandoned sid
    ⟨row.vmId, row.entries.foldl (fun entries entry => upsert entry entries) (entriesOf previous)⟩)

def abandonRemaining (sid : SessionId) (v : VmId) (record : VmResourceRecord)
    (failures : List CleanupFailure) : M Unit := do
  let now ← perform .unixTimeMs
  let existing ← perform (.abandoned v)
  let entries := remaining failures now record
  putAbandoned sid
    ⟨v, entries.foldl (fun entries entry => upsert entry entries) (entriesOf existing)⟩
  perform (.updateVm v (abandonedRecord entries))

def beginCleanup (record : VmResourceRecord) : VmResourceRecord :=
  { record with
    phase := .cleanupPending
    cleanupAttempts :=
      if record.cleanupAttempts = 0xffffffff then record.cleanupAttempts
      else record.cleanupAttempts + 1
    lastError := none }

def completed (record : VmResourceRecord) : VmResourceRecord :=
  { record with phase := .complete, lastError := none }

def finishCleanup (v : VmId) : M Unit := do
  perform (.updateVm v completed)
  perform (.removeVm v)
  perform (.removeAbandoned v)

def orMissing (v : VmId) (record : Option VmResourceRecord) : M VmResourceRecord :=
  record.elim (throw (missingRecord v)) pure

def readRecord (v : VmId) : M VmResourceRecord := do
  let record ← perform (.vm v)
  orMissing v record

def giveUp (sid : SessionId) (v : VmId) (failures : List CleanupFailure) : M Unit := do
  let record ← readRecord v
  if maxCleanupAttempts ≤ record.cleanupAttempts then abandonRemaining sid v record failures
  else throw (cleanupFailed ((utf8 "; ").intercalate (failures.map (·.cause))))

def cleanupRecord (sid : SessionId) (v : VmId) : M Unit := do
  perform (.updateVm v beginCleanup)
  let record ← readRecord v
  let failures ← cleanupEach v record record.resources
  if failures = [] then finishCleanup v else giveUp sid v failures

end Cleanup

/-! ## Recovery -/

section Recovery

def recoverRecord (sid : SessionId) (record : VmResourceRecord) : M Unit :=
  if record.isComplete then perform (.removeVm record.vmId)
  else do
    let _ ← attempt (cleanupRecord sid record.vmId)

def recoverEach (sid : SessionId) : List VmResourceRecord → M Unit
  | [] => return ()
  | record :: rest => do
    recoverRecord sid record
    recoverEach sid rest

def recoverSession (sid : SessionId) : M Unit := do
  let records ← perform (.allVms sid)
  recoverEach sid records
  let left ← perform (.allVms sid)
  let retainsInventory ← perform (.hasAbandoned sid)
  if left.all (·.isComplete) && ! retainsInventory then perform (.removeSession sid) else return ()

end Recovery

/-! ## Rollback of a launch -/

section Rollback

def dropVerified (path : Path) (expected : FileIdentity) (actual : Except Text FileIdentity) :
    M Unit :=
  if actual = .ok expected then do
    let _ ← attempt (perform (.removeFile path))
  else return ()

def dropIdentified (path : Path) (expected : FileIdentity) : M Unit := do
  let actual ← attempt (perform (.fileIdentity path))
  dropVerified path expected actual

def dropDisk (path : Path) (expected : FileIdentity) : M Unit := do
  let found ← perform (.pathExists path)
  if found then dropIdentified path expected else return ()

def dropDisks : List (Path × FileIdentity) → M Unit
  | [] => return ()
  | (path, expected) :: rest => do
    dropDisk path expected
    dropDisks rest

/-- `ProvisioningGuard::drop` with the disks the launch created. -/
def rollback (sid : SessionId) (v : VmId) (created : List (Path × FileIdentity)) : M Unit := do
  let _ ← attempt (cleanupRecord sid v)
  dropDisks created

end Rollback

/-! ## Provisioning -/

section Provision

inductive ExistingDiskPolicy
  | reuseAndKeep | error
deriving DecidableEq

/-- A disk specification; `hostPath` is normalized. -/
structure DiskSpec where
  hostPath : Path
  retention : DiskRetention
  onExisting : ExistingDiskPolicy
deriving DecidableEq

def scsiLunsPerController : Nat := 64

def plannedDisk (index : Nat) (spec : DiskSpec) : DiskResource where
  path := spec.hostPath
  controller := UInt32.ofNat (index / scsiLunsPerController)
  lun := UInt32.ofNat (index % scsiLunsPerController)
  state := .planned
  origin := .createdByLaunch
  requestedRetention := spec.retention
  effectiveRetention := spec.retention
  fileIdentity := none
  initializationRequested := false
  initializationAcknowledged := false
  vmAceAdded := false
  published := false

/-- The intent journaled before any side effect; `network` is the planned id of a NIC. -/
def plannedRecord (v : VmId) (network : Option (BitVec 128)) (specs : List DiskSpec) :
    VmResourceRecord where
  vmId := v
  phase := .planned
  published := false
  computeSystem := ⟨uuidText v, .planned⟩
  network := network.map fun id => ⟨utf8 "jyth-nat-" ++ uuidText v, some (uuidText id),
    utf8 "jyth-ep-" ++ uuidText v, none, .planned⟩
  disks := specs.mapIdx plannedDisk
  cleanupAttempts := 0
  lastError := none

def setNetworkId (id : Text) (record : VmResourceRecord) : VmResourceRecord :=
  { record with network := record.network.map ({ · with networkId := some id }) }

def setEndpointId (id : Text) (record : VmResourceRecord) : VmResourceRecord :=
  { record with network := record.network.map ({ · with endpointId := some id, state := .created }) }

/-- A failed step of the network's creation takes back what was created. -/
def orRollback {α : Type} (v : VmId) (p : M α) : M α := do
  match ← attempt p with
  | .ok a => return a
  | .error e => do
    perform (.rollbackNetwork v)
    throw e

/-- `create_network_and_endpoint_with_callbacks`. -/
def provisionNetwork (v : VmId) (networkId : BitVec 128) : M Unit := do
  orRollback v (perform (.createNetwork v))
  orRollback v (perform (.updateVm v (setNetworkId (uuidText networkId))))
  let endpointId ← orRollback v (perform (.createEndpoint v))
  orRollback v (perform (.updateVm v (setEndpointId endpointId)))

/-- What is done about a disk file. -/
inductive DiskMaterialization
  | create | reuse | reuseAndReclassify | rejectExisting
deriving DecidableEq

def classifyDisk (found : Bool) (retention : DiskRetention) (onExisting : ExistingDiskPolicy) :
    DiskMaterialization :=
  if ! found then .create
  else
    match retention, onExisting with
    | _, .error => .rejectExisting
    | .ephemeral, .reuseAndKeep => .reuseAndReclassify
    | .persistent, .reuseAndKeep => .reuse

def createFailed (path : Path) (e : Text) : Text :=
  report "failed to create the disk backing file" (utf8 "New-VHD for " ++ path.lossy ++ utf8 ": " ++ e)

/-- If the creation fails and there is a file now, it counts as an existing one. -/
def reclassify (spec : DiskSpec) (e : Text) : M DiskMaterialization := do
  let found ← perform (.pathExists spec.hostPath)
  if found then return classifyDisk true spec.retention spec.onExisting
  else throw (createFailed spec.hostPath e)

def createDisk (v : VmId) (spec : DiskSpec) : M DiskMaterialization := do
  match ← attempt (perform (.createVhdx v spec.hostPath)) with
  | .ok _ => return .create
  | .error e => reclassify spec e

def chooseMaterialization (v : VmId) (spec : DiskSpec) : M DiskMaterialization := do
  let found ← perform (.pathExists spec.hostPath)
  let classification := classifyDisk found spec.retention spec.onExisting
  if classification = .create then createDisk v spec else return classification

structure Materialized where
  origin : DiskOrigin
  effectiveRetention : DiskRetention
  initialization : Bool

def pathTaken (path : Path) : Text :=
  report "disk path already exists and the policy rejects reuse"
    (utf8 "disk path already exists and ExistingDiskPolicy::Error was selected: " ++ path.lossy)

def reuseDisk (path : Path) : M Materialized := do
  perform (.validateVhdx path)
  return ⟨.preExisting, .persistent, false⟩

def settleDisk (spec : DiskSpec) : DiskMaterialization → M Materialized
  | .create => return ⟨.createdByLaunch, spec.retention, true⟩
  | .reuse => reuseDisk spec.hostPath
  | .reuseAndReclassify => reuseDisk spec.hostPath
  | .rejectExisting => throw (pathTaken spec.hostPath)

def plannedPathChanged (spec : DiskSpec) (planned : DiskResource) : Text :=
  report "invalid disk path, mount, or size" (utf8 "planned disk path " ++ planned.path.lossy ++
    utf8 " no longer matches the spec path " ++ spec.hostPath.lossy)

def materializeFile (v : VmId) (spec : DiskSpec) (planned : DiskResource) :
    M (Materialized × FileIdentity) := do
  if spec.hostPath ≠ planned.path then throw (plannedPathChanged spec planned)
  else do
    perform (.claimPath spec.hostPath)
    let classification ← chooseMaterialization v spec
    let materialized ← settleDisk spec classification
    let identity ← perform (.fileIdentity spec.hostPath)
    return (materialized, identity)

def materializedDisk (materialized : Materialized) (identity : FileIdentity)
    (disk : DiskResource) : DiskResource :=
  { disk with
    state := .created
    origin := materialized.origin
    effectiveRetention := materialized.effectiveRetention
    initializationRequested := materialized.initialization
    fileIdentity := some identity }

def journalDisk (v : VmId) (index : Nat) (path : Path) (materialized : Materialized)
    (identity : FileIdentity) : M Unit := do
  perform (.updateVm v (·.modifyDisk index (materializedDisk materialized identity)))
  perform (.grantAccess v path)
  perform (.updateVm v (·.modifyDisk index ({ · with vmAceAdded := true })))

def missingPlan (v : VmId) (index : Nat) : Text :=
  report "the durable HCS runtime journal failed" (utf8 "disk plan entry " ++
    utf8 (toString index) ++ utf8 " for VM " ++ uuidText v ++ utf8 " is missing")

def provisioningPlannedDisk (v : VmId) (index : Nat) : M DiskResource := do
  let record ← perform (.vm v)
  (record.bind (·.disks[index]?)).elim (throw (missingPlan v index)) pure

def prepareDisk (v : VmId) (index : Nat) (spec : DiskSpec) : M (Materialized × FileIdentity) := do
  let planned ← provisioningPlannedDisk v index
  materializeFile v spec planned

/-- The disks a step created, whether it succeeds or not, and its outcome. -/
abbrev Provisioned := List (Path × FileIdentity) × Except Text Unit

def createdBy (spec : DiskSpec) (materialized : Materialized) (identity : FileIdentity) :
    List (Path × FileIdentity) :=
  if materialized.origin = .createdByLaunch then [(spec.hostPath, identity)] else []

def journalPrepared (v : VmId) (index : Nat) (spec : DiskSpec)
    (prepared : Except Text (Materialized × FileIdentity)) : M Provisioned :=
  match prepared with
  | .error e => return ([], .error e)
  | .ok (materialized, identity) => do
    let result ← attempt (journalDisk v index spec.hostPath materialized identity)
    return (createdBy spec materialized identity, result)

def provisionDisk (v : VmId) (index : Nat) (spec : DiskSpec) : M Provisioned := do
  let prepared ← attempt (prepareDisk v index spec)
  journalPrepared v index spec prepared

def startingRecord (record : VmResourceRecord) : VmResourceRecord :=
  { record with
    computeSystem := { record.computeSystem with state := .created }
    phase := .starting }

def provisionCompute (v : VmId) : M Unit := do
  perform (.createComputeSystem v)
  perform (.updateVm v startingRecord)

/-- The steps of `Vm::from_conf` after the intent is journaled. -/
inductive Step
  | network (networkId : BitVec 128)
  | disk (index : Nat) (spec : DiskSpec)
  | compute

def withoutDisks (p : M Unit) : M Provisioned := do
  let result ← attempt p
  return ([], result)

def provision (v : VmId) : Step → M Provisioned
  | .network networkId => withoutDisks (provisionNetwork v networkId)
  | .disk index spec => provisionDisk v index spec
  | .compute => withoutDisks (provisionCompute v)

def launchSteps (network : Option (BitVec 128)) (specs : List DiskSpec) : List Step :=
  (network.map Step.network).toList ++ specs.mapIdx Step.disk ++ [.compute]

def markPublished (v : VmId) : M Unit := perform (.publishVm v)

end Provision

end Jyth.Hcs
