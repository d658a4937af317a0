import Jyth.Lib.Words

/-!
# The records of the runtime journal

`journal.rs` of `hypervisor-hcs`: what is recorded of a VM and its resources, when
a record is terminal, and the inventory of abandoned resources.  A host path is the
list of its UTF-16 code units; a text is its UTF-8 bytes.
-/

namespace Jyth.Hcs

open Format

abbrev Text := Bytes

abbrev VmId := BitVec 128

abbrev SessionId := BitVec 128

def uuidText (id : BitVec 128) : Text :=
  let hex := toHex 32 id.toNat
  hex.take 8 ++ utf8 "-" ++ (hex.drop 8).take 4 ++ utf8 "-" ++ (hex.drop 12).take 4 ++ utf8 "-" ++
    (hex.drop 16).take 4 ++ utf8 "-" ++ hex.drop 20

abbrev Path := List UInt16

namespace Path

def isHigh (u : UInt16) : Bool := 0xd800 ≤ u && u < 0xdc00

def isLow (u : UInt16) : Bool := 0xdc00 ≤ u && u < 0xe000

def encode (code : Nat) : Text := String.utf8EncodeChar (Char.ofNat code)

/-- The text of a path; an unpaired surrogate becomes the replacement character. -/
def lossy : Path → Text
  | [] => []
  | [u] => if isHigh u || isLow u then encode 0xfffd else encode u.toNat
  | u :: u' :: rest =>
    if isHigh u && isLow u' then
      encode (0x10000 + (u.toNat - 0xd800) * 0x400 + (u'.toNat - 0xdc00)) ++ lossy rest
    else if isHigh u || isLow u then encode 0xfffd ++ lossy (u' :: rest)
    else encode u.toNat ++ lossy (u' :: rest)

end Path

/-! ## Resources -/

inductive ResourceState
  | planned | created | removed | removalFailed | abandoned
deriving DecidableEq

inductive VmResourcePhase
  | planned | starting | published | cleanupPending | complete
deriving DecidableEq

structure FileIdentity where
  volumeSerial : UInt32
  fileId : UInt64
deriving DecidableEq

/-- Who created the disk file. -/
inductive DiskOrigin
  | createdByLaunch | preExisting
deriving DecidableEq

inductive DiskRetention
  | ephemeral | persistent
deriving DecidableEq

structure ComputeResource where
  id : Text
  state : ResourceState
deriving DecidableEq

structure NetworkResource where
  networkName : Text
  networkId : Option Text
  endpointName : Text
  endpointId : Option Text
  state : ResourceState
deriving DecidableEq

structure DiskResource where
  path : Path
  controller : UInt32
  lun : UInt32
  state : ResourceState
  origin : DiskOrigin
  requestedRetention : DiskRetention
  effectiveRetention : DiskRetention
  fileIdentity : Option FileIdentity
  initializationRequested : Bool
  initializationAcknowledged : Bool
  vmAceAdded : Bool
  published : Bool
deriving DecidableEq

/-- `VmResourceRecord`; the schema version is always 1 and left out. -/
structure VmResourceRecord where
  vmId : VmId
  phase : VmResourcePhase
  published : Bool
  computeSystem : ComputeResource
  network : Option NetworkResource
  disks : List DiskResource
  cleanupAttempts : UInt32
  lastError : Option Text
deriving DecidableEq

def ResourceState.terminal (state : ResourceState) : Bool := state = .removed || state = .abandoned

/-- A resource of a VM's record. -/
inductive Resource
  | computeSystem
  | network
  | disk (index : Nat)
deriving DecidableEq

inductive ResourceKind
  | computeSystem | network | disk
deriving DecidableEq

def Resource.kind : Resource → ResourceKind
  | .computeSystem => .computeSystem
  | .network => .network
  | .disk _ => .disk

def ResourceKind.text : ResourceKind → Text
  | .computeSystem => utf8 "compute_system"
  | .network => utf8 "network"
  | .disk => utf8 "disk"

/-- What cleanup calls the removal of a resource. -/
def ResourceKind.operation : ResourceKind → Text
  | .computeSystem | .disk => utf8 "remove"
  | .network => utf8 "delete"

namespace DiskResource

/-- An ephemeral disk, or one of a launch that never reached publication. -/
def deletable (disk : DiskResource) : Bool :=
  disk.effectiveRetention = .ephemeral || ! disk.published

/-- A removed disk carries no access rule of the VM any more. -/
def setState (disk : DiskResource) (state : ResourceState) : DiskResource :=
  { disk with
    state := state
    vmAceAdded := if state = .removed then false else disk.vmAceAdded }

end DiskResource

namespace VmResourceRecord

variable (record : VmResourceRecord)

def isComplete : Bool :=
  record.phase = .complete ||
    (record.computeSystem.state.terminal && record.network.all (·.state.terminal) &&
      record.disks.all (·.state.terminal))

/-- The resources of a record, in the order in which cleanup takes them. -/
def resources : List Resource :=
  .computeSystem :: .network :: (List.range record.disks.length).map .disk

def state : Resource → Option ResourceState
  | .computeSystem => some record.computeSystem.state
  | .network => record.network.map (·.state)
  | .disk index => record.disks[index]?.map (·.state)

/-- The identity by which errors and the inventory name a resource. -/
def identity : Resource → Option Text
  | .computeSystem => some record.computeSystem.id
  | .network => record.network.map fun n => n.networkName ++ utf8 "/" ++ n.endpointName
  | .disk index => record.disks[index]?.map (·.path.lossy)

def modifyDisk (index : Nat) (f : DiskResource → DiskResource) : VmResourceRecord :=
  { record with disks := record.disks.modify index f }

def setState (resource : Resource) (state : ResourceState) : VmResourceRecord :=
  match resource with
  | .computeSystem => { record with computeSystem := { record.computeSystem with state := state } }
  | .network => { record with network := record.network.map ({ · with state := state }) }
  | .disk index => record.modifyDisk index (·.setState state)

end VmResourceRecord

/-! ## The abandoned inventory -/

structure AbandonedResourceEntry where
  kind : ResourceKind
  identity : Text
  lastError : Text
  firstAbandonedAtUnixMs : UInt64
deriving DecidableEq

structure AbandonedRecord where
  vmId : VmId
  entries : List AbandonedResourceEntry
deriving DecidableEq

/-- An entry of the same kind and identity gets the new error and keeps its time. -/
def upsert (entry : AbandonedResourceEntry) : List AbandonedResourceEntry → List AbandonedResourceEntry
  | [] => [entry]
  | first :: rest =>
    if first.kind = entry.kind ∧ first.identity = entry.identity then
      { first with lastError := entry.lastError } :: rest
    else first :: upsert entry rest

/-! ## Terminal records -/

namespace VmResourceRecord

variable {record : VmResourceRecord}

theorem isComplete_iff : record.isComplete = true ↔ record.phase = .complete ∨
    ∀ resource s, record.state resource = some s → s = .removed ∨ s = .abandoned := by
  have hterminal : ∀ s : ResourceState, s.terminal = true ↔ s = .removed ∨ s = .abandoned := by
    intro s
    simp [ResourceState.terminal]
  simp only [isComplete, Bool.or_eq_true, Bool.and_eq_true, decide_eq_true_eq, Option.all_eq_true,
    List.all_eq_true, hterminal]
  refine or_congr_right ⟨?_, ?_⟩
  · rintro ⟨⟨hcompute, hnetwork⟩, hdisks⟩ resource s hs
    cases resource with
    | computeSystem => exact Option.some.inj hs ▸ hcompute
    | network =>
      obtain ⟨n, hn, rfl⟩ := Option.map_eq_some_iff.1 hs
      exact hnetwork n hn
    | disk index =>
      obtain ⟨disk, hdisk, rfl⟩ := Option.map_eq_some_iff.1 hs
      exact hdisks disk (List.mem_of_getElem? hdisk)
  · intro hall
    refine ⟨⟨hall .computeSystem _ rfl, fun n hn => hall .network _ ?_⟩, fun disk hdisk => ?_⟩
    · exact Option.map_eq_some_iff.2 ⟨n, hn, rfl⟩
    · obtain ⟨index, hindex⟩ := List.getElem?_of_mem hdisk
      exact hall (.disk index) _ (Option.map_eq_some_iff.2 ⟨disk, hindex, rfl⟩)

end VmResourceRecord

end Jyth.Hcs
