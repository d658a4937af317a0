import Jyth.Image.Flatten

/-!
# From TAR to CPIO

`convert` of `ops/cpio.rs`.  A first pass snapshots the headers and plans the
hard links; a second pass writes the records.  A hard link is not written where
it stands but behind its target, with the body left to the target's record.

    convert hash first second = do
      let headers ← first.mapM snapshotEntry
      let plan := planLinks hash headers
      second.foldlM (convertStep plan headers) …

The two passes read the file twice and are given separately here.  The order in
which a hash map is iterated is a parameter (`KeyOrder`).
-/

namespace Jyth.Image.Cpio

open Format Allot

/-! ## TAR members -/

inductive EntryType
  | regular | link | symlink | char | block | directory | fifo | continuous
  | gnuLongName | gnuLongLink | gnuSparse | xGlobalHeader | xHeader
  | other (flag : UInt8)
deriving DecidableEq

def EntryType.debug : EntryType → String
  | .regular => "Regular"
  | .link => "Link"
  | .symlink => "Symlink"
  | .char => "Char"
  | .block => "Block"
  | .directory => "Directory"
  | .fifo => "Fifo"
  | .continuous => "Continuous"
  | .gnuLongName => "GNULongName"
  | .gnuLongLink => "GNULongLink"
  | .gnuSparse => "GNUSparse"
  | .xGlobalHeader => "XGlobalHeader"
  | .xHeader => "XHeader"
  | .other flag => s!"__Nonexhaustive({flag})"

/-- A member as the `tar` crate delivers it: the parsed header and the reader of the body. -/
structure TarEntry where
  pathBytes : Bytes
  linkNameBytes : Option Bytes
  entryType : EntryType
  mode : UInt32
  uid : UInt64
  gid : UInt64
  mtime : UInt64
  size : UInt64
  deviceMajor : Option UInt32
  deviceMinor : Option UInt32
  reader : Source String

/-- What the conversion keeps of a TAR header. -/
structure TarHeaderSnapshot where
  path : Bytes
  linkName : Option Bytes
  symlinkTarget : Option Bytes
  entryType : EntryType
  mode : UInt32
  uid : UInt32
  gid : UInt32
  mtime : UInt32
  size : UInt64
  devMajor : Option UInt32
  devMinor : Option UInt32
deriving DecidableEq

/-- `std::str::from_utf8`; the path of a member has to be a string. -/
def checkUtf8 (bytes : Bytes) : Except Report Bytes :=
  if (fromUtf8? bytes).isSome then .ok bytes else .error ⟨.invalidTar, none⟩

/-- `u32::try_from` of a header field. -/
def fitU32 (field : String) (value : UInt64) : Except Report UInt32 :=
  if value.toNat < 2 ^ 32 then .ok (UInt32.ofNat value.toNat)
  else .error ⟨.invalidCpio, some s!"{field} {value} does not fit in newc u32"⟩

def snapshotLinkName (entry : TarEntry) : Except Report (Option Bytes) :=
  if entry.entryType = .link then
    match entry.linkNameBytes with
    | none => .error ⟨.invalidTar, some "hard link has no target"⟩
    | some rawLink => do
      let linkName ← checkUtf8 rawLink
      let linkName ← normalizePath linkName
      return some linkName
  else .ok none

def snapshotEntry (entry : TarEntry) : Except Report TarHeaderSnapshot := do
  let rawPath ← checkUtf8 entry.pathBytes
  let path ← normalizePath rawPath
  let linkName ← snapshotLinkName entry
  let symlinkTarget := if entry.entryType = .symlink then entry.linkNameBytes else none
  let uid ← fitU32 "uid" entry.uid
  let gid ← fitU32 "gid" entry.gid
  let mtime ← fitU32 "mtime" entry.mtime
  let isDevice := entry.entryType = .char ∨ entry.entryType = .block
  return { path, linkName, symlinkTarget, entryType := entry.entryType, mode := entry.mode, uid, gid,
           mtime, size := entry.size,
           devMajor := if isDevice then entry.deviceMajor else none,
           devMinor := if isDevice then entry.deviceMinor else none }

/-! ## Planning links -/

structure LinkId where
  dev : UInt32
  ino : UInt32
deriving DecidableEq

/-- Identities, link counts and links, from the first pass. -/
structure LinkPlan where
  identity : Table Bytes LinkId
  nlink : Table Bytes UInt32
  /-- The links to write behind each target. -/
  pending : PathMap (List Bytes)
  missing : List Bytes

namespace LinkPlan

def identityFor (plan : LinkPlan) (path : Bytes) : Option LinkId := plan.identity path

def nlinkFor (plan : LinkPlan) (path : Bytes) : UInt32 := (plan.nlink path).getD 1

end LinkPlan

/-- An order of the keys of a hash map. -/
structure KeyOrder where
  order : List Bytes → List Bytes
  perm : ∀ keys, (order keys).Perm keys

/-- The plan so far, the groups not yet planned, and the next identity to give. -/
structure LinkPlanner where
  plan : LinkPlan
  groups : PathMap (List Bytes)
  nextDev : UInt32
  nextIno : UInt32

def TarHeaderSnapshot.isHardLink (header : TarHeaderSnapshot) : Bool := header.entryType = .link

def collectLinks (headers : List TarHeaderSnapshot) : PathMap (List Bytes) :=
  headers.foldl (fun groups header =>
    if header.isHardLink then
      let target := header.linkName.getD []
      groups.insert target ((groups[target]?).getD [] ++ [header.path])
    else groups) ∅

namespace LinkPlanner

/-- The identity to give next. -/
def fresh (planner : LinkPlanner) : LinkId := ⟨planner.nextDev, planner.nextIno⟩

def advance (planner : LinkPlanner) : LinkPlanner :=
  { planner with
    nextDev := saturatingSucc planner.nextDev, nextIno := saturatingSucc planner.nextIno }

/-- The target and its links get one identity and one link count. -/
def planGroup (planner : LinkPlanner) (target : Bytes) (members : List Bytes) : LinkPlanner :=
  let groupNlink := 1 + UInt32.ofNat members.length
  { planner.advance with
    plan := { planner.plan with
      identity := (target :: members).foldl
        (fun identity path => identity.insert path planner.fresh) planner.plan.identity
      nlink := (target :: members).foldl
        (fun nlink path => nlink.insert path groupNlink) planner.plan.nlink
      pending := planner.plan.pending.insert target members } }

def planTarget (planner : LinkPlanner) (target : Bytes) : LinkPlanner :=
  match planner.groups[target]? with
  | some members => { planner with groups := planner.groups.erase target }.planGroup target members
  | none => planner

/-- A group whose target is no member of the archive. -/
def planMissing (planner : LinkPlanner) (target : Bytes) : LinkPlanner :=
  let planner := planner.planGroup target ((planner.groups[target]?).getD [])
  { planner with plan := { planner.plan with missing := planner.plan.missing ++ [target] } }

def planOther (planner : LinkPlanner) (header : TarHeaderSnapshot) : LinkPlanner :=
  if (planner.plan.identity header.path).isSome then planner
  else { planner.advance with
    plan := { planner.plan with
      identity := planner.plan.identity.insert header.path planner.fresh } }

end LinkPlanner

def knownTargets (headers : List TarHeaderSnapshot) : List Bytes :=
  (headers.filter fun header => !header.isHardLink).map TarHeaderSnapshot.path

def planLinks (hash : KeyOrder) (headers : List TarHeaderSnapshot) : LinkPlan :=
  let planner : LinkPlanner := ⟨⟨fun _ => none, fun _ => none, ∅, []⟩, collectLinks headers, 1, 1⟩
  let planner := (knownTargets headers).foldl LinkPlanner.planTarget planner
  let planner := (hash.order planner.groups.keys).foldl LinkPlanner.planMissing planner
  (headers.foldl LinkPlanner.planOther planner).plan

/-! ## Records -/

def unsupportedType (snapshot : TarHeaderSnapshot) : Report :=
  ⟨.unsupportedArtifact, some ("unsupported TAR entry type " ++ snapshot.entryType.debug ++ " for "
    ++ text snapshot.path)⟩

def deviceRdev (snapshot : TarHeaderSnapshot) : UInt32 × UInt32 :=
  (snapshot.devMajor.getD 0, snapshot.devMinor.getD 0)

def plannedIdentity (snapshot : TarHeaderSnapshot) : Option LinkId → Except Report LinkId
  | some id => .ok id
  | none => .error ⟨.invalidTar, some ("entry missing planned identity: " ++ text snapshot.path)⟩

/-- The mode with the type bits of the entry, and the body a record brings along. -/
def modeAndBody (snapshot : TarHeaderSnapshot) : Except Report (UInt32 × Body) :=
  let permBits := snapshot.mode &&& 0o7777
  match snapshot.entryType with
  | .regular | .continuous =>
    if 2 ^ 32 ≤ snapshot.size.toNat then
      .error ⟨.invalidCpio, some ("regular file " ++ text snapshot.path ++
        s!" exceeds u32 newc size limit: {snapshot.size} bytes")⟩
    else .ok (permBits ||| 0o100000, .empty)
  | .directory => .ok (permBits ||| 0o040000, .empty)
  | .symlink =>
    match snapshot.symlinkTarget with
    | some target => .ok (permBits ||| 0o120000, .owned target)
    | none => .error ⟨.invalidTar, some ("symlink " ++ text snapshot.path ++ " has no target")⟩
  | .link => .ok (permBits ||| 0o100000, .empty)
  | .char => .ok (permBits ||| 0o020000, .empty)
  | .block => .ok (permBits ||| 0o060000, .empty)
  | .fifo => .ok (permBits ||| 0o010000, .empty)
  | _ => .error (unsupportedType snapshot)

def buildRecord (snapshot : TarHeaderSnapshot) (identity : Option LinkId) (nlink : UInt32) :
    Except Report Record := do
  let id ← plannedIdentity snapshot identity
  failIf (snapshot.entryType = .xGlobalHeader ∨ snapshot.entryType = .xHeader)
    (unsupportedType snapshot)
  let rdev := if snapshot.entryType = .char ∨ snapshot.entryType = .block then deviceRdev snapshot
    else (0, 0)
  let (mode, body) ← modeAndBody snapshot
  return { name := snapshot.path, mode, uid := snapshot.uid, gid := snapshot.gid,
           mtime := snapshot.mtime, nlink, devMajor := id.dev, devMinor := 0, ino := id.ino,
           rdevMajor := rdev.1, rdevMinor := rdev.2, body }

/-! ## The second pass -/

/-- The variables of the second pass. -/
structure Progress where
  writer : TempWriter
  /-- The headers of the first pass not yet met again. -/
  planned : List TarHeaderSnapshot
  pending : PathMap (List Bytes)
  missing : List Bytes

def changedBetweenPasses (what : String) : Report :=
  ⟨.invalidTar, some ("tar " ++ what ++ " changed between passes")⟩

/-- `std::io::copy` into a sink: a body read to its end or to the first error. -/
def drain : Source String → Except Report Unit
  | [] => .ok ()
  | .data _ _ :: reader => drain reader
  | .fault err :: _ => .error ⟨.readSource, some err⟩

/-- The call of the writer for a member that is not a hard link. -/
def memberItem (plan : LinkPlan) (live : TarHeaderSnapshot) (reader : Source String) :
    Except Report Item := do
  let record ← buildRecord live (plan.identityFor live.path) (plan.nlinkFor live.path)
  if live.entryType = .regular ∨ live.entryType = .continuous then
    if 2 ^ 32 ≤ live.size.toNat then
      .error ⟨.invalidCpio, some ("regular file " ++ text live.path ++
        s!" exceeds u32 newc size limit: {live.size} bytes")⟩
    else return .streaming record (UInt32.ofNat live.size.toNat) reader
  else return .entry record

/-- The call of the writer for a link behind its target.  Where the source
expects the identity and the header of a planned link to be there, a failure is
an error here. -/
def deferredItem (plan : LinkPlan) (headers : List TarHeaderSnapshot) (linkPath : Bytes) :
    Except Report Item :=
  match headers.find? fun header => header.path = linkPath with
  | some snapshot =>
    Item.entry <$> buildRecord snapshot (plan.identityFor linkPath) (plan.nlinkFor linkPath)
  | none => .error ⟨.invalidTar, none⟩

def convertStep (plan : LinkPlan) (headers : List TarHeaderSnapshot) (progress : Progress)
    (entry : TarEntry) : Except Report Progress := do
  let live ← snapshotEntry entry
  match progress.planned with
  | [] => .error (changedBetweenPasses "entries")
  | planned :: rest =>
    failIf (planned.path ≠ live.path ∨ planned.entryType ≠ live.entryType)
      (changedBetweenPasses "contents")
    if live.isHardLink then
      drain entry.reader
      return { progress with planned := rest }
    else
      let item ← memberItem plan live entry.reader
      let writer ← writeItem progress.writer item
      match progress.pending[live.path]? with
      | none => return { progress with writer, planned := rest }
      | some deferred =>
        let writer ← deferred.foldlM (fun writer linkPath => do
          let item ← deferredItem plan headers linkPath
          writeItem writer item) writer
        return { writer, planned := rest, pending := progress.pending.erase live.path,
                 missing := progress.missing.filter fun missing => missing ≠ live.path }

def convert (hash : KeyOrder) (first second : List TarEntry) : Except Report TempWriter := do
  let headers ← first.mapM snapshotEntry
  let plan := planLinks hash headers
  let progress ← second.foldlM (convertStep plan headers) ⟨[], headers, plan.pending, plan.missing⟩
  failIf (progress.planned ≠ []) (changedBetweenPasses "entries")
  failIf (progress.pending.keys ≠ [] ∨ progress.missing ≠ [])
    ⟨.invalidTar, some ("hardlink target(s) not present in tar: " ++
      ", ".intercalate ((hash.order progress.pending.keys ++ progress.missing).map text))⟩
  writeTrailer progress.writer

end Jyth.Image.Cpio
