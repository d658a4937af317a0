import Jyth.Boot.Overlay
import Jyth.Lib.Effect

/-!
# The derived rootfs cache

`boot-image/src/cache.rs` and `prepare_inner` of `boot-image/src/assembly.rs`:
an image is written to a temporary sibling and renamed to `<key>.cpio`; a record
`<key>.json` follows.  A later call takes the image if the record, the size, the
digest and the structure of the archive agree.

The files of the cache directory change by single operations, each of which may
fail, and a call may be cut off between any two of them.

    atomicWrite path bytes: at every point path holds what it held, nothing, or all
      of bytes; on success bytes; other files stay                 (safe_atomicWrite)
    prepareBootArtifacts keeps: <key>.cpio is the image of the key  (safe_prepare)
-/

namespace Jyth.Boot

open Effect Format Jyth.Image List Function

/-! ## File-system operations -/

/-- `io::ErrorKind`, as far as the code looks at it. -/
inductive IoError
  | notFound | alreadyExists | permissionDenied | invalidData | other
deriving DecidableEq

structure Metadata where
  isFile : Bool
  len : UInt64
deriving DecidableEq

/-- Names are those of files in the cache directory.  `readHost` and `buildInit`
are about the inputs of a call, which lie outside it. -/
inductive FsOp
  | createDirAll
  | metadata (name : Bytes)
  | openFile (name : Bytes)
  | read (name : Bytes)
  | createNew (name : Bytes)
  | writeAll (name bytes : Bytes)
  | syncAll (name : Bytes)
  | rename (source target : Bytes)
  | removeFile (name : Bytes)
  | readHost (content : Bytes)
  | buildInit (binary : Bytes)

def FsOp.Ans : FsOp → Type
  | .metadata _ => Except IoError Metadata
  | .read _ => Except IoError Bytes
  | .readHost _ => Except IoError Bytes
  | .buildInit _ => Except IoError Bytes
  | .createDirAll | .openFile _ | .createNew _ | .writeAll _ _ | .syncAll _ | .rename _ _
  | .removeFile _ => Except IoError Unit

abbrev Files := Bytes → Option Bytes

def noFiles : Files := fun _ => none

/-- `fs::Metadata::len` and the `u64` counters. -/
def sizeOf64 (bytes : Bytes) : UInt64 := UInt64.ofNat bytes.length

/-- What an operation may do.  Any of them may fail for a reason of its own; a
failed write leaves part of its bytes, which is also what a crash inside a write
leaves.  `rename` is atomic. -/
def fsWorld : World Files FsOp FsOp.Ans
  | .createDirAll, files, _, files' => files' = files
  | .metadata name, files, (r : Except IoError Metadata), files' =>
    files' = files ∧ ∀ m, r = .ok m → ∃ bytes, files name = some bytes ∧ m = ⟨true, sizeOf64 bytes⟩
  | .openFile name, files, (r : Except IoError Unit), files' =>
    files' = files ∧ (r = .ok () → ∃ bytes, files name = some bytes)
  | .read name, files, (r : Except IoError Bytes), files' =>
    files' = files ∧ ∀ bytes, r = .ok bytes → files name = some bytes
  | .createNew name, files, (r : Except IoError Unit), files' =>
    (r = .ok () → files name = none ∧ files' = Function.update files name (some [])) ∧
      (r ≠ .ok () → files' = files)
  | .writeAll name bytes, files, (r : Except IoError Unit), files' =>
    (r ≠ .ok () ∧ files' = files) ∨
      ∃ old written, files name = some old ∧ written <+: bytes ∧ (r = .ok () → written = bytes) ∧
        files' = Function.update files name (some (old ++ written))
  | .syncAll _, files, _, files' => files' = files
  | .rename source target, files, (r : Except IoError Unit), files' =>
    (r = .ok () → ∃ bytes, files source = some bytes ∧
      files' = Function.update (Function.update files source none) target (some bytes)) ∧
      (r ≠ .ok () → files' = files)
  | .removeFile name, files, (r : Except IoError Unit), files' =>
    (r = .ok () → files' = Function.update files name none) ∧ (r ≠ .ok () → files' = files)
  | .readHost content, files, (r : Except IoError Bytes), files' =>
    files' = files ∧ ∀ bytes, r = .ok bytes → bytes = content
  | .buildInit binary, files, (r : Except IoError Bytes), files' =>
    files' = files ∧ ∀ bytes, r = .ok bytes → bytes = binary

/-- `io::Result`. -/
abbrev Fs := Fallible FsOp FsOp.Ans IoError

namespace Fs

def createDirAll : Fs Unit := ExceptT.mk (Prog.call FsOp.createDirAll)
def metadata (name : Bytes) : Fs Metadata := ExceptT.mk (Prog.call (FsOp.metadata name))
def openFile (name : Bytes) : Fs Unit := ExceptT.mk (Prog.call (FsOp.openFile name))
def read (name : Bytes) : Fs Bytes := ExceptT.mk (Prog.call (FsOp.read name))
def createNew (name : Bytes) : Fs Unit := ExceptT.mk (Prog.call (FsOp.createNew name))
def writeAll (name bytes : Bytes) : Fs Unit := ExceptT.mk (Prog.call (FsOp.writeAll name bytes))
def syncAll (name : Bytes) : Fs Unit := ExceptT.mk (Prog.call (FsOp.syncAll name))
def rename (source target : Bytes) : Fs Unit := ExceptT.mk (Prog.call (FsOp.rename source target))
def removeFile (name : Bytes) : Fs Unit := ExceptT.mk (Prog.call (FsOp.removeFile name))
def readHost (content : Bytes) : Fs Bytes := ExceptT.mk (Prog.call (FsOp.readHost content))
def buildInit (binary : Bytes) : Fs Bytes := ExceptT.mk (Prog.call (FsOp.buildInit binary))

end Fs

/-! ## `cache.rs` -/

structure ArtifactMetadata where
  digest : Bytes
  size : UInt64
deriving DecidableEq

section Cache

variable (fp : Fingerprint)

def fileIdentity (name : Bytes) : Fs (Bytes × UInt64) := do
  let bytes ← Fs.read name
  return (fp.blake3 bytes, sizeOf64 bytes)

def artifactMetadata (name : Bytes) : Fs ArtifactMetadata := do
  let (digest, size) ← fileIdentity fp name
  return ⟨utf8 "blake3_" ++ digest, size⟩

def hasSize (name : Bytes) (expected : UInt64) : Prog FsOp FsOp.Ans Bool := do
  match ← (Fs.metadata name).run with
  | .ok m => return m.isFile && m.len == expected
  | .error _ => return false

def artifactMatches (name : Bytes) (expected : ArtifactMetadata) : Fs Bool := do
  if ← ExceptT.lift (hasSize name expected.size) then
    let actual ← artifactMetadata fp name
    return actual = expected
  else return false

def fileMatches (name expectedHash : Bytes) (expectedSize : UInt64) : Fs Bool := do
  if ← ExceptT.lift (hasSize name expectedSize) then
    let (hash, size) ← fileIdentity fp name
    return size = expectedSize ∧ hash = expectedHash
  else return false

def tempPath (name uuid : Bytes) : Bytes := utf8 "." ++ name ++ utf8 ".tmp-" ++ uuid

def writeTemp (name bytes : Bytes) : Fs Unit := do
  Fs.createNew name
  Fs.writeAll name bytes
  Fs.syncAll name

def contended (error : IoError) : Bool := error = .alreadyExists ∨ error = .permissionDenied

/-- `let _ = remove_file(temp); Err(error)`. -/
def giveUp (temp : Bytes) (error : IoError) : Fs Unit := ExceptT.mk do
  let _ ← (Fs.removeFile temp).run
  return .error error

/-- The turns of the retry loop that are left, and what follows the last one. -/
def retryPublish (temp destination expectedHash : Bytes) (expectedSize : UInt64) : Nat → Fs Unit
  | 0 => ExceptT.mk do
    let _ ← (Fs.removeFile destination).run
    match ← (Fs.rename temp destination).run with
    | .ok _ => return .ok ()
    | .error error => (giveUp temp error).run
  | attempts + 1 => ExceptT.mk do
    let again : Prog FsOp FsOp.Ans (Except IoError Unit) := do
      match ← (Fs.rename temp destination).run with
      | .ok _ => return .ok ()
      | .error error =>
        if contended error then
          (retryPublish temp destination expectedHash expectedSize attempts).run
        else (giveUp temp error).run
    match ← (fileMatches fp destination expectedHash expectedSize).run with
    | .ok true =>
      let _ ← (Fs.removeFile temp).run
      return .ok ()
    | .ok false => again
    | .error error => if contended error then again else (giveUp temp error).run

def publishRetryAttempts : Nat := 3

def publishTemp (temp destination expectedHash : Bytes) (expectedSize : UInt64) : Fs Unit := do
  Fs.createDirAll
  ExceptT.mk do
    match ← (Fs.rename temp destination).run with
    | .ok _ => return .ok ()
    | .error error =>
      if contended error then
        (retryPublish fp temp destination expectedHash expectedSize (publishRetryAttempts + 1)).run
      else (giveUp temp error).run

def atomicWrite (path bytes uuid : Bytes) : Fs Unit := do
  Fs.createDirAll
  let temp := tempPath path uuid
  ExceptT.mk do
    let written : Fs Unit := do
      writeTemp temp bytes
      publishTemp fp temp path (fp.blake3 bytes) (sizeOf64 bytes)
    match ← written.run with
    | .ok _ => return .ok ()
    | .error error => (giveUp temp error).run

/-! ## `prepare_boot_artifacts` -/

/-- What is recorded beside a cached rootfs. -/
structure RootfsMetadata where
  schemaVersion : UInt32
  key : Bytes
  artifact : ArtifactMetadata
deriving DecidableEq

/-- `serde_json` for the record.  Nothing is assumed of it: a record that is read
back wrong is caught by the other checks. -/
structure RecordJson where
  fromSlice : Bytes → Option RootfsMetadata
  toVec : RootfsMetadata → Bytes

variable (json : RecordJson)

def readJson (name : Bytes) : Fs RootfsMetadata := do
  let bytes ← Fs.read name
  match json.fromSlice bytes with
  | some metadata => return metadata
  | none => throw .invalidData

/-- The streaming check of `cached_rootfs_is_valid`. -/
def scanArchive [NewcReader] : Nat → Bytes → Bool
  | 0, _ => false
  | fuel + 1, remaining =>
    match NewcReader.new.run remaining with
    | .error _ => false
    | .ok (entry, rest) =>
      if entry.isTrailer then
        if entry.fileSize ≠ 0 then false
        else match (NewcReader.finish entry).run rest with
          | .error _ => false
          | .ok (_, tail) => tail.all (· = 0)
      else match (NewcReader.finish entry).run rest with
        | .error _ => false
        | .ok (_, tail) => scanArchive fuel tail

/-- A missing file is no error, whichever call notices it. -/
def missingIsFalse (error : IoError) : Except IoError Bool :=
  if error = .notFound then .ok false else .error error

def cachedRootfsIsValid [NewcReader] (name : Bytes) (expectedSize : UInt64) : Fs Bool := ExceptT.mk do
  match ← (Fs.metadata name).run with
  | .error error => return missingIsFalse error
  | .ok m =>
    if !m.isFile || m.len ≠ expectedSize then return .ok false
    else match ← (Fs.openFile name).run with
      | .error error => return missingIsFalse error
      | .ok _ =>
        match ← (Fs.read name).run with
        | .error _ => return .ok false
        | .ok bytes => return .ok (scanArchive (bytes.length + 1) bytes)

structure PreparedBootArtifacts where
  kernel : String
  rootfs : Bytes
deriving DecidableEq

/-- A call: its inputs, and the identifiers it draws for its temporary files. -/
structure Call extends Request where
  kernel : String
  basePath : String
  imageUuid : Bytes
  recordUuid : Bytes

def imageName (key : Bytes) : Bytes := key ++ utf8 ".cpio"
def recordName (key : Bytes) : Bytes := key ++ utf8 ".json"

abbrev Prepare := Fallible FsOp FsOp.Ans BootImageError

/-- `change_context`. -/
def withContext {α : Type} (context : BootImageError) (x : Fs α) : Prepare α := ExceptT.mk do
  match ← x.run with
  | .ok a => return .ok a
  | .error _ => return .error context

def cacheHit [NewcReader] (key : Bytes) : Prepare Bool := ExceptT.mk do
  match ← (readJson json (recordName key)).run with
  | .error _ => return .ok false
  | .ok metadata =>
    if metadata.schemaVersion ≠ cacheSchemaVersion ∨ metadata.key ≠ key then return .ok false
    else match ← (artifactMatches fp (imageName key) metadata.artifact).run with
      | .ok true =>
        (withContext .cache (cachedRootfsIsValid (imageName key) metadata.artifact.size)).run
      | _ => return .ok false

def prepareInner [NewcReader] (call : Call) (resolved : List ResolvedFile) (dirs : List ValidatedDir) :
    Prepare PreparedBootArtifacts := do
  let baseBytes ← withContext (.invalidHostPath call.basePath) (Fs.readHost call.base)
  let key := fp.rootfsManifestKey baseBytes resolved dirs
  withContext .cache Fs.createDirAll
  if ← cacheHit fp json key then return ⟨call.kernel, imageName key⟩
  else
    let merged ← ExceptT.mk (pure (orOverlay (buildImage baseBytes resolved dirs)))
    withContext .cache (atomicWrite fp (imageName key) merged call.imageUuid)
    let artifact ← withContext .cache (artifactMetadata fp (imageName key))
    let metadata : RootfsMetadata := ⟨cacheSchemaVersion, key, artifact⟩
    withContext .cache (atomicWrite fp (recordName key) (json.toVec metadata) call.recordUuid)
    return ⟨call.kernel, imageName key⟩

def prepareBootArtifacts [NewcReader] (call : Call) : Prepare PreparedBootArtifacts := do
  let overlay ← ExceptT.mk (pure (validateEntries call.entries))
  let initBytes ← withContext .initBuild (Fs.buildInit call.init)
  prepareInner fp json call (withInit overlay.files initBytes) overlay.dirs

/-! ## Publishing a file -/

/-- A write of `bytes` to `path` through `temp` is under way: only these two
files may differ from before, and `path` never holds part of the bytes. -/
structure Writing (before : Files) (path temp bytes : Bytes) (files : Files) : Prop where
  others : ∀ name, name ≠ temp → name ≠ path → files name = before name
  whole : files path = before path ∨ files path = some bytes ∨ files path = none

namespace Writing

variable {before files : Files} {path temp bytes : Bytes}

theorem refl (files : Files) (path temp bytes : Bytes) : Writing files path temp bytes files :=
  ⟨fun _ _ _ => rfl, .inl rfl⟩

theorem atTemp (h : Writing before path temp bytes files) (hne : temp ≠ path)
    (content : Option Bytes) :
    Writing before path temp bytes (update files temp content) where
  others name hname hpath := by
    rw [update_of_ne hname]
    exact h.others name hname hpath
  whole := by
    rw [update_of_ne hne.symm]
    exact h.whole

theorem atPath (h : Writing before path temp bytes files) (content : Option Bytes)
    (hcontent : content = some bytes ∨ content = none) :
    Writing before path temp bytes (update files path content) where
  others name hname hpath := by
    rw [update_of_ne hpath]
    exact h.others name hname hpath
  whole := by
    rw [update_self]
    exact .inr hcontent

end Writing

variable {before files : Files} {path temp bytes : Bytes} {C : Files → Prop}

variable {Q : Except IoError Unit → Files → Prop} {α : Type} {x : Fs α} {base : Bytes}

theorem safe_removeFile {name : Bytes} (hC : C files) (hstay : ∀ r, Q r files)
    (hgone : C (update files name none)) (h : ∀ r, Q r (update files name none)) :
    Safe fsWorld C Q (Fs.removeFile name).run files := by
  refine Safe.call hC fun r files' hop => ?_
  by_cases hr : r = .ok ()
  · rw [hop.1 hr]
    exact ⟨hgone, h r⟩
  · rw [hop.2 hr]
    exact ⟨hC, hstay r⟩

theorem safe_giveUp (error : IoError) (hC : C files) (hgone : C (update files temp none)) :
    Safe fsWorld C (fun r _ => r ≠ .ok ()) (giveUp temp error).run files := by
  refine Safe.bind (safe_removeFile hC ?_ hgone ?_)
  · exact fun _ => Safe.pure hC (by simp)
  · exact fun _ => Safe.pure hgone (by simp)

theorem safe_rename {source target : Bytes} (hC : C files)
    (hmoved : ∀ content, files source = some content →
      C (update (update files source none) target (some content)) ∧
      Q (.ok ()) (update (update files source none) target (some content)))
    (hfailed : ∀ error, Q (.error error) files) :
    Safe fsWorld C Q (Fs.rename source target).run files := by
  refine Safe.call hC fun r files' hop => ?_
  cases r with
  | ok u =>
    obtain ⟨content, hsource, rfl⟩ := hop.1 rfl
    exact hmoved content hsource
  | error error =>
    rw [hop.2 (by simp)]
    exact ⟨hC, hfailed error⟩

/-! ### Looking at files -/

variable (name : Bytes)

theorem looks_hasSize (expected : UInt64) :
    Looks fsWorld (fun _ => True) (hasSize name expected) files := by
  have hmeta : Looks fsWorld (fun _ => True) (Fs.metadata name).run files :=
    Looks.call fun r files' hop => ⟨hop.1, trivial⟩
  refine hmeta.bind fun r _ => ?_
  cases r with
  | ok m | error error => exact Looks.pure trivial

theorem looks_read : Looks fsWorld (fun r => ∀ content, r = .ok content → files name = some content)
      (Fs.read name).run files :=
  Looks.call fun _ _ hop => hop

theorem looks_fileIdentity : Looks fsWorld (fun r => ∀ id, r = .ok id →
      ∃ content, files name = some content ∧ id = (fp.blake3 content, sizeOf64 content))
      (fileIdentity fp name) files := by
  refine (looks_read name).bindE (fun content hread => ?_) fun error _ id hid => by cases hid
  refine Looks.pure fun id hid => ⟨content, hread content rfl, ?_⟩
  cases hid
  rfl

theorem looks_artifactMetadata :
    Looks fsWorld (fun r => ∀ m, r = .ok m → ∃ content, files name = some content)
      (artifactMetadata fp name) files := by
  refine (looks_fileIdentity fp name).bindE (fun id hid => ?_) fun error _ m hm => by cases hm
  obtain ⟨content, hcontent, -⟩ := hid id rfl
  exact Looks.pure fun _ _ => ⟨content, hcontent⟩

theorem looks_fileMatches (name hash : Bytes) (size : UInt64) :
    Looks fsWorld (fun r => r = .ok true →
      ∃ content, files name = some content ∧ fp.blake3 content = hash)
      (fileMatches fp name hash size) files := by
  have hsize : Looks fsWorld (fun _ => True)
      (ExceptT.lift (hasSize name size) : Fs Bool) files :=
    (looks_hasSize name size).bind fun _ _ => Looks.pure trivial
  refine hsize.bindE (fun sized _ => ?_) fun error _ h => by cases h
  cases sized with
  | false => exact Looks.pure fun h => by cases h
  | true =>
    refine (looks_fileIdentity fp name).bindE (fun id hid => ?_) fun error _ h => by cases h
    obtain ⟨content, hcontent, rfl⟩ := hid id rfl
    refine Looks.pure fun h => ⟨content, hcontent, ?_⟩
    have hsame := of_decide_eq_true (Except.ok.inj h)
    exact hsame.2

theorem looks_artifactMatches (expected : ArtifactMetadata) :
    Looks fsWorld (fun r => r = .ok true → ∃ content, files name = some content)
      (artifactMatches fp name expected) files := by
  have hsize : Looks fsWorld (fun _ => True)
      (ExceptT.lift (hasSize name expected.size) : Fs Bool) files :=
    (looks_hasSize name expected.size).bind fun _ _ => Looks.pure trivial
  refine hsize.bindE (fun sized _ => ?_) fun error _ h => by cases h
  cases sized with
  | false => exact Looks.pure fun h => by cases h
  | true =>
    refine (looks_artifactMetadata fp name).bindE (fun m hm => ?_) fun error _ h => by cases h
    exact Looks.pure fun _ => hm m rfl

/-! ### Publishing -/

/-- A success has the bytes at the path. -/
def Published (path bytes : Bytes) (r : Except IoError Unit) (files : Files) : Prop :=
  r = .ok () → files path = some bytes

section

variable (h : Writing before path temp bytes files)
include h

variable (hne : temp ≠ path)
include hne

theorem safe_giveUp_published (error : IoError) :
    Safe fsWorld (Writing before path temp bytes) (Published path bytes) (giveUp temp error).run
      files :=
  (safe_giveUp error h (h.atTemp hne none)).mono (fun _ h => h) fun _ _ _ hr hok => absurd hok hr

/-- A rename of the complete temporary file either publishes it or is followed by
`next`, with nothing changed. -/
theorem safe_rename_published {next : IoError → Prog FsOp FsOp.Ans (Except IoError Unit)}
    (htemp : files temp = some bytes)
    (hnext : ∀ error, Safe fsWorld (Writing before path temp bytes) (Published path bytes)
      (next error) files) : Safe fsWorld (Writing before path temp bytes) (Published path bytes)
      ((Fs.rename temp path).run >>= fun r => match r with
        | .ok _ => pure (.ok ())
        | .error error => next error) files := by
  refine Safe.bind (safe_rename h (fun content hcontent => ?_) hnext)
  obtain rfl : bytes = content := Option.some.inj (htemp.symm.trans hcontent)
  have hmoved := (h.atTemp hne none).atPath (some bytes) (.inl rfl)
  exact ⟨hmoved, Safe.pure hmoved fun _ => update_self ..⟩

theorem safe_ifContended {again : Prog FsOp FsOp.Ans (Except IoError Unit)}
    (hagain : Safe fsWorld (Writing before path temp bytes) (Published path bytes) again files)
    (error : IoError) : Safe fsWorld (Writing before path temp bytes) (Published path bytes)
      (if contended error then again else (giveUp temp error).run) files := by
  split
  · exact hagain
  · exact safe_giveUp_published h hne error

theorem safe_retryPublish (htemp : files temp = some bytes) (size : UInt64) (attempts : Nat) :
    Safe fsWorld (Writing before path temp bytes) (Published path bytes)
      (retryPublish fp temp path (fp.blake3 bytes) size attempts).run files := by
  induction attempts with
  | zero =>
    have hgone := h.atPath none (.inr rfl)
    refine Safe.bind (safe_removeFile h ?_ hgone ?_)
    · exact fun _ => safe_rename_published h hne htemp (safe_giveUp_published h hne)
    · intro _
      refine safe_rename_published hgone hne ?_ (safe_giveUp_published hgone hne)
      rw [update_of_ne hne, htemp]
  | succ attempts ih =>
    have hagain := safe_rename_published h hne htemp (safe_ifContended h hne ih)
    refine (looks_fileMatches fp path (fp.blake3 bytes) size).safe h fun r hr => ?_
    rcases r with error | accepted
    · exact safe_ifContended h hne hagain error
    · cases accepted with
      | false => exact hagain
      | true =>
        -- the file that is there has the hash of `bytes`, so it is `bytes`
        obtain ⟨content, hcontent, hhash⟩ := hr rfl
        obtain rfl := fp.blake3_injective hhash
        have hgone := h.atTemp hne none
        refine Safe.bind (safe_removeFile h ?_ hgone ?_)
        · exact fun _ => Safe.pure h fun _ => hcontent
        · refine fun _ => Safe.pure hgone fun _ => ?_
          rw [update_of_ne hne.symm, hcontent]

theorem safe_publishTemp (htemp : files temp = some bytes) (size : UInt64) :
    Safe fsWorld (Writing before path temp bytes) (Published path bytes)
      (publishTemp fp temp path (fp.blake3 bytes) size) files := by
  have hdir : Looks fsWorld (fun _ => True) Fs.createDirAll files :=
    Looks.call fun r files' hop => ⟨hop, trivial⟩
  refine hdir.safeE h (fun _ _ => ?_) fun error _ hok => by cases hok
  exact safe_rename_published h hne htemp
    (safe_ifContended h hne (safe_retryPublish fp h hne htemp size _))

theorem safe_writeTemp : Safe fsWorld (Writing before path temp bytes)
      (fun r files' => r = .ok () → files' temp = some bytes) (writeTemp temp bytes) files := by
  refine Safe.bindE (Safe.call h fun r files' hop => ?_)
  cases r with
  | error error =>
    rw [hop.2 (by simp)]
    exact ⟨h, fun hok => by cases hok⟩
  | ok u =>
    obtain ⟨-, rfl⟩ := hop.1 rfl
    have hempty := h.atTemp hne (some [])
    refine ⟨hempty, Safe.bindE (Safe.call hempty fun r files' hop => ?_)⟩
    rcases hop with ⟨hr, rfl⟩ | ⟨old, written, hold, -, hall, rfl⟩
    · refine ⟨hempty, ?_⟩
      cases r with
      | error error => exact fun hok => by cases hok
      | ok u => exact absurd rfl hr
    · rw [update_self] at hold
      cases hold
      have hwritten := hempty.atTemp hne (some ([] ++ written))
      refine ⟨hwritten, ?_⟩
      cases r with
      | error error => exact fun hok => by cases hok
      | ok u =>
        obtain rfl := hall rfl
        refine Safe.call hwritten fun r files' hop => ?_
        cases hop
        exact ⟨hwritten, fun _ => update_self ..⟩

end

/-- **`atomic_write`.**  Whenever it is cut off, the path holds what it held,
nothing, or all of the bytes; after a success it holds the bytes. -/
theorem safe_atomicWrite (before : Files) (path bytes uuid : Bytes) (hne : tempPath path uuid ≠ path) :
    Safe fsWorld (Writing before path (tempPath path uuid) bytes) (Published path bytes)
      (atomicWrite fp path bytes uuid) before := by
  have hstart := Writing.refl before path (tempPath path uuid) bytes
  have hdir : Looks fsWorld (fun _ => True) Fs.createDirAll before :=
    Looks.call fun r files' hop => ⟨hop, trivial⟩
  refine hdir.safeE hstart (fun _ _ => ?_) fun error _ hok => by cases hok
  have hwrite := safe_writeTemp hstart hne
  have hpublish : Safe fsWorld (Writing before path (tempPath path uuid) bytes)
      (Published path bytes) (do
        writeTemp (tempPath path uuid) bytes
        publishTemp fp (tempPath path uuid) path (fp.blake3 bytes) (sizeOf64 bytes) : Fs Unit)
      before := by
    refine Safe.bindE (hwrite.mono (fun _ h => h) fun r files h hr => ?_)
    cases r with
    | error error => exact fun hok => by cases hok
    | ok u => exact safe_publishTemp fp h hne (hr rfl) _
  refine Safe.bind (hpublish.mono (fun _ h => h) fun r files h hr => ?_)
  cases r with
  | error error => exact safe_giveUp_published h hne error
  | ok u => exact Safe.pure h fun _ => hr rfl

/-! ## The invariant of the cache -/

/-- Whatever image lies in the cache is the one its name stands for. -/
def Images [NewcReader] (files : Files) : Prop :=
  ∀ base resolved dirs content,
    files (imageName (fp.rootfsManifestKey base resolved dirs)) = some content →
      buildImage base resolved dirs = .ok content

theorem images_noFiles [NewcReader] : Images fp noFiles := fun _ _ _ _ h => by cases h

theorem imageName_injective : Function.Injective imageName := fun _ _ h =>
  append_cancel_right h

theorem imageName_ne_recordName (key key' : Bytes) : imageName key ≠ recordName key' := by
  intro h
  have hlen : key.length = key'.length := by
    have hlength := congrArg List.length h
    have hsuffix : (utf8 ".cpio").length = (utf8 ".json").length := by decide
    rw [imageName, recordName, length_append, length_append] at hlength
    omega
  have := (append_inj h hlen).2
  exact absurd this (by decide)

theorem head_key (base : Bytes) (resolved : List ResolvedFile) (dirs : List ValidatedDir) :
    (fp.rootfsManifestKey base resolved dirs).head? = some 0x62 := rfl

variable {resolved : List ResolvedFile} {key : Bytes} {dirs : List ValidatedDir}

theorem tempPath_ne {suffix : Bytes} (h : key.head? = some 0x62) (name uuid : Bytes) :
    tempPath name uuid ≠ key ++ suffix := by
  intro heq
  cases key with
  | nil => cases h
  | cons b key =>
    cases h
    have := congrArg head? heq
    cases this

theorem Images.writing [NewcReader] (h : Images fp before) (hw : Writing before path temp bytes files)
    (hpath : ∀ base resolved dirs, path = imageName (fp.rootfsManifestKey base resolved dirs) →
      buildImage base resolved dirs = .ok bytes)
    (htemp : ∀ base resolved dirs, temp ≠ imageName (fp.rootfsManifestKey base resolved dirs)) :
    Images fp files := by
  intro base resolved dirs content hcontent
  by_cases hname : imageName (fp.rootfsManifestKey base resolved dirs) = path
  · rw [hname] at hcontent
    rcases hw.whole with hold | hnew | hnone
    · refine h base resolved dirs content ?_
      rw [hname, ← hold, hcontent]
    · rw [hpath base resolved dirs hname.symm]
      exact congrArg Except.ok (Option.some.inj (hnew.symm.trans hcontent))
    · rw [hnone] at hcontent
      cases hcontent
  · refine h base resolved dirs content ?_
    rw [← hw.others _ (htemp base resolved dirs).symm hname, hcontent]

/-! ### A call -/

theorem looks_withContext {R : Except IoError α → Prop}
    (context : BootImageError) (h : Looks fsWorld R x files) :
    Looks fsWorld (fun r => ∀ a, r = .ok a → R (.ok a)) (withContext context x) files := by
  refine Looks.bind h fun r hr => ?_
  cases r with
  | ok a => exact Looks.pure fun b hb => by cases hb; exact hr
  | error error => exact Looks.pure fun b hb => by cases hb

theorem safe_withContext {Q : Except IoError α → Files → Prop}
    (context : BootImageError) (h : Safe fsWorld C Q x files) :
    Safe fsWorld C (fun r files' => ∀ a, r = .ok a → Q (.ok a) files') (withContext context x)
      files := by
  refine Safe.bind (h.mono (fun _ h => h) fun r files' hC hr => ?_)
  cases r with
  | ok a => exact Safe.pure hC fun b hb => by cases hb; exact hr
  | error error => exact Safe.pure hC fun b hb => by cases hb

theorem looks_readJson : Looks fsWorld (fun _ => True) (readJson json name) files := by
  refine (looks_read name).bindE (fun content _ => ?_) fun _ _ => trivial
  cases json.fromSlice content with
  | some metadata | none => exact Looks.pure trivial

theorem looks_cachedRootfsIsValid [NewcReader] (size : UInt64) :
    Looks fsWorld (fun _ => True) (cachedRootfsIsValid name size) files := by
  have hmeta : Looks fsWorld (fun _ => True) (Fs.metadata name).run files :=
    Looks.call fun r files' hop => ⟨hop.1, trivial⟩
  have hopen : Looks fsWorld (fun _ => True) (Fs.openFile name).run files :=
    Looks.call fun r files' hop => ⟨hop.1, trivial⟩
  refine Looks.bind hmeta fun r _ => ?_
  rcases r with error | m
  · exact Looks.pure trivial
  · dsimp only
    split
    · exact Looks.pure trivial
    · refine Looks.bind hopen fun r _ => ?_
      rcases r with error | u
      · exact Looks.pure trivial
      · refine Looks.bind (looks_read name) fun r _ => ?_
        rcases r with error | content
        · exact Looks.pure trivial
        · exact Looks.pure trivial

theorem looks_cacheHit [NewcReader] (key : Bytes) :
    Looks fsWorld (fun r => r = .ok true → ∃ content, files (imageName key) = some content)
      (cacheHit fp json key) files := by
  refine Looks.bind (looks_readJson json _) fun r _ => ?_
  rcases r with error | metadata
  · exact Looks.pure fun h => by cases h
  · dsimp only
    split
    · exact Looks.pure fun h => by cases h
    · refine Looks.bind (looks_artifactMatches fp _ _) fun r hr => ?_
      rcases r with error | _ | _
      · exact Looks.pure fun h => by cases h
      · exact Looks.pure fun h => by cases h
      · have hvalid : Looks fsWorld (fun _ => True)
            (cachedRootfsIsValid (imageName key) metadata.artifact.size) files :=
          looks_cachedRootfsIsValid _ _
        exact (looks_withContext .cache hvalid).mono fun _ _ _ => hr rfl

/-- What a call promises: the file it names is the image of its inputs. -/
def Prepared (kernel : String) (image : Except BootImageError Bytes)
    (r : Except BootImageError PreparedBootArtifacts) (files : Files) : Prop :=
  ∀ artifacts, r = .ok artifacts → artifacts.kernel = kernel ∧
    ∃ bytes, image = .ok bytes ∧ files artifacts.rootfs = some bytes

theorem safe_writeImage [NewcReader] (h : Images fp files)
    (hbuild : buildImage base resolved dirs = .ok bytes) (uuid : Bytes) : Safe fsWorld (Images fp)
      (fun r files' => ∀ a, r = .ok a →
        files' (imageName (fp.rootfsManifestKey base resolved dirs)) = some bytes)
      (withContext .cache
        (atomicWrite fp (imageName (fp.rootfsManifestKey base resolved dirs)) bytes uuid)) files := by
  have htemp : ∀ base' resolved' dirs', tempPath (imageName (fp.rootfsManifestKey base resolved dirs))
      uuid ≠ imageName (fp.rootfsManifestKey base' resolved' dirs') :=
    fun base' resolved' dirs' => tempPath_ne (head_key fp base' resolved' dirs') _ _
  refine (safe_withContext .cache
    (safe_atomicWrite fp files _ bytes uuid (htemp base resolved dirs))).mono
    (fun files' hw => h.writing fp hw (fun base' resolved' dirs' hpath => ?_) htemp)
    fun r files' _ hr a ha => hr a ha rfl
  obtain ⟨rfl, rfl, rfl⟩ := fp.rootfsManifestKey_injective (imageName_injective hpath)
  exact hbuild

theorem safe_writeRecord [NewcReader] (h : Images fp files)
    (hthere : files (imageName (fp.rootfsManifestKey base resolved dirs)) = some bytes)
    (record uuid : Bytes) : Safe fsWorld (Images fp)
      (fun _ files' => files' (imageName (fp.rootfsManifestKey base resolved dirs)) = some bytes)
      (withContext .cache
        (atomicWrite fp (recordName (fp.rootfsManifestKey base resolved dirs)) record uuid))
      files := by
  have htemp : ∀ base' resolved' dirs', tempPath (recordName (fp.rootfsManifestKey base resolved dirs))
      uuid ≠ imageName (fp.rootfsManifestKey base' resolved' dirs') :=
    fun base' resolved' dirs' => tempPath_ne (head_key fp base' resolved' dirs') _ _
  have hwrite := safe_withContext .cache (safe_atomicWrite fp files
    (recordName (fp.rootfsManifestKey base resolved dirs)) record uuid
    (tempPath_ne (head_key fp base resolved dirs) _ _))
  have hkept : ∀ files', Writing files (recordName (fp.rootfsManifestKey base resolved dirs))
      (tempPath (recordName (fp.rootfsManifestKey base resolved dirs)) uuid) record files' →
      files' (imageName (fp.rootfsManifestKey base resolved dirs)) = some bytes := by
    intro files' hw
    rw [hw.others _ (htemp base resolved dirs).symm (imageName_ne_recordName _ _), hthere]
  refine hwrite.mono (fun files' hw => h.writing fp hw (fun _ _ _ hpath => ?_) htemp)
    fun _ files' hw _ => hkept files' hw
  exact absurd hpath.symm (imageName_ne_recordName _ _)

theorem safe_prepareInner [NewcReader] (h : Images fp files) (call : Call) (resolved : List ResolvedFile)
    (dirs : List ValidatedDir) : Safe fsWorld (Images fp)
      (Prepared call.kernel (orOverlay (buildImage call.base resolved dirs)))
      (prepareInner fp json call resolved dirs) files := by
  have hread : Looks fsWorld (fun r => ∀ content, r = .ok content → content = call.base)
      (Fs.readHost call.base) files := Looks.call fun _ _ hop => hop
  have hdir : Looks fsWorld (fun _ => True) Fs.createDirAll files :=
    Looks.call fun r files' hop => ⟨hop, trivial⟩
  refine (looks_withContext _ hread).safeE h (fun base hbase => ?_) fun e _ a ha => by cases ha
  obtain rfl := hbase base rfl base rfl
  refine (looks_withContext _ hdir).safeE h (fun _ _ => ?_) fun e _ a ha => by cases ha
  refine (looks_cacheHit fp json _).safeE h (fun hit hhit => ?_) fun e _ a ha => by cases ha
  cases hit with
  | true =>
    obtain ⟨content, hcontent⟩ := hhit rfl
    refine Safe.pure h fun artifacts ha => ?_
    cases ha
    refine ⟨rfl, content, ?_, hcontent⟩
    rw [h _ _ _ _ hcontent]
    rfl
  | false =>
    cases hbuild : buildImage call.base resolved dirs with
    | error e => exact Safe.bindE (Safe.pure h fun a ha => by cases ha)
    | ok image =>
      refine Safe.bindE (Safe.pure h ?_)
      refine Safe.bindE ((safe_writeImage fp h hbuild call.imageUuid).mono (fun _ h => h)
        fun r files' h hr => ?_)
      rcases r with e | u
      · exact fun a ha => by cases ha
      have hthere := hr u rfl
      refine (looks_withContext _ (looks_artifactMetadata fp _)).safeE h (fun artifact _ => ?_)
        fun e _ a ha => by cases ha
      refine Safe.bindE ((safe_writeRecord fp h hthere _ call.recordUuid).mono (fun _ h => h)
        fun r files'' h hthere => ?_)
      rcases r with e | u
      · exact fun a ha => by cases ha
      refine ⟨h, fun artifacts ha => ?_⟩
      cases ha
      exact ⟨rfl, image, rfl, hthere⟩

theorem safe_prepare [NewcReader] (call : Call) (h : Images fp files) :
    Safe fsWorld (Images fp) (Prepared call.kernel call.image) (prepareBootArtifacts fp json call)
      files := by
  have hinit : Looks fsWorld (fun r => ∀ content, r = .ok content → content = call.init)
      (Fs.buildInit call.init) files := Looks.call fun _ _ hop => hop
  cases hv : validateEntries call.entries with
  | error e =>
    unfold prepareBootArtifacts
    rw [hv]
    exact Safe.bindE (Safe.pure h fun a ha => by cases ha)
  | ok overlay =>
    unfold prepareBootArtifacts
    rw [hv]
    refine Safe.bindE (Safe.pure h ?_)
    refine (looks_withContext _ hinit).safeE h (fun init hbytes => ?_) fun e _ a ha => by cases ha
    obtain rfl := hbytes init rfl init rfl
    have himage : call.image =
        orOverlay (buildImage call.base (withInit overlay.files call.init) overlay.dirs) := by
      rw [Request.image, assemble, hv]
      rfl
    rw [himage]
    exact safe_prepareInner fp json h call _ _

/-! ## Calls without faults -/

/-- The file system when nothing goes wrong. -/
def faultless : (op : FsOp) → Files → op.Ans × Files
  | .createDirAll, files => (.ok (), files)
  | .metadata name, files =>
    (match files name with
      | some bytes => .ok ⟨true, sizeOf64 bytes⟩
      | none => .error .notFound, files)
  | .openFile name, files => (if (files name).isSome then .ok () else .error .notFound, files)
  | .read name, files =>
    (match files name with
      | some bytes => .ok bytes
      | none => .error .notFound, files)
  | .createNew name, files =>
    if (files name).isSome then (.error .alreadyExists, files)
    else (.ok (), Function.update files name (some []))
  | .writeAll name bytes, files =>
    match files name with
    | some old => (.ok (), Function.update files name (some (old ++ bytes)))
    | none => (.error .notFound, files)
  | .syncAll _, files => (.ok (), files)
  | .rename source target, files =>
    match files source with
    | some bytes =>
      (.ok (), Function.update (Function.update files source none) target (some bytes))
    | none => (.error .notFound, files)
  | .removeFile name, files => (.ok (), Function.update files name none)
  | .readHost content, files => (.ok content, files)
  | .buildInit binary, files => (.ok binary, files)

theorem fsWorld_faultless (op : FsOp) (files : Files) :
    fsWorld op files (faultless op files).1 (faultless op files).2 := by
  cases op with
  | metadata name | openFile name | read name | createNew name | writeAll name bytes =>
    cases h : files name <;> simp [fsWorld, faultless, h]
  | rename source target => cases h : files source <;> simp [fsWorld, faultless, h]
  | createDirAll | syncAll name => rfl
  | removeFile name | readHost content | buildInit binary => simp [fsWorld, faultless]

theorem tempPath_imageName_ne (key uuid uuid' : Bytes) :
    tempPath (recordName key) uuid ≠ tempPath (imageName key) uuid' := by
  intro h
  simp only [tempPath, recordName, imageName, append_assoc] at h
  have := append_cancel_left (append_cancel_left h)
  cases this

end Cache

/-- **The cache is transparent.**  In every sequence of calls on one cache
directory, each cut off anywhere or run to its end, with any operation failing, a
call that succeeds names a file that holds the image of its own inputs. -/
theorem cache_transparent [NewcReader] (fp : Fingerprint) (json : RecordJson)
    (trace : List (Call × Option (Except BootImageError PreparedBootArtifacts) × Files))
    (h : Calls fsWorld (fun call => prepareBootArtifacts fp json call) noFiles trace) :
    ∀ call artifacts files, (call, some (.ok artifacts), files) ∈ trace →
      artifacts.kernel = call.kernel ∧
      ∃ image, call.image = .ok image ∧ files artifacts.rootfs = some image := by
  intro call artifacts files hmem
  have hsafe := h.safe (fun call files => safe_prepare fp json call) (images_noFiles fp)
  exact (hsafe _ hmem).2 _ rfl artifacts rfl

/-- An empty base, no user entries and an init binary of one byte. -/
def smallCall : Call where
  base := trailerBytes
  init := [0x7f]
  entries := []
  kernel := "vmlinuz"
  basePath := "rootfs.cpio"
  imageUuid := utf8 "1"
  recordUuid := utf8 "2"

set_option maxRecDepth 10000 in
theorem interp_smallCall (fp : Fingerprint) (json : RecordJson) :
    (Prog.interp faultless (prepareBootArtifacts fp json smallCall) noFiles).1 =
      .ok ⟨smallCall.kernel, imageName (fp.rootfsManifestKey smallCall.base
        (withInit [] smallCall.init) [])⟩ := by
  obtain ⟨image, hbuild⟩ : ∃ image,
      buildImage smallCall.base (withInit [] smallCall.init) [] = .ok image := ⟨_, rfl⟩
  have hvalid : validateEntries smallCall.entries = .ok ⟨[], []⟩ := rfl
  have hhead := head_key fp smallCall.base (withInit [] smallCall.init) []
  revert hhead
  unfold prepareBootArtifacts prepareInner
  simp only [hvalid, ExceptT.mk, ExceptT.run, bind, ExceptT.bind, ExceptT.bindCont, Prog.bind,
    Prog.call, Prog.interp, withContext, Fs.buildInit, Fs.readHost, faultless, pure]
  generalize fp.rootfsManifestKey smallCall.base (withInit [] smallCall.init) [] = key
  intro hhead
  -- the four files have different names
  have hne : ∀ name uuid, tempPath name uuid ≠ imageName key := fun _ _ => tempPath_ne hhead _ _
  have hne' := tempPath_imageName_ne key smallCall.recordUuid smallCall.imageUuid
  simp [hbuild, orOverlay, cacheHit, readJson, atomicWrite, writeTemp, publishTemp,
    artifactMetadata, fileIdentity, Fs.createDirAll, Fs.createNew, Fs.writeAll, Fs.syncAll,
    Fs.rename, Fs.read, ExceptT.mk, ExceptT.run, bind, ExceptT.bind, ExceptT.bindCont, Prog.bind,
    Prog.call, Prog.interp, faultless, noFiles, pure, ExceptT.pure, hne, hne']

/-- A call that is cut off at once, then one that builds the image. -/
theorem cache_transparent_smallCall : ∃ fp json trace artifacts files image,
    Calls fsWorld (fun call => prepareBootArtifacts fp json call) noFiles trace ∧
      (smallCall, some (.ok artifacts), files) ∈ trace ∧
      smallCall.image = .ok image ∧ files artifacts.rootfs = some image := by
  obtain ⟨fp⟩ := Fingerprint.nonempty
  let json : RecordJson := ⟨fun _ => none, fun _ => []⟩
  have hrun := exec_interp fsWorld_faultless (prepareBootArtifacts fp json smallCall) noFiles
  rw [interp_smallCall] at hrun
  have htrace : Calls fsWorld (fun call => prepareBootArtifacts fp json call) noFiles
      ((smallCall, none, noFiles) :: _) := .cons (.crash _ noFiles) (.cons hrun (.nil _))
  obtain ⟨-, image', himage', hthere⟩ :=
    cache_transparent fp json _ htrace smallCall _ _ (mem_cons_of_mem _ mem_cons_self)
  exact ⟨fp, json, _, _, _, image', htrace, mem_cons_of_mem _ mem_cons_self, himage', hthere⟩

end Jyth.Boot
