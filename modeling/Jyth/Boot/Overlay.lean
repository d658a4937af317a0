import Jyth.Boot.GuestPath
import Jyth.Lib.Table

/-!
# The merged rootfs image and its cache key

`overlay_to_cpio`, `rootfs_manifest_key` and the assembly path of
`boot-image/src/{overlay,assembly}.rs`: user entries are validated, `/init` is
added, directories and files are written in path order behind the base archive.

    assemble base entries init = .ok image → image parses as the entries of base,
      the directories, the files                                        (buildImage_eq_ok)

The key is a hash of a manifest.  Under an injective hash and serialisation it
determines everything the image is made of (`rootfsManifestKey_injective`).
-/

namespace Jyth.Boot

open Format Jyth.Image LastHit List GuestPath NewcReader

/-! ## `overlay_to_cpio` -/

def rootfsInodeBase : UInt32 := 0x80000000

def builder (name : Bytes) : Record := { Image.trailer with name }

def dirRecord (dir : ValidatedDir) : Record :=
  { builder dir.path.cpioName with mode := 0o040000 ||| (dir.mode &&& 0o777), nlink := 2 }

def fileRecord (file : ResolvedFile) : Record :=
  { builder file.path.cpioName with
    mode := 0o100000 ||| (file.mode &&& 0o777), nlink := 1, body := .owned file.data }

/-- One entry is written with the next inode number, which wraps. -/
def emit (state : Bytes × UInt32) (record : Record) : Bytes × UInt32 :=
  (state.1 ++ (Item.entry { record with ino := state.2 }).bytes, state.2 + 1)

def emitFile (state : Bytes × UInt32) (file : ResolvedFile) :
    Except OverlayReport (Bytes × UInt32) :=
  let size := file.data.length
  if 2 ^ 32 ≤ size then
    .error ⟨.fileTooLarge, [.text ("file: " ++ file.path.displayPath),
      .text s!"size: {size} bytes (max: 4294967295 bytes)"]⟩
  else .ok (emit state (fileRecord file))

def overlayToCpio [NewcReader] (resolved : List ResolvedFile) (dirs : List ValidatedDir) :
    Except OverlayReport Bytes := do
  let state := dirs.foldl (fun state dir => emit state (dirRecord dir)) ([], rootfsInodeBase)
  let state ← resolved.foldlM emitFile state
  return state.1 ++ trailerBytes

/-! ## Assembly -/

def initOverlayFile (bytes : Bytes) : ResolvedFile where
  path := ⟨"init".toList⟩
  mode := 0o755
  data := bytes
  origin := "crate:init"

/-- The validated files with the pid-1 stage among them. -/
def withInit (files : List ResolvedFile) (init : Bytes) : List ResolvedFile :=
  sortByPath ResolvedFile.path (files ++ [initOverlayFile init])

def buildImage [NewcReader] (base : Bytes) (resolved : List ResolvedFile) (dirs : List ValidatedDir) :
    Except OverlayReport Bytes := do
  let overlay ← overlayToCpio resolved dirs
  mergeRootfs base overlay

def orOverlay {α : Type} : Except OverlayReport α → Except BootImageError α
  | .ok a => .ok a
  | .error report => .error (.overlay report)

/-- What `prepare_boot_artifacts` builds, the cache apart. -/
def assemble [NewcReader] (base : Bytes) (entries : List GuestOverlayEntry) (init : Bytes) :
    Except BootImageError Bytes := do
  let overlay ← validateEntries entries
  orOverlay (buildImage base (withInit overlay.files init) overlay.dirs)

/-! ## What is written -/

/-- Consecutive inode numbers. -/
def number : UInt32 → List Record → List Record
  | _, [] => []
  | ino, record :: records => { record with ino } :: number (ino + 1) records

def recordBytes (record : Record) : Bytes := (Item.entry record).bytes

def archiveEntry (record : Record) : ArchiveEntry :=
  ⟨headerOf record (UInt32.ofNat record.body.bytes.length), record.body.bytes⟩

theorem foldl_emit (records : List Record) (out : Bytes) (ino : UInt32) :
    records.foldl emit (out, ino) =
      (out ++ (number ino records).flatMap recordBytes, ino + UInt32.ofNat records.length) := by
  induction records generalizing out ino with
  | nil => simp [number]
  | cons record records ih =>
    rw [foldl_cons, emit, ih, number, flatMap_cons]
    simp only [recordBytes, append_assoc, length_cons, Prod.mk.injEq, true_and]
    rw [UInt32.ofNat_add, UInt32.add_assoc, UInt32.add_comm (UInt32.ofNat records.length)]
    rfl

theorem forall₂_number (ino : UInt32) (records : List Record) :
    List.Forall₂ (fun numbered record => ∃ ino, numbered = { record with ino })
      (number ino records) records := by
  induction records generalizing ino with
  | nil => exact .nil
  | cons record records ih => exact .cons ⟨ino, rfl⟩ (ih _)

/-- The records of an overlay: directories first, so that parents come before files. -/
def overlayRecords (resolved : List ResolvedFile) (dirs : List ValidatedDir) : List Record :=
  number rootfsInodeBase (dirs.map dirRecord ++ resolved.map fileRecord)

theorem emitFile_eq_ok (state state' : Bytes × UInt32) (file : ResolvedFile) :
    emitFile state file = .ok state' ↔
      file.data.length < 2 ^ 32 ∧ state' = emit state (fileRecord file) := by
  unfold emitFile
  by_cases h : 2 ^ 32 ≤ file.data.length
  · simp only [if_pos h, reduceCtorEq, false_iff]
    omega
  · simp only [if_neg h, Except.ok.injEq]
    constructor
    · rintro rfl
      exact ⟨by omega, rfl⟩
    · rintro ⟨-, rfl⟩
      rfl

theorem foldlM_emitFile (files : List ResolvedFile) (state state' : Bytes × UInt32) :
    files.foldlM emitFile state = .ok state' ↔ (∀ file ∈ files, file.data.length < 2 ^ 32) ∧
        state' = (files.map fileRecord).foldl emit state := by
  induction files generalizing state with
  | nil =>
    rw [foldlM_nil, pure_eq_ok]
    simp [eq_comm]
  | cons file files ih =>
    rw [foldlM_cons, bind_eq_ok, forall_mem_cons, map_cons, foldl_cons]
    simp only [ih, emitFile_eq_ok, existsAndEq, and_assoc, true_and]

theorem overlayToCpio_eq_ok [NewcReader] (resolved : List ResolvedFile) (dirs : List ValidatedDir)
    (bytes : Bytes) : overlayToCpio resolved dirs = .ok bytes ↔
      (∀ file ∈ resolved, file.data.length < 2 ^ 32) ∧
        bytes = (overlayRecords resolved dirs).flatMap recordBytes ++ trailerBytes := by
  have hdirs : dirs.foldl (fun state dir => emit state (dirRecord dir)) ([], rootfsInodeBase) =
      (dirs.map dirRecord).foldl emit ([], rootfsInodeBase) := foldl_map.symm
  rw [overlayToCpio, bind_eq_ok]
  simp only [foldlM_emitFile, pure_eq_ok, hdirs]
  rw [← foldl_append, foldl_emit, nil_append]
  simp only [overlayRecords, existsAndEq, and_assoc, true_and, @eq_comm _ bytes]

/-! ## Reading the image back -/

/-- A record that can be written and is not taken for the trailer. -/
structure RecordOk (record : Record) : Prop where
  name : NameOk record.name
  notTrailer : record.name ≠ trailerName
  size : record.body.bytes.length < 2 ^ 32

variable {init : Bytes} {file : ResolvedFile} {record : Record} {entries : List GuestOverlayEntry}
  {v : ValidatedOverlay}

theorem RecordOk.withIno (h : RecordOk record) (ino : UInt32) :
    RecordOk { record with ino } := ⟨h.name, h.notTrailer, h.size⟩

theorem body_records [NewcReader] {records : List Record} (h : ∀ record ∈ records, RecordOk record) :
    Body (records.map archiveEntry) (records.flatMap recordBytes) := by
  induction records with
  | nil => exact .nil
  | cons record records ih =>
    have hrecord := h record mem_cons_self
    have hbytes : recordBytes record = encodeHeader record
        (UInt32.ofNat record.body.bytes.length) (record.name.length + 1) ++
          (record.body.bytes ++ pad record.body.bytes.length) := append_assoc _ _ _
    rw [map_cons, flatMap_cons, hbytes, append_assoc]
    exact .cons (reads_new hrecord.name _) (decide_eq_false hrecord.notTrailer)
      (reads_payload hrecord.size) (ih fun r hr => h r (mem_cons_of_mem _ hr))

variable {path : GuestPath} {resolved : List ResolvedFile}

theorem name_ne_trailer (h : path.isReserved = false) : path.cpioName ≠ trailerName := by
  intro hname
  have hpath : path = ⟨"TRAILER!!!".toList⟩ := cpioName_injective hname
  rw [hpath] at h
  exact absurd h (by decide)

theorem name_ne_init (h : path.isReserved = false) : path.cpioName ≠ utf8 "init" := by
  intro hname
  have hpath : path = ⟨"init".toList⟩ := cpioName_injective hname
  rw [hpath] at h
  exact absurd h (by decide)

theorem recordOk_dir {dir : ValidatedDir} (h : PathOk dir.path) : RecordOk (dirRecord dir) :=
  ⟨h.name, name_ne_trailer h.free, show 0 < 2 ^ 32 by decide⟩

theorem recordOk_file (h : PathOk file.path)
    (hsize : file.data.length < 2 ^ 32) : RecordOk (fileRecord file) :=
  ⟨h.name, name_ne_trailer h.free, hsize⟩

theorem recordOk_init (hsize : init.length < 2 ^ 32) :
    RecordOk (fileRecord (initOverlayFile init)) := by
  have hname : NameOk (cpioName ⟨"init".toList⟩) := by
    refine ⟨by decide, ?_, by decide⟩
    rw [fromUtf8?_cpioName]
    rfl
  exact ⟨hname, show cpioName ⟨"init".toList⟩ ≠ trailerName by decide, hsize⟩

theorem mode_init (init : Bytes) : (fileRecord (initOverlayFile init)).mode = 0o100755 := by
  show (0o100000 ||| (0o755 &&& 0o777) : UInt32) = 0o100755
  decide

theorem mem_withInit {files : List ResolvedFile} :
    file ∈ withInit files init ↔ file ∈ files ∨ file = initOverlayFile init := by
  rw [withInit, sortByPath, mem_insertionSort, mem_append, mem_singleton]

theorem mem_overlayRecords {dirs : List ValidatedDir} (h : record ∈ overlayRecords resolved dirs) :
    ∃ ino, (∃ dir ∈ dirs, record = { dirRecord dir with ino }) ∨
      ∃ file ∈ resolved, record = { fileRecord file with ino } := by
  obtain ⟨source, hsource, ino, rfl⟩ := exists_right_of_forall₂ (forall₂_number rootfsInodeBase _) h
  rcases mem_append.1 hsource with hsource | hsource
  · obtain ⟨dir, hdir, rfl⟩ := mem_map.1 hsource
    exact ⟨ino, .inl ⟨dir, hdir, rfl⟩⟩
  · obtain ⟨file, hfile, rfl⟩ := mem_map.1 hsource
    exact ⟨ino, .inr ⟨file, hfile, rfl⟩⟩

theorem exists_mem_overlayRecords (dirs : List ValidatedDir) (h : file ∈ resolved) :
    ∃ ino, { fileRecord file with ino } ∈ overlayRecords resolved dirs := by
  have hmem : fileRecord file ∈ dirs.map dirRecord ++ resolved.map fileRecord :=
    mem_append_right _ (mem_map_of_mem h)
  obtain ⟨record, hrecord, ino, rfl⟩ :=
    exists_left_of_forall₂ (forall₂_number rootfsInodeBase _) hmem
  exact ⟨ino, hrecord⟩

theorem assemble_eq_ok [NewcReader] (base : Bytes) (entries : List GuestOverlayEntry)
    (init image : Bytes) :
    assemble base entries init = .ok image ↔ ∃ v, validateEntries entries = .ok v ∧
        buildImage base (withInit v.files init) v.dirs = .ok image := by
  have horOverlay : ∀ x : Except OverlayReport Bytes, orOverlay x = .ok image ↔ x = .ok image := by
    intro x
    cases x <;> simp [orOverlay]
  rw [assemble, bind_eq_ok]
  simp only [horOverlay]

section

variable (hv : validateEntries entries = .ok v)
include hv

theorem recordOk_of_mem (hsize : ∀ file ∈ withInit v.files init, file.data.length < 2 ^ 32)
    (h : record ∈ overlayRecords (withInit v.files init) v.dirs) : RecordOk record := by
  obtain ⟨hfiles, hdirs⟩ := validateEntries_paths hv
  obtain ⟨ino, ⟨dir, hdir, rfl⟩ | ⟨file, hfile, rfl⟩⟩ := mem_overlayRecords h
  · exact (recordOk_dir (hdirs dir hdir)).withIno ino
  · have hlen := hsize file hfile
    rcases mem_withInit.1 hfile with hmem | rfl
    · exact (recordOk_file (hfiles file hmem) hlen).withIno ino
    · exact (recordOk_init hlen).withIno ino

theorem buildImage_eq_ok [NewcReader] (base image : Bytes) :
    buildImage base (withInit v.files init) v.dirs = .ok image ↔
      (∀ file ∈ withInit v.files init, file.data.length < 2 ^ 32) ∧
        ∃ parsed body last, Complete base parsed body last ∧ image = body ++
          (overlayRecords (withInit v.files init) v.dirs).flatMap recordBytes ++ trailerBytes := by
  rw [buildImage, bind_eq_ok]
  simp only [overlayToCpio_eq_ok]
  constructor
  · rintro ⟨_, ⟨hsize, rfl⟩, hmerge⟩
    have hoverlay := complete_of_body (body_records fun record h => recordOk_of_mem hv hsize h)
    obtain ⟨body, hbase, -⟩ := bind_eq_ok.1 hmerge
    obtain ⟨parsed, last, hcomplete⟩ := stripTrailer_eq_ok.1 hbase
    have hmerged := (mergeRootfs_complete hcomplete hoverlay).1
    rw [hmerge] at hmerged
    exact ⟨hsize, parsed, body, last, hcomplete, Except.ok.inj hmerged⟩
  · rintro ⟨hsize, parsed, body, last, hcomplete, rfl⟩
    have hoverlay := complete_of_body (body_records fun record h => recordOk_of_mem hv hsize h)
    exact ⟨_, ⟨hsize, rfl⟩, (mergeRootfs_complete hcomplete hoverlay).1⟩

theorem lastWhere_init (init : Bytes) (parsed : List ArchiveEntry) :
    ∃ ino, lastWhere (fun e => e.header.name = utf8 "init")
        (parsed ++ (overlayRecords (withInit v.files init) v.dirs).map archiveEntry) =
      some (archiveEntry { fileRecord (initOverlayFile init) with ino }) := by
  obtain ⟨hfiles, hdirs⟩ := validateEntries_paths hv
  obtain ⟨ino, hmem⟩ := exists_mem_overlayRecords v.dirs
    (mem_withInit.2 (.inr rfl) : initOverlayFile init ∈ withInit v.files init)
  rw [lastWhere_append]
  cases hlast : lastWhere (fun e => e.header.name = utf8 "init")
      ((overlayRecords (withInit v.files init) v.dirs).map archiveEntry) with
  | none =>
    have := lastWhere_eq_none.1 hlast _ (mem_map_of_mem hmem)
    exact absurd this (by simp [archiveEntry, headerOf, fileRecord, builder, initOverlayFile,
      cpioName])
  | some found =>
    obtain ⟨hfound, hname⟩ := lastWhere_eq_some hlast
    obtain ⟨record, hrecord, rfl⟩ := mem_map.1 hfound
    have hname : record.name = utf8 "init" := of_decide_eq_true hname
    obtain ⟨ino', ⟨dir, hdir, rfl⟩ | ⟨file, hfile, rfl⟩⟩ := mem_overlayRecords hrecord
    · exact absurd hname (name_ne_init (hdirs dir hdir).free)
    · rcases mem_withInit.1 hfile with hmem | rfl
      · exact absurd hname (name_ne_init (hfiles file hmem).free)
      · exact ⟨ino', rfl⟩

end

/-- **The rootfs merge.**  What `strip_trailer` accepts merges into an archive
with the entries of the base, then those of the overlay, then one trailer and
nothing more.  In an assembled image the last entry named `init` is the given
binary; an image is assembled from any accepted entries and base unless a file
exceeds the format. -/
theorem merged_image_entries [NewcReader] : (∀ base overlay body body' : Bytes,
      stripTrailer "base rootfs" base = .ok body →
      stripTrailer "overlay rootfs" overlay = .ok body' →
      ∃ entries last tail entries' last' tail' merged,
        parseArchive base = .ok ((entries, last), tail) ∧
        parseArchive overlay = .ok ((entries', last'), tail') ∧
        mergeRootfs base overlay = .ok merged ∧
        parseArchive merged = .ok ((entries ++ entries', trailerEntry), [])) ∧
    (∀ (base : Bytes) (entries : List GuestOverlayEntry) (init image : Bytes),
      assemble base entries init = .ok image →
      ∃ parsed header, parseArchive image = .ok ((parsed, trailerEntry), []) ∧
        lastWhere (fun e => e.header.name = utf8 "init") parsed = some ⟨header, init⟩ ∧
        header.mode = 0o100755) ∧
    (∀ (base : Bytes) (entries : List GuestOverlayEntry) (init : Bytes),
      (∃ image, assemble base entries init = .ok image) ↔
        ∃ v body, validateEntries entries = .ok v ∧ stripTrailer "base rootfs" base = .ok body ∧
          ∀ file ∈ withInit v.files init, file.data.length < 2 ^ 32) := by
  refine ⟨fun base overlay body body' h h' => ?_, fun base entries init image h => ?_,
    fun base entries init => ?_⟩
  · obtain ⟨entries, last, hcomplete⟩ := stripTrailer_eq_ok.1 h
    obtain ⟨entries', last', hcomplete'⟩ := stripTrailer_eq_ok.1 h'
    obtain ⟨tail, hparse, -⟩ := hcomplete.parse
    obtain ⟨tail', hparse', -⟩ := hcomplete'.parse
    exact ⟨entries, last, tail, entries', last', tail', _, hparse, hparse',
      mergeRootfs_complete hcomplete hcomplete'⟩
  · obtain ⟨v, hv, hbuild⟩ := (assemble_eq_ok _ _ _ _).1 h
    obtain ⟨hsize, parsed, body, last, hcomplete, rfl⟩ := (buildImage_eq_ok hv base image).1 hbuild
    obtain ⟨ino, hinit⟩ := lastWhere_init hv init parsed
    exact ⟨_, _, parseArchive_complete (hcomplete.whole.append
      (body_records fun record h => recordOk_of_mem hv hsize h)), hinit, mode_init init⟩
  · simp only [assemble_eq_ok]
    constructor
    · rintro ⟨image, v, hv, hbuild⟩
      obtain ⟨hsize, parsed, body, last, hcomplete, -⟩ := (buildImage_eq_ok hv base image).1 hbuild
      exact ⟨v, body, hv, stripTrailer_eq_ok.2 ⟨parsed, last, hcomplete⟩, hsize⟩
    · rintro ⟨v, body, hv, hbase, hsize⟩
      obtain ⟨parsed, last, hcomplete⟩ := stripTrailer_eq_ok.1 hbase
      exact ⟨_, v, hv, (buildImage_eq_ok hv base _).2 ⟨hsize, parsed, body, last, hcomplete, rfl⟩⟩

/-! ## The cache key -/

structure FileManifest where
  origin : String
  path : Bytes
  mode : UInt32
  digest : Bytes
  size : UInt64
deriving DecidableEq

structure DirManifest where
  path : Bytes
  mode : UInt32
deriving DecidableEq

/-- What the key of a merged rootfs is hashed from. -/
structure RootfsManifest where
  schemaVersion : UInt32
  base : Bytes
  baseSize : UInt64
  files : List FileManifest
  dirs : List DirManifest
deriving DecidableEq

def cacheSchemaVersion : UInt32 := 2

/-- BLAKE3 (the digits of the hash) and the JSON text of a manifest, both taken
to be injective. -/
structure Fingerprint where
  blake3 : Bytes → Bytes
  toJson : RootfsManifest → Bytes
  blake3_injective : Function.Injective blake3
  toJson_injective : Function.Injective toJson

def RootfsManifest.parts (m : RootfsManifest) :
    Nat × Bytes × Nat × List (String × Bytes × Nat × Bytes × Nat) × List (Bytes × Nat) :=
  (m.schemaVersion.toNat, m.base, m.baseSize.toNat,
    m.files.map fun f => (f.origin, f.path, f.mode.toNat, f.digest, f.size.toNat),
    m.dirs.map fun d => (d.path, d.mode.toNat))

theorem RootfsManifest.parts_injective : Function.Injective RootfsManifest.parts := by
  intro m m' h
  simp only [parts, Prod.mk.injEq, UInt32.toNat_inj, UInt64.toNat_inj] at h
  obtain ⟨hversion, hbase, hsize, hfiles, hdirs⟩ := h
  have hfile : Function.Injective fun f : FileManifest =>
      (f.origin, f.path, f.mode.toNat, f.digest, f.size.toNat) := by
    rintro ⟨⟩ ⟨⟩ h
    simpa [UInt32.toNat_inj, UInt64.toNat_inj] using h
  have hdir : Function.Injective fun d : DirManifest => (d.path, d.mode.toNat) := by
    rintro ⟨⟩ ⟨⟩ h
    simpa [UInt32.toNat_inj] using h
  cases m
  cases m'
  simp_all [map_injective_iff.2 hfile |>.eq_iff, map_injective_iff.2 hdir |>.eq_iff]

/-- The assumptions can be met: manifests are countable. -/
theorem Fingerprint.nonempty : Nonempty Fingerprint := by
  have hbyte : Countable UInt8 := Function.Injective.countable fun _ _ h => UInt8.toNat_inj.1 h
  have hchar : Countable Char := Function.Injective.countable fun _ _ h => Char.toNat_inj.1 h
  have hstring : Countable String := Function.Injective.countable fun _ _ h => String.toList_inj.1 h
  have hmanifest : Countable RootfsManifest := RootfsManifest.parts_injective.countable
  obtain ⟨code, hcode⟩ := exists_injective_nat RootfsManifest
  refine ⟨⟨id, fun m => List.replicate (code m) 0, Function.injective_id, fun m m' h => ?_⟩⟩
  exact hcode (replicate_left_injective 0 h)

namespace Fingerprint

variable (fp : Fingerprint)

/-- `format!("blake3_{}", …)`. -/
def digest (bytes : Bytes) : Bytes := utf8 "blake3_" ++ fp.blake3 bytes

def fileManifest (file : ResolvedFile) : FileManifest where
  origin := file.origin
  path := file.path.cpioName
  mode := file.mode
  digest := fp.digest file.data
  size := UInt64.ofNat file.data.length

def dirManifest (dir : ValidatedDir) : DirManifest := ⟨dir.path.cpioName, dir.mode⟩

def rootfsManifestKey (baseBytes : Bytes) (resolved : List ResolvedFile)
    (dirs : List ValidatedDir) : Bytes :=
  let manifest : RootfsManifest :=
    { schemaVersion := cacheSchemaVersion
      base := fp.digest baseBytes
      baseSize := UInt64.ofNat baseBytes.length
      files := resolved.map fp.fileManifest
      dirs := dirs.map dirManifest }
  fp.digest (fp.toJson manifest)

theorem digest_injective : Function.Injective fp.digest := fun _ _ h =>
  fp.blake3_injective (append_cancel_left h)

theorem fileManifest_injective : Function.Injective fp.fileManifest := by
  intro file file' h
  have hpath := cpioName_injective (congrArg FileManifest.path h)
  have hdata := fp.digest_injective (congrArg FileManifest.digest h)
  have hmode : file.mode = file'.mode := congrArg FileManifest.mode h
  have horigin : file.origin = file'.origin := congrArg FileManifest.origin h
  cases file
  cases file'
  simp_all

theorem dirManifest_injective : Function.Injective dirManifest := by
  intro dir dir' h
  have hpath := cpioName_injective (congrArg DirManifest.path h)
  have hmode : dir.mode = dir'.mode := congrArg DirManifest.mode h
  cases dir
  cases dir'
  simp_all

theorem rootfsManifestKey_injective {base base' : Bytes} {resolved resolved' : List ResolvedFile}
    {dirs dirs' : List ValidatedDir}
    (h : fp.rootfsManifestKey base resolved dirs = fp.rootfsManifestKey base' resolved' dirs') :
    base = base' ∧ resolved = resolved' ∧ dirs = dirs' := by
  have hmanifest := fp.toJson_injective (fp.digest_injective h)
  refine ⟨fp.digest_injective (congrArg RootfsManifest.base hmanifest), ?_, ?_⟩
  · exact map_injective_iff.2 fp.fileManifest_injective (congrArg RootfsManifest.files hmanifest)
  · exact map_injective_iff.2 dirManifest_injective (congrArg RootfsManifest.dirs hmanifest)

end Fingerprint

/-- A base, the init program and the entries over it. -/
structure Request where
  base : Bytes
  init : Bytes
  entries : List GuestOverlayEntry

namespace Request

def image [NewcReader] (r : Request) : Except BootImageError Bytes := assemble r.base r.entries r.init

def key (fp : Fingerprint) (r : Request) : Except BootImageError Bytes := do
  let overlay ← validateEntries r.entries
  return fp.rootfsManifestKey r.base (withInit overlay.files r.init) overlay.dirs

theorem key_eq_ok (fp : Fingerprint) (r : Request) (key : Bytes) :
    r.key fp = .ok key ↔ ∃ v, validateEntries r.entries = .ok v ∧
      key = fp.rootfsManifestKey r.base (withInit v.files r.init) v.dirs := by
  simp only [Request.key, bind_eq_ok, pure_eq_ok, @eq_comm _ key]

end Request

/-- **The cache key is sound.**  Two requests with one key have the same image,
or fail in the same way, and the order of the user's entries does not matter to
the key. -/
theorem request_key_sound [NewcReader] (fp : Fingerprint) (r r' : Request) (key : Bytes) :
    (r.key fp = .ok key → r'.key fp = .ok key → r.image = r'.image) ∧
    (r'.base = r.base → r'.init = r.init → r.entries.Perm r'.entries →
      (r.key fp = .ok key ↔ r'.key fp = .ok key)) := by
  constructor
  · intro h h'
    obtain ⟨v, hv, rfl⟩ := (r.key_eq_ok fp key).1 h
    obtain ⟨v', hv', hkey⟩ := (r'.key_eq_ok fp _).1 h'
    obtain ⟨hbase, hfiles, hdirs⟩ := fp.rootfsManifestKey_injective hkey
    have himage : ∀ (q : Request) (w : ValidatedOverlay), validateEntries q.entries = .ok w →
        q.image = orOverlay (buildImage q.base (withInit w.files q.init) w.dirs) := by
      intro q w hw
      rw [Request.image, assemble, hw]
      rfl
    rw [himage r v hv, himage r' v' hv', hbase, hfiles, hdirs]
  · intro hbase hinit hperm
    rw [Request.key_eq_ok, Request.key_eq_ok, hbase, hinit]
    constructor
    · rintro ⟨v, hv, rfl⟩
      exact ⟨v, validateEntries_perm hperm hv, rfl⟩
    · rintro ⟨v, hv, rfl⟩
      exact ⟨v, validateEntries_perm hperm.symm hv, rfl⟩

end Jyth.Boot
