import Jyth.Boot.GuestPath
import Jyth.Hcs.Lifecycle
import Jyth.Protocol.BootConfig
import Jyth.VmModel.Lexical

/-!
# The validated configuration of a VM

`vm-model`: disks (`disk.rs`) and `VmConfig::new` (`config.rs`), and the name of the lock a disk
path is claimed with (`path_lock_name` of `hypervisor-hcs`).  A host path is what the standard
library reads in it, with any prefix.  The checks of the boot artifacts' paths are left out.

    accepted together → different files ↔ no two paths differ in case only
    one file → one lock ↔ one spelling of the prefix and of the names   (disk_names_faithful_iff)
-/

namespace Jyth.VmModel

open Format Hcs List
open Lexical (Name ParsedPath Part colon backslash normalizeLexically Plain Escapes)

/-! ## Names of files -/

section HostPath

def asciiUpper (u : UInt16) : UInt16 := if 0x61 ≤ u && u ≤ 0x7a then u - 0x20 else u

/-- `\\?\`. -/
def verbatim : Name := [backslash, backslash, 0x3f, backslash]

def upperDrive : Name → Name
  | [letter, second] => if second = colon then [asciiUpper letter, second] else [letter, second]
  | name => name

/-- What is compared of a prefix: a drive letter without its case, and either separator, which
only a verbatim prefix takes as it is. -/
def prefixKey (volume : Name) : Name :=
  if verbatim.isPrefixOf volume then verbatim ++ upperDrive (volume.drop 4)
  else upperDrive (volume.map fun u => if u = 0x2f then backslash else u)

/-- What `PathBuf` compares: the names exactly. -/
def key (path : Lexical.PathBuf) : Name × Bool × List Name :=
  (prefixKey path.volume, path.rooted, path.names)

/-- What the file system compares, with its table of upper-case letters. -/
def fold (upcase : UInt16 → UInt16) (volume : Name) (names : List Name) : Name × List Name :=
  ((prefixKey volume).map upcase, names.map (·.map upcase))

/-- The two paths lead to one file. -/
def SameFile (upcase : UInt16 → UInt16) (p q : ParsedPath) : Prop :=
  fold upcase p.volume p.location = fold upcase q.volume q.location

def text (path : Lexical.PathBuf) : Name :=
  path.volume ++ (if path.rooted then [backslash] else []) ++ [backslash].intercalate path.names

def lockBytes (path : Lexical.PathBuf) : Bytes := (text path).flatMap leBytes

def pathLockName (sha256 : Bytes → Bytes) (path : Lexical.PathBuf) : Text :=
  utf8 "Local\\jyth-disk-" ++ (sha256 (lockBytes path)).flatMap fun b => toHex 2 b.toNat

end HostPath

/-! ## Disks -/

section Disk

inductive DiskError
  | mountPathEmpty | mountPathRelative | mountPathReserved | mountPathDotComponent
  | mountPathContainsInvalidCharacter
  | hostPathRelative | hostPathNotVhdx | hostPathContainsNul | hostPathAboveRoot | sizeZero
deriving DecidableEq

def reservedGuestMountPaths : List String := ["/", "/proc", "/sys", "/dev", "/run", "/jyth"]

def isWhitespace (c : Char) : Bool :=
  let n := c.toNat
  (0x09 ≤ n && n ≤ 0x0d) || n = 0x20 || n = 0x85 || n = 0xa0 || n = 0x1680 ||
    (0x2000 ≤ n && n ≤ 0x200a) || n = 0x2028 || n = 0x2029 || n = 0x202f || n = 0x205f || n = 0x3000

def isControl (c : Char) : Bool :=
  let n := c.toNat
  n < 0x20 || (0x7f ≤ n && n < 0xa0)

def invalidChar (c : Char) : Bool :=
  c = Boot.GuestPath.nul || isWhitespace c || c = ',' || c = ':' || isControl c

def dotComponent (segment : List Char) : Bool :=
  segment = [] || segment = ['.'] || segment = ['.', '.']

def checkGuestMount (path : String) : Except DiskError Unit := do
  failIf (path.toList = []) .mountPathEmpty
  failIf (path.toList.head? ≠ some '/') .mountPathRelative
  failIf (path ∈ reservedGuestMountPaths ∨ "/jyth/".toList <+: path.toList) .mountPathReserved
  failIf (((path.toList.splitOn '/').drop 1).any dotComponent = true) .mountPathDotComponent
  failIf (path.toList.any invalidChar = true) .mountPathContainsInvalidCharacter

structure GuestMount where
  path : String
  valid : checkGuestMount path = .ok ()

def fileName (path : ParsedPath) : Name :=
  match path.parts.getLast? with
  | some (.normal name) => name
  | _ => []

/-- The extension of the last name, if there is one before a dot that is not its first unit. -/
def extension (path : ParsedPath) : Name :=
  let name := fileName path
  let tail := (name.reverse.takeWhile (· ≠ 0x2e)).reverse
  if tail.length + 1 < name.length then tail else []

def containsNul (path : ParsedPath) : Bool :=
  path.volume.contains 0 || path.parts.any fun
    | .normal name => name.contains 0
    | _ => false

def vhdx : List UInt16 := [0x56, 0x48, 0x44, 0x58]

/-- The checks of `DiskSpec::new`. -/
def checkDisk (hostPath : ParsedPath) (createSizeMb : UInt64) : Except DiskError Unit := do
  failIf (hostPath.isAbsolute = false) .hostPathRelative
  failIf ((extension hostPath).map asciiUpper ≠ vhdx) .hostPathNotVhdx
  failIf (containsNul hostPath = true) .hostPathContainsNul
  failIf ((normalizeLexically hostPath).toOption = none) .hostPathAboveRoot
  failIf (createSizeMb = 0) .sizeZero

/-- A disk that was checked by itself. -/
structure DiskSpec where
  hostPath : ParsedPath
  createSizeMb : UInt64
  guestMount : GuestMount
  retention : DiskRetention
  onExisting : ExistingDiskPolicy
  valid : checkDisk hostPath createSizeMb = .ok ()

/-- It does not fail on a path that was accepted. -/
def DiskSpec.normalizedHostPath (disk : DiskSpec) : Except Lexical.PathError Lexical.PathBuf :=
  normalizeLexically disk.hostPath

def DiskSpec.normalizedKey (disk : DiskSpec) : Option (Name × Bool × List Name) :=
  disk.normalizedHostPath.toOption.map key

end Disk

/-! ## The configuration -/

section Config

inductive VmConfigError
  | cpuZero | memoryZero | duplicateDiskHostPath | duplicateGuestMount
deriving DecidableEq

/-- The disk loop: `paths` and `mounts` are those already seen. -/
def checkDisks (paths : List (Option (Name × Bool × List Name))) (mounts : List String) :
    List DiskSpec → Except VmConfigError Unit
  | [] => return
  | disk :: rest => do
    failIf (disk.normalizedKey ∈ paths) .duplicateDiskHostPath
    failIf (disk.guestMount.path ∈ mounts) .duplicateGuestMount
    checkDisks (disk.normalizedKey :: paths) (disk.guestMount.path :: mounts) rest

def checkConfig (cpuUnits memoryMb : UInt64) (disks : List DiskSpec) : Except VmConfigError Unit := do
  failIf (cpuUnits = 0) .cpuZero
  failIf (memoryMb = 0) .memoryZero
  checkDisks [] [] disks

variable {disks : List DiskSpec}

theorem checkDisks_eq_ok {paths : List (Option (Name × Bool × List Name))}
    {mounts : List String} (h : checkDisks paths mounts disks = .ok ()) :
    (disks.map (·.normalizedKey)).Nodup ∧ (disks.map (·.guestMount.path)).Nodup ∧
      ∀ disk ∈ disks, disk.normalizedKey ∉ paths ∧ disk.guestMount.path ∉ mounts := by
  induction disks generalizing paths mounts with
  | nil => simp
  | cons disk rest ih =>
    simp only [checkDisks, check_bind_eq_ok, failIf_eq_ok] at h
    obtain ⟨hpath, hmount, hrest⟩ := h
    obtain ⟨hpaths, hmounts, hnew⟩ := ih hrest
    simp only [mem_cons, not_or] at hnew
    refine ⟨?_, ?_, ?_⟩
    · refine nodup_cons.2 ⟨fun hmem => ?_, hpaths⟩
      obtain ⟨other, hother, hsame⟩ := mem_map.1 hmem
      exact (hnew other hother).1.1 hsame
    · refine nodup_cons.2 ⟨fun hmem => ?_, hmounts⟩
      obtain ⟨other, hother, hsame⟩ := mem_map.1 hmem
      exact (hnew other hother).2.1 hsame
    · intro other hother
      rcases mem_cons.1 hother with rfl | hother
      · exact ⟨hpath, hmount⟩
      · exact ⟨(hnew other hother).1.2, (hnew other hother).2.2⟩

theorem nodup_of_checkConfig {cpuUnits memoryMb : UInt64}
    (h : checkConfig cpuUnits memoryMb disks = .ok ()) :
    (disks.map (·.normalizedKey)).Nodup ∧ (disks.map (·.guestMount.path)).Nodup := by
  simp only [checkConfig, check_bind_eq_ok] at h
  obtain ⟨hpaths, hmounts, -⟩ := checkDisks_eq_ok h.2.2
  exact ⟨hpaths, hmounts⟩

end Config

/-! ## One file, one name -/

section Names

variable {upcase : UInt16 → UInt16} {p q : ParsedPath} {a b : Lexical.PathBuf}

/-- Compared as they are spelled, the paths differ, but not for the file system. -/
def CaseVariant (upcase : UInt16 → UInt16) (a b : Lexical.PathBuf) : Prop :=
  key a ≠ key b ∧ fold upcase a.volume a.names = fold upcase b.volume b.names

/-- The path of an accepted disk is absolute and stays below its root. -/
theorem DiskSpec.normalizedHostPath_eq (disk : DiskSpec) (hplain : Plain disk.hostPath.parts) :
    disk.normalizedHostPath = .ok ⟨disk.hostPath.volume, true, disk.hostPath.location⟩ := by
  have hvalid := disk.valid
  simp only [checkDisk, check_bind_eq_ok, failIf_eq_ok, Bool.not_eq_false] at hvalid
  obtain ⟨habsolute, -, -, hbelow, -⟩ := hvalid
  have hrooted : disk.hostPath.rooted = true := (Bool.and_eq_true_iff.1 habsolute).2
  have hstays : ¬Escapes disk.hostPath.parts := fun hescapes => by
    rw [Lexical.normalizeLexically_of_absolute habsolute,
      Lexical.foldlM_of_escapes hescapes rfl] at hbelow
    exact hbelow rfl
  rw [DiskSpec.normalizedHostPath, Lexical.normalizeLexically_of_plain habsolute hplain hstays,
    hrooted]

theorem length_prefixKey (volume : Name) : (prefixKey volume).length = volume.length := by
  have hupper : ∀ name, (upperDrive name).length = name.length := by
    intro name
    unfold upperDrive
    split
    · split <;> rfl
    · rfl
  unfold prefixKey
  split
  · next h =>
    obtain ⟨rest, rfl⟩ := isPrefixOf_iff_prefix.1 h
    rw [length_append, length_append, hupper]
    rfl
  · rw [hupper, length_map]

theorem pathLockName_eq_iff {sha256 : Bytes → Bytes} :
    pathLockName sha256 a = pathLockName sha256 b ↔ sha256 (lockBytes a) = sha256 (lockBytes b) := by
  refine ⟨fun h => ?_, fun h => by rw [pathLockName, h, pathLockName]⟩
  refine flatMap_injective (f := fun b : UInt8 => toHex 2 b.toNat) (fun x y hxy => ?_)
    (fun _ => length_toHex 2 _) (append_cancel_left h)
  have hvalue := (ofHex?_toHex 2 x.toNat x.toNat_lt).symm.trans
    ((congrArg ofHex? hxy).trans (ofHex?_toHex 2 y.toNat y.toNat_lt))
  exact UInt8.toNat_inj.1 (Option.some.inj hvalue)

theorem intercalate_inj {names names' : List Name}
    (hlengths : names.map List.length = names'.map List.length)
    (h : [backslash].intercalate names = [backslash].intercalate names') : names = names' := by
  induction names generalizing names' with
  | nil => exact (map_eq_nil_iff.1 hlengths.symm).symm
  | cons name rest ih =>
    cases names' with
    | nil => cases hlengths
    | cons name' rest' =>
      obtain ⟨hlength, hrest⟩ := cons.inj hlengths
      cases rest with
      | nil =>
        obtain rfl := map_eq_nil_iff.1 hrest.symm
        simpa [List.intercalate] using h
      | cons second rest =>
        cases rest' with
        | nil => cases hrest
        | cons second' rest' =>
          rw [List.intercalate_cons_cons, List.intercalate_cons_cons, append_assoc, append_assoc] at h
          obtain ⟨hname, htail⟩ := append_inj h hlength
          rw [hname, ih hrest (append_cancel_left htail)]

/-- Texts of one file are as long in every part, so that they are equal part by part. -/
theorem text_inj (hfold : fold upcase a.volume a.names = fold upcase b.volume b.names)
    (hrooted : a.rooted = b.rooted) (h : text a = text b) : a = b := by
  obtain ⟨hvolumes, hnames⟩ := Prod.mk.inj hfold
  have hlength : a.volume.length = b.volume.length := by
    have hkeys := congrArg List.length hvolumes
    rwa [length_map, length_map, length_prefixKey, length_prefixKey] at hkeys
  have hlengths : a.names.map List.length = b.names.map List.length := by
    have hmaps := congrArg (·.map List.length) hnames
    simpa [Function.comp_def] using hmaps
  rw [text, text, hrooted, append_assoc, append_assoc] at h
  obtain ⟨hvolume, hrest⟩ := append_inj h hlength
  cases a
  cases b
  cases hvolume
  cases hrooted
  cases intercalate_inj hlengths (append_cancel_left hrest)
  rfl

theorem lockBytes_inj (h : lockBytes a = lockBytes b) : text a = text b :=
  flatMap_injective leBytes_injective (fun _ => length_leBytes _) h

def diskAt (n : UInt16) : ParsedPath :=
  ⟨[0x43, colon], true, [.normal [0x44], .normal [n, 0x2e, 0x56, 0x48, 0x44, 0x58]]⟩

theorem mount_data : checkGuestMount "/data" = .ok () := rfl

theorem mount_more : checkGuestMount "/more" = .ok () := rfl

theorem disk_upper : checkDisk (diskAt 0x41) 1 = .ok () := rfl

theorem disk_other : checkDisk (diskAt 0x62) 1 = .ok () := rfl

theorem disk_lower : checkDisk (diskAt 0x61) 1 = .ok () := rfl

def upperDisk : DiskSpec :=
  ⟨diskAt 0x41, 1, ⟨"/data", mount_data⟩, .persistent, .reuseAndKeep, disk_upper⟩

def otherDisk : DiskSpec :=
  ⟨diskAt 0x62, 1, ⟨"/more", mount_more⟩, .persistent, .reuseAndKeep, disk_other⟩

def lowerDisk : DiskSpec :=
  ⟨diskAt 0x61, 1, ⟨"/more", mount_more⟩, .persistent, .reuseAndKeep, disk_lower⟩

theorem plain_diskAt (n : UInt16) : Plain (diskAt n).parts := by
  simp [Plain, diskAt, Lexical.hasDrive, colon]

end Names

end Jyth.VmModel
