import Mathlib.Data.List.Shortlex
import Jyth.Lib.Segments
import Jyth.Protocol.BootConfig
import Jyth.VmModel.Config

/-!
# Disks in the guest

`ops/disks.rs` of the guest init: every disk of the boot configuration is awaited,
formatted if it is new, and mounted, in the order of the configuration.

The kernel names its disks by the words over `a` to `z` in shortlex order (`enumerates_word`).
The loop of `scsi_device_name` finds the letters of a name from the last to the first and
pushes each to the end, so a name comes out reversed.

A mount covers everything at and below its mount point.  So what a path leads to is
decided by the last mount at the path or above it, and else it is on the root file
system (`Namespace`).  Mount paths go through no symbolic links here.

    scsiDeviceName n = /dev/sd ++ reverse (word n)                     (scsiDeviceName_reverse)
    every mount path leads to its disk ↔ parents before children       (disks_visible_iff)
-/

namespace Jyth.Guest.Disks

open Format Protocol List

/-! ## Names of devices -/

section Words

def letter (n : Nat) : Char := Char.ofNat (0x61 + n % 26)

/-- The letters of a device in base 26 without a zero digit, the last digit first. -/
def digits : Nat → Nat → List Char
  | 0, _ => []
  | fuel + 1, n =>
    letter n :: if n / 26 = 0 then [] else digits fuel (n / 26 - 1)

/-- The init pushes each digit to the end of the name. -/
def scsiDeviceName (index : Nat) : List Char := "/dev/sd".toList ++ digits (index + 1) index

variable {n : Nat} {α : Type} {s t : List α} {r : α → α → Prop}

theorem lex_append (h : List.Lex r s t)
    (hlength : s.length = t.length) (x y : List α) : List.Lex r (s ++ x) (t ++ y) := by
  induction h with
  | nil => cases hlength
  | rel hlt => exact .rel hlt
  | cons _ ih => exact .cons (ih (Nat.succ.inj hlength))

theorem shortlex_concat (h : List.Shortlex r s t)
    (a b : α) : List.Shortlex r (s ++ [a]) (t ++ [b]) := by
  rcases shortlex_def.1 h with hlt | ⟨heq, hlex⟩
  · exact .of_length_lt (by simpa using hlt)
  · exact .of_lex (by simpa using heq) (lex_append hlex heq _ _)

theorem toNat_letter (n : Nat) : (letter n).toNat = 0x61 + n % 26 := by
  have hall : ∀ d < 26, (Char.ofNat (0x61 + d)).toNat = 0x61 + d := by decide
  exact hall _ (Nat.mod_lt _ (by decide))

def IsLower (c : Char) : Prop := 'a' ≤ c ∧ c ≤ 'z'

theorem isLower_letter (n : Nat) : IsLower (letter n) := by
  have hall : ∀ d < 26, 'a' ≤ Char.ofNat (0x61 + d) ∧ Char.ofNat (0x61 + d) ≤ 'z' := by decide
  exact hall _ (Nat.mod_lt _ (by decide))

theorem exists_letter {c : Char} (h : IsLower c) : ∃ r < 26, ∀ n, n % 26 = r → letter n = c := by
  have hlow : 0x61 ≤ c.toNat := Char.le_def.1 h.1
  have hhigh : c.toNat < 0x61 + 26 := Nat.lt_succ_of_le (Char.le_def.1 h.2)
  refine ⟨c.toNat - 0x61, by omega, fun n hn => Char.toNat_inj.1 ?_⟩
  rw [toNat_letter]
  omega

theorem letter_lt_succ (h : n % 26 < 25) : letter n < letter (n + 1) := by
  rw [Char.lt_def, UInt32.lt_iff_toNat_lt]
  change (letter n).toNat < (letter (n + 1)).toNat
  rw [toNat_letter, toNat_letter]
  omega

/-- The name of the `n`-th disk, without `/dev/sd`. -/
def word (n : Nat) : List Char := (digits (n + 1) n).reverse

theorem digits_fuel {f g : Nat} (hf : n < f) (hg : n < g) : digits f n = digits g n := by
  induction f generalizing g n with
  | zero => exact absurd hf (Nat.not_lt_zero _)
  | succ f ih =>
    obtain ⟨g, rfl⟩ := Nat.exists_eq_succ_of_ne_zero (Nat.ne_zero_of_lt hg)
    rw [digits, digits]
    split
    · rfl
    · rw [ih (by omega) (by omega : n / 26 - 1 < g)]

theorem word_eq (n : Nat) :
    word n = (if n / 26 = 0 then [] else word (n / 26 - 1)) ++ [letter n] := by
  rw [word, digits, reverse_cons]
  split
  · rfl
  · rw [word, digits_fuel (by omega) (Nat.lt_succ_self _)]

theorem word_ne_nil (n : Nat) : word n ≠ [] := by
  rw [word_eq]
  exact append_ne_nil_of_right_ne_nil _ (cons_ne_nil _ _)

/-- The non-empty words over `a` to `z` in shortlex order. -/
structure Enumerates (f : Nat → List Char) : Prop where
  lower : ∀ n, f n ≠ [] ∧ ∀ c ∈ f n, IsLower c
  increasing : ∀ n, List.Shortlex (· < ·) (f n) (f (n + 1))
  complete : ∀ s, s ≠ [] → (∀ c ∈ s, IsLower c) → ∃ n, f n = s

theorem isLower_word (n : Nat) : ∀ c ∈ word n, IsLower c := by
  induction n using Nat.strong_induction_on with
  | _ n ih =>
    intro c hc
    rw [word_eq, mem_append, mem_singleton] at hc
    rcases hc with hc | rfl
    · split at hc
      · cases hc
      · exact ih _ (by omega) c hc
    · exact isLower_letter n

theorem word_lt_succ (n : Nat) : List.Shortlex (· < ·) (word n) (word (n + 1)) := by
  induction n using Nat.strong_induction_on with
  | _ n ih =>
    rw [word_eq n, word_eq (n + 1)]
    by_cases hcarry : n % 26 < 25
    · rw [show (n + 1) / 26 = n / 26 by omega]
      exact .append_left ((shortlex_singleton_iff _ _).2 (letter_lt_succ hcarry)) _
    · -- the last letter starts over, and the word before it goes one on
      rw [show (n + 1) / 26 = n / 26 + 1 by omega, if_neg (Nat.succ_ne_zero _)]
      split
      · next hzero => exact .of_length_lt (by simp [hzero, length_pos_iff, word_ne_nil])
      · next hmore =>
        have hprefix := ih (n / 26 - 1) (by omega)
        rw [Nat.sub_add_cancel (Nat.pos_of_ne_zero hmore)] at hprefix
        exact shortlex_concat hprefix _ _

theorem exists_word (s : List Char) (hne : s ≠ []) (hlower : ∀ c ∈ s, IsLower c) :
    ∃ n, word n = s := by
  induction s using reverseRecOn with
  | nil => exact absurd rfl hne
  | append_singleton s c ih =>
    obtain ⟨r, hr, hletter⟩ := exists_letter (hlower c (by simp))
    by_cases hs : s = []
    · refine ⟨r, ?_⟩
      rw [word_eq, if_pos (by omega), hletter r (Nat.mod_eq_of_lt hr), hs]
    · obtain ⟨m, rfl⟩ := ih hs fun d hd => hlower d (mem_append_left _ hd)
      refine ⟨(m + 1) * 26 + r, ?_⟩
      rw [word_eq, if_neg (by omega), hletter _ (by omega),
        show ((m + 1) * 26 + r) / 26 - 1 = m by omega]

theorem enumerates_word : Enumerates word :=
  ⟨fun n => ⟨word_ne_nil n, isLower_word n⟩, word_lt_succ, exists_word⟩

theorem word_injective {m : Nat} (h : word m = word n) : m = n := by
  induction m using Nat.strong_induction_on generalizing n with
  | _ m ih =>
    rw [word_eq m, word_eq n] at h
    obtain ⟨hfront, hlast⟩ := append_inj' h rfl
    have hmod := congrArg Char.toNat (singleton_inj.1 hlast)
    rw [toNat_letter, toNat_letter] at hmod
    split at hfront <;> split at hfront
    · omega
    · exact absurd hfront.symm (word_ne_nil _)
    · exact absurd hfront (word_ne_nil _)
    · have := ih _ (by omega) hfront
      omega

/-- What the kernel calls the `n`-th disk: the first letter first. -/
def kernelDeviceName (n : Nat) : List Char := "/dev/sd".toList ++ word n

theorem kernelDeviceName_injective : Function.Injective kernelDeviceName :=
  fun _ _ h => word_injective (append_cancel_left h)

theorem scsiDeviceName_reverse (n : Nat) :
    scsiDeviceName n = "/dev/sd".toList ++ (word n).reverse := by
  unfold scsiDeviceName word
  rw [reverse_reverse]

theorem letter_eq_iff {m : Nat} : letter m = letter n ↔ m % 26 = n % 26 := by
  rw [← Char.toNat_inj, toNat_letter, toNat_letter]
  omega

theorem reverse_word_iff (h : n < 702) : (word n).reverse = word n ↔ n < 26 ∨ n % 27 = 26 := by
  rw [word_eq n]
  by_cases hone : n / 26 = 0
  · have hlow : n < 26 := by omega
    simp [hone, hlow]
  · have htwo : (n / 26 - 1) / 26 = 0 := by omega
    rw [if_neg hone, word_eq (n / 26 - 1), if_pos htwo]
    have hsame : letter n = letter (n / 26 - 1) ↔ n % 27 = 26 := by
      rw [letter_eq_iff]
      omega
    have hhigh : ¬ n < 26 := by omega
    simp only [nil_append, singleton_append, reverse_cons, reverse_nil, cons.injEq, and_true, hhigh,
      false_or, ← hsame]
    exact ⟨And.left, fun h => ⟨h, h.symm⟩⟩

/-- Names of one letter are right; of those of two letters, the ones with one letter twice. -/
theorem scsiDeviceName_eq_iff (h : n < 702) :
    scsiDeviceName n = kernelDeviceName n ↔ n < 26 ∨ n % 27 = 26 := by
  rw [← reverse_word_iff h, scsiDeviceName_reverse]
  exact ⟨append_cancel_left, congrArg _⟩

end Words

/-! ## Mounts -/

section Mounts

def names (path : String) : List (List Char) := (path.toList.splitOn '/').filter (· ≠ [])

theorem splitOn_of_checkGuestMount {path : String} (h : VmModel.checkGuestMount path = .ok ()) :
    path.toList.splitOn '/' = [] :: names path := by
  simp only [VmModel.checkGuestMount, check_bind_eq_ok, failIf_eq_ok, ne_eq, not_not] at h
  obtain ⟨-, hhead, -, hdots, -⟩ := h
  obtain ⟨rest, hrest⟩ := head?_eq_some_iff.1 hhead
  have hcut : path.toList.splitOn '/' = [] :: rest.splitOn '/' := by
    rw [hrest, splitOn_cons_eq_if_modifyHead, if_pos (beq_self_eq_true _)]
  have hfull : ∀ name ∈ rest.splitOn '/', name ≠ [] := by
    rintro name hname rfl
    rw [hcut, drop_one, tail_cons] at hdots
    exact hdots (any_eq_true.2 ⟨[], hname, rfl⟩)
  rw [names, hcut, filter_cons_of_neg (by simp), filter_eq_self.2 (by simpa using hfull)]

theorem names_injective {path path' : String} (h : VmModel.checkGuestMount path = .ok ())
    (h' : VmModel.checkGuestMount path' = .ok ()) (hnames : names path = names path') :
    path = path' := by
  refine String.toList_inj.1 (Segments.splitOn_injective '/' ?_)
  rw [splitOn_of_checkGuestMount h, splitOn_of_checkGuestMount h', hnames]

/-- The device whose file system a path is on, none for the root, and the path there. -/
abbrev Namespace := List (List Char) → Option (List Char) × List (List Char)

def rootNamespace : Namespace := fun path => (none, path)

def Namespace.mount (view : Namespace) (device : List Char) (point : List (List Char)) : Namespace :=
  fun path => if point <+: path then (some device, path.drop point.length) else view path

variable {view : Namespace} {device : List Char} {point path : List (List Char)}

theorem mount_self : view.mount device point point = (some device, []) := by
  simp [Namespace.mount]

theorem mount_of_not_isPrefix (h : ¬ point <+: path) : view.mount device point path = view path :=
  if_neg h

end Mounts

/-! ## The init -/

section Init

inductive InitError
  | diskDeviceMissing | io | diskFormatFailed | diskMountFailed
deriving DecidableEq

/-- One disk, as it is mounted. -/
structure MountEntry where
  device : List Char
  point : String
  initializes : Bool

/-- What the commands the init runs may answer. -/
structure Commands where
  appears : List Char → Bool
  makesDirectory : String → Bool
  formats : List Char → Bool
  mounts : List Char → String → Bool

def mountEntry (disk : GuestDiskConfigV1) : MountEntry :=
  ⟨scsiDeviceName disk.deviceIndex.toNat, disk.mountPath, disk.initializes⟩

def applyDisk (commands : Commands) (disk : MountEntry) (view : Namespace) :
    Except InitError Namespace := do
  failIf (commands.appears disk.device = false) .diskDeviceMissing
  failIf (commands.makesDirectory disk.point = false) .io
  failIf (disk.initializes = true ∧ commands.formats disk.device = false) .diskFormatFailed
  failIf (commands.mounts disk.device disk.point = false) .diskMountFailed
  return view.mount disk.device (names disk.point)

def applyDisks (commands : Commands) : List MountEntry → Namespace → Except InitError Namespace
  | [], view => return view
  | disk :: rest, view => do
    let view ← applyDisk commands disk view
    applyDisks commands rest view

def mountDisksWithConfig (commands : Commands) (disks : List GuestDiskConfigV1) :
    Except InitError Namespace :=
  applyDisks commands (disks.map mountEntry) rootNamespace

variable {commands : Commands} {view after : Namespace} {entries : List MountEntry}
  {path : List (List Char)}

theorem applyDisk_eq_ok {disk : MountEntry} (h : applyDisk commands disk view = .ok after) :
    commands.appears disk.device = true ∧ after = view.mount disk.device (names disk.point) := by
  simp only [applyDisk, check_bind_eq_ok, failIf_eq_ok, pure_eq_ok, Bool.not_eq_false] at h
  exact ⟨h.1, h.2.2.2.2.symm⟩

theorem applyDisks_appears (h : applyDisks commands entries view = .ok after) :
    ∀ disk ∈ entries, commands.appears disk.device = true := by
  induction entries generalizing view with
  | nil => simp
  | cons disk rest ih =>
    obtain ⟨next, hnext, hrest⟩ := bind_eq_ok.1 h
    exact forall_mem_cons.2 ⟨(applyDisk_eq_ok hnext).1, ih hrest⟩

theorem applyDisks_foldl (h : applyDisks commands entries view = .ok after) :
    after = entries.foldl (fun view disk => view.mount disk.device (names disk.point)) view := by
  induction entries generalizing view with
  | nil => exact (pure_eq_ok.1 h).symm
  | cons disk rest ih =>
    obtain ⟨next, hnext, hrest⟩ := bind_eq_ok.1 h
    rw [foldl_cons, ← (applyDisk_eq_ok hnext).2]
    exact ih hrest

theorem applyDisks_other (h : applyDisks commands entries view = .ok after)
    (hother : ∀ disk ∈ entries, ¬ names disk.point <+: path) : after path = view path := by
  induction entries generalizing view with
  | nil => rw [pure_eq_ok.1 h]
  | cons disk rest ih =>
    obtain ⟨next, hnext, hrest⟩ := bind_eq_ok.1 h
    rw [ih hrest fun d hd => hother d (mem_cons_of_mem _ hd), (applyDisk_eq_ok hnext).2]
    exact mount_of_not_isPrefix (hother disk mem_cons_self)

theorem applyDisks_covered (h : applyDisks commands entries view = .ok after)
    (hcovered : ∃ disk ∈ entries, names disk.point <+: path) :
    ∃ disk ∈ entries, names disk.point <+: path ∧
      after path = (some disk.device, path.drop (names disk.point).length) := by
  induction entries generalizing view with
  | nil => simp at hcovered
  | cons disk rest ih =>
    obtain ⟨next, hnext, hrest⟩ := bind_eq_ok.1 h
    by_cases hlater : ∃ d ∈ rest, names d.point <+: path
    · obtain ⟨d, hd, hcover⟩ := ih hrest hlater
      exact ⟨d, mem_cons_of_mem _ hd, hcover⟩
    · have hfirst : names disk.point <+: path := by
        obtain ⟨d, hd, hcover⟩ := hcovered
        rcases mem_cons.1 hd with rfl | hd
        · exact hcover
        · exact absurd ⟨d, hd, hcover⟩ hlater
      refine ⟨disk, mem_cons_self, hfirst, ?_⟩
      rw [applyDisks_other hrest fun d hd hcover => hlater ⟨d, hd, hcover⟩,
        (applyDisk_eq_ok hnext).2]
      exact if_pos hfirst

/-- No later mount point is at an earlier one or above it. -/
def ParentsFirst (entries : List MountEntry) : Prop :=
  entries.Pairwise fun earlier later => ¬ names later.point <+: names earlier.point

theorem applyDisks_visible_iff (hdistinct : (entries.map fun disk => names disk.point).Nodup)
    (h : applyDisks commands entries view = .ok after) :
    (∀ disk ∈ entries, after (names disk.point) = (some disk.device, [])) ↔
      ParentsFirst entries := by
  induction entries generalizing view with
  | nil => simp [ParentsFirst]
  | cons disk rest ih =>
    obtain ⟨next, hnext, hrest⟩ := bind_eq_ok.1 h
    obtain ⟨hnew, hdistinct⟩ := nodup_cons.1 hdistinct
    rw [forall_mem_cons, ih hdistinct hrest]
    unfold ParentsFirst
    rw [pairwise_cons]
    refine and_congr_left fun _ => ⟨fun hvisible later hlater hcover => ?_, fun hfirst => ?_⟩
    · -- what covers the path at the end is another disk, so it lies above the mount point
      obtain ⟨d, hd, habove, hview⟩ := applyDisks_covered hrest ⟨later, hlater, hcover⟩
      have hdrop := congrArg Prod.snd (hvisible.symm.trans hview)
      have hlength := drop_eq_nil_iff.1 hdrop.symm
      exact hnew (mem_map.2 ⟨d, hd, habove.eq_of_length_le hlength⟩)
    · rw [applyDisks_other hrest hfirst, (applyDisk_eq_ok hnext).2]
      exact mount_self

end Init

/-! ## Every disk is visible -/

/-- As `build_boot_config` numbers the disks, there are devices only for 27 of them at most:
with more, `apply_disks` waits for a device that none of 64 disks has. -/
theorem length_of_mounted {commands : Commands} {disks : List GuestDiskConfigV1} {view : Namespace}
    (hindex : disks.map (·.deviceIndex.toNat) = range disks.length)
    (hlength : disks.length ≤ maxDisks)
    (hdevices : ∀ device, commands.appears device = true →
      ∃ k < disks.length, device = kernelDeviceName k)
    (happly : mountDisksWithConfig commands disks = .ok view) : disks.length ≤ 27 := by
  have hwaits : ∀ n < disks.length, ∃ k < disks.length, scsiDeviceName n = kernelDeviceName k := by
    intro n hn
    obtain ⟨disk, hdisk, hn⟩ := mem_map.1 (hindex ▸ mem_range.2 hn)
    have happears := applyDisks_appears happly _ (mem_map_of_mem hdisk)
    exact hdevices _ (hn ▸ happears)
  by_contra hmany
  obtain ⟨k, hk, hname⟩ := hwaits 27 (by omega)
  obtain rfl : 52 = k := kernelDeviceName_injective hname
  obtain ⟨k, hk, hname⟩ := hwaits 28 (by omega)
  obtain rfl : 78 = k := kernelDeviceName_injective hname
  unfold maxDisks at hlength
  omega

/-- **Every disk is visible**, where `apply_disks` succeeds, exactly if parents are mounted
before their children.  The disks are numbered as `build_boot_config` numbers them, their
mount points are accepted, and the guest has the devices of these disks only. -/
theorem disks_visible_iff (commands : Commands) (disks : List GuestDiskConfigV1) (view : Namespace)
    (hmounts : ∀ disk ∈ disks, VmModel.checkGuestMount disk.mountPath = .ok ())
    (hdistinct : (disks.map (·.mountPath)).Nodup)
    (hindex : disks.map (·.deviceIndex.toNat) = range disks.length)
    (hlength : disks.length ≤ maxDisks)
    (hdevices : ∀ device, commands.appears device = true →
      ∃ k < disks.length, device = kernelDeviceName k)
    (happly : mountDisksWithConfig commands disks = .ok view) :
    (∀ disk ∈ disks, view (names disk.mountPath) =
      (some (kernelDeviceName disk.deviceIndex.toNat), [])) ↔
        ParentsFirst (disks.map mountEntry) := by
  have hfew := length_of_mounted hindex hlength hdevices happly
  have hname : ∀ disk ∈ disks,
      (mountEntry disk).device = kernelDeviceName disk.deviceIndex.toNat := by
    intro disk hdisk
    have hn := mem_range.1 (hindex ▸ mem_map_of_mem hdisk)
    exact (scsiDeviceName_eq_iff (by omega)).2 (by omega)
  have hpoints : ((disks.map mountEntry).map fun entry => names entry.point).Nodup := by
    rw [map_map]
    refine Nodup.map_on (fun disk hdisk disk' hdisk' hnames => ?_) hdistinct.of_map
    exact inj_on_of_nodup_map hdistinct hdisk hdisk'
      (names_injective (hmounts disk hdisk) (hmounts disk' hdisk') hnames)
  rw [← applyDisks_visible_iff hpoints happly, forall_mem_map]
  refine forall₂_congr fun disk hdisk => ?_
  rw [← hname disk hdisk]
  rfl

/-- A guest with two disks. -/
def twoDisks : Commands where
  appears device := device = kernelDeviceName 0 || device = kernelDeviceName 1
  makesDirectory _ := true
  formats _ := true
  mounts _ _ := true

def nested : List GuestDiskConfigV1 := [⟨0, "/a", false⟩, ⟨1, "/a/b", false⟩]

theorem nested_parentsFirst : ParentsFirst (nested.map mountEntry) := by
  unfold ParentsFirst
  decide +kernel

theorem twoDisks_devices : ∀ device, twoDisks.appears device = true →
    ∃ k < 2, device = kernelDeviceName k := by
  intro device h
  rcases Bool.or_eq_true_iff.1 h with h | h
  · exact ⟨0, by decide, of_decide_eq_true h⟩
  · exact ⟨1, by decide, of_decide_eq_true h⟩

theorem inner_mount : VmModel.checkGuestMount "/a/b" = .ok () := rfl

theorem outer_mount : VmModel.checkGuestMount "/a" = .ok () := rfl

theorem nested_disks_visible : ∃ view, mountDisksWithConfig twoDisks nested = .ok view ∧
    ∀ disk ∈ nested, view (names disk.mountPath) =
      (some (kernelDeviceName disk.deviceIndex.toNat), []) :=
  ⟨_, rfl, (disks_visible_iff twoDisks nested _
    (forall_mem_cons.2 ⟨outer_mount, forall_mem_singleton.2 inner_mount⟩) (by decide) rfl (by decide)
    twoDisks_devices rfl).2 nested_parentsFirst⟩

/-- The child before its parent. -/
def reversed : List GuestDiskConfigV1 := [⟨0, "/a/b", false⟩, ⟨1, "/a", false⟩]

/-- A disk that is mounted before its parent's is hidden by it: the two paths are accepted
as mounts and as a boot configuration, and the inner one leads to the outer disk. -/
theorem disk_hidden :
    VmModel.checkGuestMount "/a/b" = .ok () ∧ VmModel.checkGuestMount "/a" = .ok () ∧
      validateDisks [] [] reversed = .ok () ∧
      ∃ view, mountDisksWithConfig twoDisks reversed = .ok view ∧
        view (names "/a/b") = (some (kernelDeviceName 1), ["b".toList]) :=
  ⟨inner_mount, outer_mount, rfl, _, rfl, rfl⟩

/-! ## Disks and their names -/

/-- **Names.**  A name is the word of its index, reversed, and distinct indices have distinct
names.  Below 702 it is the kernel's name just for one letter and for one letter twice.  The
disks are mounted one after the other from the devices of these names; of the disks that
`build_boot_config` numbers, all have the device of their number just if there are at most 27. -/
theorem device_names_in_order (commands : Commands) (disks : List GuestDiskConfigV1) :
    Enumerates word ∧ Function.Injective scsiDeviceName ∧
    (∀ n, scsiDeviceName n = "/dev/sd".toList ++ (word n).reverse) ∧
    (∀ n < 702, scsiDeviceName n = "/dev/sd".toList ++ word n ↔ n < 26 ∨ n % 27 = 26) ∧
    (∀ view, mountDisksWithConfig commands disks = .ok view →
      view = (disks.map mountEntry).foldl
        (fun view disk => view.mount disk.device (names disk.point)) rootNamespace) ∧
    (disks.length ≤ maxDisks → disks.map (·.deviceIndex.toNat) = range disks.length →
      ((∀ disk ∈ disks, (mountEntry disk).device =
        "/dev/sd".toList ++ word disk.deviceIndex.toNat) ↔ disks.length ≤ 27)) := by
  refine ⟨enumerates_word, fun m n h => ?_, scsiDeviceName_reverse,
    fun n => scsiDeviceName_eq_iff, fun _ => applyDisks_foldl, fun hlength hindex => ?_⟩
  · rw [scsiDeviceName_reverse, scsiDeviceName_reverse] at h
    exact word_injective (reverse_injective (append_cancel_left h))
  · have hall : (∀ disk ∈ disks, (mountEntry disk).device =
        "/dev/sd".toList ++ word disk.deviceIndex.toNat) ↔
          ∀ n ∈ range disks.length, scsiDeviceName n = kernelDeviceName n := by
      rw [← hindex, forall_mem_map]
      rfl
    rw [hall]
    unfold maxDisks at hlength
    constructor
    · intro h
      by_contra hmany
      have := (scsiDeviceName_eq_iff (by decide)).1 (h 27 (mem_range.2 (by omega)))
      omega
    · intro hfew n hn
      have := mem_range.1 hn
      exact (scsiDeviceName_eq_iff (by omega)).2 (by omega)

/-- Twenty-eight disks on mount points of their own. -/
def manyDisks : List GuestDiskConfigV1 :=
  (range 28).map fun n => ⟨UInt16.ofNat n, "/" ++ String.ofList (replicate (n + 1) 'd'), false⟩

/-- The boot configuration allows 28 disks, and the last of them is mounted from the disk
with index 52. -/
theorem late_device_misnamed : manyDisks.length ≤ maxDisks ∧
    validateDisks [] [] manyDisks = .ok () ∧ Enumerates word ∧
    scsiDeviceName 27 ≠ "/dev/sd".toList ++ word 27 ∧
    scsiDeviceName 27 = "/dev/sd".toList ++ word 52 :=
  ⟨by decide, rfl, enumerates_word, by decide, rfl⟩

end Jyth.Guest.Disks
