import Jyth.Image.LinkPlan

/-!
# What `convert` writes

The calls a successful `convert` makes of the writer (`Emitted`): for each member that is not
a hard link its own record (`memberItem_eq_ok`), and behind it the records of the links that
the plan holds back for it.
-/

namespace Jyth.Image.Cpio

open Format List

/-! ## Members -/

inductive FileType
  | regular | directory | symlink | char | block | fifo
deriving DecidableEq

/-- A TAR member: its header and the bytes of its body. -/
structure Member where
  header : TarHeaderSnapshot
  body : Bytes

def memberOf (entry : TarEntry) : Except Report Member := do
  let header ← snapshotEntry entry
  return ⟨header, (Source.bytes entry.reader).take entry.size.toNat⟩

def Member.path (member : Member) : Bytes := member.header.path

def headersOf (members : List Member) : List TarHeaderSnapshot := members.map Member.header

def tarType : EntryType → Option FileType
  | .regular | .continuous => some .regular
  | .directory => some .directory
  | .symlink => some .symlink
  | .char => some .char
  | .block => some .block
  | .fifo => some .fifo
  | _ => none

def cpioType (mode : UInt32) : Option FileType :=
  if mode &&& 0o170000 = 0o100000 then some .regular
  else if mode &&& 0o170000 = 0o040000 then some .directory
  else if mode &&& 0o170000 = 0o120000 then some .symlink
  else if mode &&& 0o170000 = 0o020000 then some .char
  else if mode &&& 0o170000 = 0o060000 then some .block
  else if mode &&& 0o170000 = 0o010000 then some .fifo
  else none

/-! ## The calls -/

/-- The calls of the writer for the members `tar`, with the links in `pending` still to be written. -/
inductive Emitted (plan : LinkPlan) (headers : List TarHeaderSnapshot) :
    PathMap (List Bytes) → List TarEntry → List Item → Prop
  | nil {pending} : Emitted plan headers pending [] []
  | link {pending entry live rest items} : snapshotEntry entry = .ok live → live.isHardLink = true →
    Emitted plan headers pending rest items → Emitted plan headers pending (entry :: rest) items
  | member {pending entry live rest item links items} : snapshotEntry entry = .ok live →
    live.isHardLink = false → memberItem plan live entry.reader = .ok item →
    List.Forall₂ (fun path link => deferredItem plan headers path = .ok link)
      ((pending[live.path]?).getD []) links →
    Emitted plan headers (pending.erase live.path) rest items →
    Emitted plan headers pending (entry :: rest) (item :: links ++ items)

variable {plan : LinkPlan} {headers : List TarHeaderSnapshot} {header : TarHeaderSnapshot}
  {tar : List TarEntry} {entry : TarEntry} {type : UInt32} {item : Item}

variable {progress : Progress} {live : TarHeaderSnapshot} {items : List Item} {target : Bytes}
  {reader : Source String}

theorem convertStep_eq_ok {next : Progress}
    (h : convertStep plan headers progress entry = .ok next) :
    ∃ live, snapshotEntry entry = .ok live ∧
      (live.isHardLink = true ∧ next.writer = progress.writer ∧ next.pending = progress.pending ∨
        live.isHardLink = false ∧ ∃ item links, memberItem plan live entry.reader = .ok item ∧
          List.Forall₂ (fun path link => deferredItem plan headers path = .ok link)
            ((progress.pending[live.path]?).getD []) links ∧
          writeItems progress.writer (item :: links) = .ok next.writer ∧
          next.pending = progress.pending.erase live.path) := by
  rw [convertStep, bind_eq_ok] at h
  obtain ⟨live, hlive, h⟩ := h
  refine ⟨live, hlive, ?_⟩
  split at h
  · cases h
  rw [check_bind_eq_ok] at h
  obtain ⟨-, h⟩ := h
  cases hlink : live.isHardLink with
  | true =>
    rw [hlink, if_pos rfl, check_bind_eq_ok, pure_eq_ok] at h
    exact .inl ⟨rfl, by rw [← h.2], by rw [← h.2]⟩
  | false =>
    rw [hlink, if_neg (by decide), bind_eq_ok] at h
    obtain ⟨item, hitem, h⟩ := h
    obtain ⟨writer, hwriter, h⟩ := bind_eq_ok.1 h
    refine .inr ⟨rfl, item, ?_⟩
    cases hpending : progress.pending[live.path]? with
    | none =>
      rw [hpending, pure_eq_ok] at h
      refine ⟨[], hitem, .nil, ?_, ?_⟩
      · rw [← h]
        exact bind_eq_ok.2 ⟨writer, hwriter, rfl⟩
      · rw [erase_of_getElem?_none hpending, ← h]
    | some deferred =>
      rw [hpending] at h
      obtain ⟨writer', hlinks, h⟩ := bind_eq_ok.1 h
      obtain ⟨links, hdeferred, hwrite⟩ := (foldlM_bind_eq_ok _ _ _ _ _).1 hlinks
      rw [pure_eq_ok] at h
      refine ⟨links, hitem, hdeferred, ?_, ?_⟩
      · rw [← h]
        exact bind_eq_ok.2 ⟨writer, hwriter, hwrite⟩
      · rw [← h]

theorem writeItems_append {w w' w'' : TempWriter} {items' : List Item}
    (h : writeItems w items = .ok w') (h' : writeItems w' items' = .ok w'') :
    writeItems w (items ++ items') = .ok w'' := by
  rw [writeItems, foldlM_append, bind_eq_ok]
  exact ⟨w', h, h'⟩

theorem foldlM_convertStep {lives : List TarHeaderSnapshot}
    {final : Progress} (hlives : tar.mapM snapshotEntry = .ok lives)
    (h : tar.foldlM (convertStep plan headers) progress = .ok final) :
    ∃ items, Emitted plan headers progress.pending tar items ∧
      writeItems progress.writer items = .ok final.writer ∧ final.pending =
        (knownTargets lives).foldl (fun map path => map.erase path) progress.pending := by
  rw [mapM_eq_ok] at hlives
  induction hlives generalizing progress with
  | nil =>
    rw [foldlM_nil, pure_eq_ok] at h
    rw [← h]
    exact ⟨[], .nil, rfl, rfl⟩
  | @cons entry live rest lives hlive _ ih =>
    rw [foldlM_cons, bind_eq_ok] at h
    obtain ⟨next, hstep, h⟩ := h
    obtain ⟨items, hitems, hwrite, hfinal⟩ := ih h
    obtain ⟨live', hlive', hcase⟩ := convertStep_eq_ok hstep
    obtain rfl : live' = live := Except.ok.inj (hlive'.symm.trans hlive)
    rcases hcase with ⟨hlink, hwriter, hpending⟩ |
      ⟨hlink, item, links, hitem, hlinks, hwriter, hpending⟩
    · rw [hwriter] at hwrite
      rw [hpending] at hitems hfinal
      refine ⟨items, .link hlive hlink hitems, hwrite, ?_⟩
      rw [hfinal, knownTargets, knownTargets, filter_cons, hlink]
      rfl
    · rw [hpending] at hitems hfinal
      refine ⟨item :: links ++ items, .member hlive hlink hitem hlinks hitems,
        writeItems_append hwriter hwrite, ?_⟩
      rw [hfinal, knownTargets, knownTargets, filter_cons, hlink]
      rfl

theorem map_header_memberOf (h : tar.mapM snapshotEntry = .ok headers) :
    ∃ members, tar.mapM memberOf = .ok members ∧ headersOf members = headers := by
  rw [mapM_eq_ok] at h
  induction h with
  | nil => exact ⟨[], rfl, rfl⟩
  | @cons entry header rest headers hentry _ ih =>
    obtain ⟨members, hmembers, hheaders⟩ := ih
    refine ⟨⟨header, (Source.bytes entry.reader).take entry.size.toNat⟩ :: members, ?_, ?_⟩
    · rw [mapM_cons, bind_eq_ok]
      refine ⟨_, ?_, bind_eq_ok.2 ⟨members, hmembers, rfl⟩⟩
      rw [memberOf, hentry]
      rfl
    · rw [← hheaders]
      rfl

theorem convert_eq_ok {hash : KeyOrder} {bytes : TempWriter}
    (h : convert hash tar tar = .ok bytes) : ∃ members items, tar.mapM memberOf = .ok members ∧
      Emitted (planLinks hash (headersOf members)) (headersOf members)
        (planLinks hash (headersOf members)).pending tar items ∧ writeArchive items = .ok bytes ∧
      ∀ header ∈ headersOf members, header.isHardLink = true →
        header.target ∈ knownTargets (headersOf members) := by
  rw [convert, bind_eq_ok] at h
  obtain ⟨headers, hheaders, h⟩ := h
  obtain ⟨progress, hprogress, h⟩ := bind_eq_ok.1 h
  rw [check_bind_eq_ok, check_bind_eq_ok, failIf_eq_ok, failIf_eq_ok] at h
  obtain ⟨-, hdone, htrailer⟩ := h
  obtain ⟨items, hitems, hwrite, hpending⟩ := foldlM_convertStep hheaders hprogress
  obtain ⟨members, hmembers, rfl⟩ := map_header_memberOf hheaders
  refine ⟨members, items, hmembers, hitems, bind_eq_ok.2 ⟨_, hwrite, htrailer⟩, ?_⟩
  intro header hmem hlink
  by_contra hunknown
  have hgroup : linksTo (headersOf members) header.target ≠ [] :=
    ne_nil_of_mem (mem_linksTo.2 ⟨header, hmem, hlink, rfl, rfl⟩)
  have hleft : progress.pending[header.target]? =
      some (linksTo (headersOf members) header.target) := by
    rw [hpending, getElem?_foldl_erase, if_neg hunknown, pending_planLinks]
    exact collectLinks_eq_some.2 ⟨rfl, hgroup⟩
  have hkey : header.target ∈ progress.pending.keys := by
    rw [Std.ExtTreeMap.mem_keys, Std.ExtTreeMap.mem_iff_isSome_getElem?, hleft]
    rfl
  exact hdone (.inl (ne_nil_of_mem hkey))

/-! ## Records -/

theorem or_and_mask (x y mask : UInt32) : (x ||| y) &&& mask = (x &&& mask) ||| (y &&& mask) :=
  UInt32.eq_of_toBitVec_eq BitVec.and_or_distrib_right

theorem perm_of_mode (x : UInt32) (h : type &&& 0o7777 = 0) :
    ((x &&& 0o7777) ||| type) &&& 0o7777 = x &&& 0o7777 := by
  have hmask : (0o7777 : UInt32) &&& 0o7777 = 0o7777 := rfl
  rw [or_and_mask, h, UInt32.or_zero, UInt32.and_assoc, hmask]

theorem type_of_mode (x : UInt32) (h : type &&& 0o170000 = type) :
    ((x &&& 0o7777) ||| type) &&& 0o170000 = type := by
  have hmask : (0o7777 : UInt32) &&& 0o170000 = 0 := rfl
  rw [or_and_mask, h, UInt32.and_assoc, hmask, UInt32.and_zero, UInt32.zero_or]

def recordType : EntryType → Option FileType
  | .link => some .regular
  | type => tarType type

def recordBody (header : TarHeaderSnapshot) : Bytes :=
  if header.entryType = .symlink then header.symlinkTarget.getD [] else []

/-- What `build_record` makes of a header. -/
structure RecordOf (header : TarHeaderSnapshot) (identity : Option LinkId) (nlink : UInt32)
    (record : Record) : Prop where
  name : record.name = header.path
  nlink : record.nlink = nlink
  identity : identity = some ⟨record.devMajor, record.ino⟩
  type : cpioType record.mode = recordType header.entryType
  perm : record.mode &&& 0o7777 = header.mode &&& 0o7777
  body : record.body.bytes = recordBody header

theorem cpioType_of_mode (x : UInt32) (h : type &&& 0o170000 = type) :
    cpioType (x &&& 0o7777 ||| type) = cpioType type := by
  rw [cpioType, type_of_mode x h, cpioType, h]

theorem modeAndBody_eq_ok {mode : UInt32} {body : Body}
    (h : modeAndBody header = .ok (mode, body)) : cpioType mode = recordType header.entryType ∧
      mode &&& 0o7777 = header.mode &&& 0o7777 ∧ body.bytes = recordBody header := by
  unfold modeAndBody at h
  cases htype : header.entryType with
  | regular | continuous =>
    simp only [htype] at h
    split at h
    · cases h
    · cases h
      exact ⟨cpioType_of_mode _ rfl, perm_of_mode _ rfl, by rw [recordBody, htype]; rfl⟩
  | symlink =>
    simp only [htype] at h
    split at h
    · rename_i target htarget
      cases h
      refine ⟨cpioType_of_mode _ rfl, perm_of_mode _ rfl, ?_⟩
      rw [recordBody, if_pos htype, htarget]
      rfl
    · cases h
  | directory | link | char | block | fifo =>
    simp only [htype] at h
    cases h
    exact ⟨cpioType_of_mode _ rfl, perm_of_mode _ rfl, by rw [recordBody, htype]; rfl⟩
  | gnuLongName | gnuLongLink | gnuSparse | xGlobalHeader | xHeader | other =>
    simp only [htype] at h
    cases h

theorem buildRecord_eq_ok {identity : Option LinkId} {nlink : UInt32}
    {record : Record} (h : buildRecord header identity nlink = .ok record) :
    RecordOf header identity nlink record := by
  rw [buildRecord, bind_eq_ok] at h
  obtain ⟨id, hid, h⟩ := h
  have hidentity : identity = some id := by
    cases identity with
    | none => cases hid
    | some id' => rw [Except.ok.inj hid]
  rw [check_bind_eq_ok] at h
  obtain ⟨⟨mode, body⟩, hmode, h⟩ := bind_eq_ok.1 h.2
  rw [pure_eq_ok] at h
  obtain ⟨htype, hperm, hbody⟩ := modeAndBody_eq_ok hmode
  rw [← h]
  exact ⟨rfl, rfl, hidentity, htype, hperm, hbody⟩

/-- What a snapshot repeats of its entry. -/
structure SnapshotOf (entry : TarEntry) (header : TarHeaderSnapshot) : Prop where
  path : ∃ raw, checkUtf8 entry.pathBytes = .ok raw ∧ normalizePath raw = .ok header.path
  entryType : header.entryType = entry.entryType
  size : header.size = entry.size

theorem snapshotEntry_eq_ok (h : snapshotEntry entry = .ok header) : SnapshotOf entry header := by
  rw [snapshotEntry, bind_eq_ok] at h
  obtain ⟨raw, hraw, h⟩ := h
  obtain ⟨path, hpath, h⟩ := bind_eq_ok.1 h
  obtain ⟨linkName, -, h⟩ := bind_eq_ok.1 h
  obtain ⟨uid, -, h⟩ := bind_eq_ok.1 h
  obtain ⟨gid, -, h⟩ := bind_eq_ok.1 h
  obtain ⟨mtime, -, h⟩ := bind_eq_ok.1 h
  rw [pure_eq_ok] at h
  rw [← h]
  exact ⟨⟨raw, hraw, hpath⟩, rfl, rfl⟩

theorem memberItem_eq_ok (h : memberItem plan live reader = .ok item) :
    RecordOf live (plan.identityFor live.path) (plan.nlinkFor live.path) item.record ∧
      item.body = if live.entryType = .regular ∨ live.entryType = .continuous then
        (Source.bytes reader).take live.size.toNat else recordBody live := by
  rw [memberItem, bind_eq_ok] at h
  obtain ⟨record, hrecord, h⟩ := h
  have hof := buildRecord_eq_ok hrecord
  split at h
  · rename_i hfile
    split at h
    · cases h
    rename_i hsize
    cases h
    have htoNat : (UInt32.ofNat live.size.toNat).toNat = live.size.toNat := by
      rw [UInt32.toNat_ofNat']
      omega
    refine ⟨hof, ?_⟩
    rw [if_pos hfile, Item.body, htoNat]
  · rename_i hother
    cases h
    exact ⟨hof, by rw [if_neg hother, ← hof.body]; rfl⟩

theorem memberOf_eq_ok {member : Member}
    (h : memberOf entry = .ok member) (hheader : snapshotEntry entry = .ok header) :
    member = ⟨header, (Source.bytes entry.reader).take header.size.toNat⟩ := by
  rw [memberOf, hheader] at h
  rw [(snapshotEntry_eq_ok hheader).size]
  exact (Except.ok.inj h).symm

/-! ## Small archives -/

def sortedOrder : KeyOrder := ⟨id, fun _ => .refl _⟩

def tarFile (name content : String) : TarEntry where
  pathBytes := utf8 name
  linkNameBytes := none
  entryType := .regular
  mode := 0o644
  uid := 0
  gid := 0
  mtime := 0
  size := UInt64.ofNat (utf8 content).length
  deviceMajor := none
  deviceMinor := none
  reader := Source.ofBytes (utf8 content)

def tarLink (name target : String) : TarEntry :=
  { tarFile name "" with linkNameBytes := some (utf8 target), entryType := .link }

def forwardLink : List TarEntry := [tarLink "b" "a", tarFile "a" "1"]

end Jyth.Image.Cpio
