import Jyth.Image.Newc

/-!
# Merging complete `newc` archives

`strip_trailer` and `merge_rootfs` of `boot-image/src/overlay.rs`, over any
reader that has what is assumed of the one in the `cpio` crate (`NewcReader`).

    stripTrailer archive bytes = .ok body → body is a sequence of whole entries   (stripTrailer_eq_ok)
    parseArchive (b ++ o ++ trailer) = the entries of b, then those of o          (parseArchive_body)
-/

namespace Jyth.Boot

open Format Jyth.Image List Exact Reads

/-! ## `cpio::NewcReader` -/

/-- The header of an entry. -/
structure NewcEntry where
  name : Bytes
  ino : UInt32
  mode : UInt32
  uid : UInt32
  gid : UInt32
  nlink : UInt32
  mtime : UInt32
  fileSize : UInt32
  devMajor : UInt32
  devMinor : UInt32
  rdevMajor : UInt32
  rdevMinor : UInt32
  check : UInt32
deriving DecidableEq

def padLen (len : Nat) : Nat := (4 - len % 4) % 4

def NewcEntry.isTrailer (entry : NewcEntry) : Bool := entry.name = trailerName

def headerOf (record : Record) (size : UInt32) : NewcEntry where
  name := record.name
  ino := record.ino
  mode := record.mode
  uid := record.uid
  gid := record.gid
  nlink := record.nlink
  mtime := record.mtime
  fileSize := size
  devMajor := record.devMajor
  devMinor := record.devMinor
  rdevMajor := record.rdevMajor
  rdevMinor := record.rdevMinor
  check := 0

/-- A name that can be written in front of its NUL. -/
structure NameOk (name : Bytes) : Prop where
  nulFree : 0 ∉ name
  utf8 : (fromUtf8? name).isSome
  fits : name.length + 1 < 2 ^ 32

def trailerEntry : NewcEntry := headerOf Image.trailer 0

theorem nameOk_trailer : NameOk Image.trailer.name := by
  refine ⟨by decide, ?_, by decide⟩
  show (fromUtf8? trailerName).isSome
  rw [(fromUtf8?_eq_some trailerName "TRAILER!!!").2 rfl]
  rfl

theorem bytes_trailer : (Item.entry Image.trailer).bytes =
    encodeHeader Image.trailer 0 (Image.trailer.name.length + 1) := by
  show encodeHeader Image.trailer (UInt32.ofNat 0) _ ++ [] ++ [] = _
  rw [append_nil, append_nil]
  rfl

/-- What is assumed of the `newc` module of the `cpio` crate: a header is told from what follows
it and takes bytes; the headers of `Builder` and the trailer are read back; `finish` skips what
is left of a payload, also where the input ends, and reads all of the padding. -/
class NewcReader where
  new : Reader Unit NewcEntry
  /-- `finish` of a reader that has handed out `consumed` bytes of the payload. -/
  finishAfter (entry : NewcEntry) (consumed : Nat) : Reader Unit Unit
  /-- What `trailer` appends. -/
  trailerBytes : Bytes
  framed_new : Framed new
  new_nil (entry : NewcEntry) (rest : Bytes) : new.run [] ≠ .ok (entry, rest)
  reads_new {record : Record} (h : NameOk record.name) (size : UInt32) :
    Reads new (headerOf record size) (encodeHeader record size (record.name.length + 1))
  reads_trailer : Reads new trailerEntry trailerBytes
  finishAfter_eq_ok (entry : NewcEntry) (consumed : Nat) (s tail : Bytes) :
    (finishAfter entry consumed).run s = .ok ((), tail) ↔
      ∃ pad : Bytes, pad.length = padLen entry.fileSize.toNat ∧
        s.drop (entry.fileSize.toNat - consumed) = pad ++ tail

export NewcReader (trailerBytes)

/-! ## Payloads -/

/-- A header with its data. -/
structure ArchiveEntry where
  header : NewcEntry
  data : Bytes
deriving DecidableEq

def readPayload (entry : NewcEntry) : Reader Unit Bytes := do
  let data ← takeN () entry.fileSize.toNat
  let _ ← takeN () (padLen entry.fileSize.toNat)
  pure data

theorem framed_takeN (n : Nat) : Framed (takeN () n) := (Exact.takeN () n).framed

theorem framed_readPayload (entry : NewcEntry) : Framed (readPayload entry) :=
  (framed_takeN _).bind fun _ => (framed_takeN _).bind fun _ => (Exact.pure _).framed

theorem run_takeN_of_append {n : Nat} {bs : Bytes} (h : bs.length = n) (tail : Bytes) :
    (Format.takeN () n).run (bs ++ tail) = .ok (bs, tail) :=
  (Exact.takeN () n _ _ _).2 ⟨bs, ⟨rfl, h⟩, rfl⟩

open UInt32 in
theorem reads_payload {record : Record} {data : Bytes} (h : data.length < 2 ^ 32) :
    Reads (readPayload (headerOf record (ofNat data.length))) data (data ++ pad data.length) := by
  have hsize : data.length = (headerOf record (ofNat data.length)).fileSize.toNat := by
    show data.length = (ofNat data.length).toNat
    rw [toNat_ofNat', Nat.mod_eq_of_lt h]
  have hpad : (pad data.length).length =
      padLen (headerOf record (ofNat data.length)).fileSize.toNat := by
    rw [← hsize, pad, length_replicate, padLen]
  exact (takeN () hsize).bind ((takeN () hpad).bind (pure data) (append_nil _).symm) rfl

/-! ## `strip_trailer` and `merge_rootfs` -/

inductive OverlayError
  | fileTooLarge | cpioEmit | invalidCpioArchive (archive : String) | directoryAccess
  | serializeManifest | validateCache
deriving DecidableEq

/-- What is attached to a report: the error of a read, or a text. -/
inductive Attachment
  | io
  | text (message : String)
deriving DecidableEq

structure OverlayReport where
  context : OverlayError
  attachments : List Attachment
deriving DecidableEq

def invalidArchive (archive : String) (attachment : Attachment) : OverlayReport :=
  ⟨.invalidCpioArchive archive, [attachment]⟩

def orInvalid {α : Type} (archive : String) : Except Unit α → Except OverlayReport α
  | .ok a => .ok a
  | .error _ => .error (invalidArchive archive .io)

theorem orInvalid_eq_ok {α : Type} (archive : String) (x : Except Unit α) (a : α) :
    orInvalid archive x = .ok a ↔ x = .ok a := by
  cases x <;> simp [orInvalid]

section Reader
variable [NewcReader]

def NewcReader.finish (entry : NewcEntry) : Reader Unit Unit := finishAfter entry 0

/-- One turn of the loop: what is left after an entry, or nothing at the trailer. -/
def scanEntry (archive : String) (remaining : Bytes) : Except OverlayReport (Option Bytes) := do
  let (entry, rest) ← orInvalid archive (NewcReader.new.run remaining)
  if entry.isTrailer then do
    failIf (entry.fileSize ≠ 0)
      (invalidArchive archive (.text "TRAILER!!! entry has a non-zero payload"))
    let (_, tail) ← orInvalid archive ((NewcReader.finish entry).run rest)
    failIf (tail.any (· ≠ 0))
      (invalidArchive archive (.text "non-padding bytes after the complete TRAILER!!! entry"))
    return none
  else do
    let (_, tail) ← orInvalid archive ((NewcReader.finish entry).run rest)
    failIf (remaining.length - tail.length = 0)
      (invalidArchive archive (.text "CPIO reader made no progress"))
    return some tail

/-- The length of the body.  An entry takes bytes, so fuel for each of them is
enough (`stripTrailer_eq_ok`). -/
def stripLoop (archive : String) : Nat → Bytes → Nat → Except OverlayReport Nat
  | 0, _, _ => .error (invalidArchive archive .io)
  | fuel + 1, remaining, bodyLen => do
    match ← scanEntry archive remaining with
    | none => return bodyLen
    | some tail => stripLoop archive fuel tail (bodyLen + (remaining.length - tail.length))

def stripTrailer (archive : String) (bytes : Bytes) : Except OverlayReport Bytes := do
  let bodyLen ← stripLoop archive (bytes.length + 1) bytes 0
  return bytes.take bodyLen

def mergeRootfs (base overlay : Bytes) : Except OverlayReport Bytes := do
  let merged ← stripTrailer "base rootfs" base
  let body ← stripTrailer "overlay rootfs" overlay
  return merged ++ body ++ trailerBytes

/-! ## Parsing an archive -/

def parseEntries : Nat → Reader Unit (List ArchiveEntry × NewcEntry)
  | 0 => throw ()
  | fuel + 1 => do
    let header ← NewcReader.new
    if header.isTrailer then do
      NewcReader.finish header
      pure ([], header)
    else do
      let data ← readPayload header
      let (entries, last) ← parseEntries fuel
      pure (⟨header, data⟩ :: entries, last)

def parseArchive (bytes : Bytes) : Except Unit ((List ArchiveEntry × NewcEntry) × Bytes) :=
  (parseEntries bytes.length).run bytes

/-! ## Reading entries -/

open NewcReader

variable {entries : List ArchiveEntry} {archive : String} {last entry : NewcEntry}
  {body tail s header bs : Bytes} {fuel : Nat} {data : Bytes}

theorem readPayload_of_finish {rest : Bytes}
    (h : (finish entry).run rest = .ok ((), tail)) (htail : tail ≠ []) :
    ∃ data, (readPayload entry).run rest = .ok (data, tail) := by
  obtain ⟨pad, hpad, hdrop⟩ := (finishAfter_eq_ok _ _ _ _).1 h
  rw [Nat.sub_zero] at hdrop
  have hle : entry.fileSize.toNat ≤ rest.length := by
    by_contra hlt
    rw [drop_eq_nil_of_le (by omega)] at hdrop
    exact htail (append_eq_nil_iff.1 hdrop.symm).2
  refine ⟨rest.take entry.fileSize.toNat, ?_⟩
  refine run_bind_ok.2 ⟨_, rest.drop entry.fileSize.toNat, if_pos hle, ?_⟩
  rw [hdrop]
  exact run_bind_ok.2 ⟨pad, tail, run_takeN_of_append hpad tail, rfl⟩

theorem finish_of_readPayload (h : (readPayload entry).run s = .ok (data, t)) :
    (finish entry).run s = .ok ((), t) := by
  obtain ⟨taken, s', htake, hrest⟩ := run_bind_ok.1 h
  obtain ⟨pad, t', hpad, hpure⟩ := run_bind_ok.1 hrest
  obtain rfl : t' = t := (Prod.mk.inj (Except.ok.inj hpure)).2
  obtain ⟨_, ⟨rfl, hlen⟩, rfl⟩ := (takeN () _ _ _ _).1 htake
  obtain ⟨_, ⟨rfl, hpadlen⟩, rfl⟩ := (takeN () _ _ _ _).1 hpad
  refine (finishAfter_eq_ok _ _ _ _).2 ⟨pad, hpadlen, ?_⟩
  rw [Nat.sub_zero, ← hlen, drop_left]

theorem reads_finish_of_size (h : entry.fileSize = 0) : Reads (finish entry) () [] := by
  intro t
  refine (finishAfter_eq_ok _ _ _ _).2 ⟨[], ?_, ?_⟩
  · rw [h]
    rfl
  · rw [h]
    rfl

theorem scanEntry_eq_some (h : scanEntry archive s = .ok (some tail)) :
    ∃ entry rest, new.run s = .ok (entry, rest) ∧ entry.isTrailer = false ∧
      (finish entry).run rest = .ok ((), tail) ∧ tail.length < s.length := by
  obtain ⟨⟨entry, rest⟩, hnew, h⟩ := bind_eq_ok.1 h
  rw [orInvalid_eq_ok] at hnew
  cases ht : entry.isTrailer with
  | true =>
    simp only [ht, if_true] at h
    rw [check_bind_eq_ok] at h
    obtain ⟨⟨⟨⟩, tail'⟩, -, h⟩ := bind_eq_ok.1 h.2
    rw [check_bind_eq_ok, pure_eq_ok] at h
    exact absurd h.2 (by simp)
  | false =>
    simp only [ht, Bool.false_eq_true, if_false] at h
    obtain ⟨⟨⟨⟩, tail'⟩, hfinish, h⟩ := bind_eq_ok.1 h
    rw [orInvalid_eq_ok] at hfinish
    rw [check_bind_eq_ok, failIf_eq_ok, pure_eq_ok] at h
    obtain ⟨hlen, rfl⟩ := h.imp_right Option.some.inj
    exact ⟨entry, rest, hnew, ht, hfinish, by omega⟩

theorem scanEntry_eq_none (h : scanEntry archive s = .ok none) :
    ∃ entry tail, new.run s = .ok (entry, tail) ∧ entry.isTrailer = true ∧
      entry.fileSize = 0 ∧ ∀ b ∈ tail, b = 0 := by
  obtain ⟨⟨entry, rest⟩, hnew, h⟩ := bind_eq_ok.1 h
  rw [orInvalid_eq_ok] at hnew
  cases ht : entry.isTrailer with
  | true =>
    simp only [ht, if_true] at h
    rw [check_bind_eq_ok, failIf_eq_ok, not_not] at h
    obtain ⟨hsize, h⟩ := h
    obtain ⟨⟨⟨⟩, tail⟩, hfinish, h⟩ := bind_eq_ok.1 h
    rw [orInvalid_eq_ok, ← nil_append rest, reads_finish_of_size hsize rest] at hfinish
    obtain rfl : rest = tail := (Prod.mk.inj (Except.ok.inj hfinish)).2
    rw [check_bind_eq_ok, failIf_eq_ok] at h
    exact ⟨entry, rest, hnew, ht, hsize, by simpa using h.1⟩
  | false =>
    simp only [ht, Bool.false_eq_true, if_false] at h
    obtain ⟨⟨⟨⟩, tail⟩, -, h⟩ := bind_eq_ok.1 h
    rw [check_bind_eq_ok, pure_eq_ok] at h
    exact absurd h.2 (by simp)

/-! ## Bodies -/

/-- The bytes of the entries in front of the trailer. -/
inductive Body : List ArchiveEntry → Bytes → Prop
  | nil : Body [] []
  | cons {entry : ArchiveEntry} {header payload : Bytes} {entries : List ArchiveEntry}
      {rest : Bytes} (hheader : Reads NewcReader.new entry.header header)
      (hname : entry.header.isTrailer = false)
      (hpayload : Reads (readPayload entry.header) entry.data payload)
      (hrest : Body entries rest) : Body (entry :: entries) (header ++ (payload ++ rest))

/-- The bytes of the trailer, with its payload. -/
def TrailerRead (last : NewcEntry) (bs : Bytes) : Prop :=
  last.isTrailer = true ∧ ∃ header payload, bs = header ++ payload ∧
    Reads NewcReader.new last header ∧ Reads (NewcReader.finish last) () payload

theorem ne_nil_of_reads_new (h : Reads new entry header) : header ≠ [] := by
  rintro rfl
  exact new_nil entry [] (h [])

variable {record : Record} {tr t : Bytes} {entries' : List ArchiveEntry} {bytes : Bytes}

section

variable (h : Body entries bs)
include h

theorem Body.append {bs' : Bytes}
    (h' : Body entries' bs') : Body (entries ++ entries') (bs ++ bs') := by
  induction h with
  | nil => exact h'
  | cons hheader hname hpayload _ ih =>
    rw [cons_append, append_assoc, append_assoc]
    exact .cons hheader hname hpayload ih

theorem Body.length_le : entries.length ≤ bs.length := by
  induction h with
  | nil => exact Nat.le_refl _
  | cons hheader _ _ _ ih =>
    have hpos := length_pos_of_ne_nil (ne_nil_of_reads_new hheader)
    rw [length_cons, length_append, length_append]
    omega

theorem Body.parseArchive (htrailer : last.isTrailer = true) (hheader : Reads new last header)
    {rest : Bytes} (hfinish : (finish last).run rest = .ok ((), tail)) :
    parseArchive (bs ++ (header ++ rest)) = .ok ((entries, last), tail) := by
  have hfuel : entries.length < (bs ++ (header ++ rest)).length := by
    have hlen := h.length_le
    have hpos := length_pos_of_ne_nil (ne_nil_of_reads_new hheader)
    rw [length_append, length_append]
    omega
  unfold Boot.parseArchive
  generalize (bs ++ (header ++ rest)).length = fuel at hfuel
  induction h generalizing fuel with
  | nil =>
    obtain ⟨fuel, rfl⟩ : ∃ k, fuel = k + 1 := ⟨fuel - 1, by omega⟩
    refine run_bind_ok.2 ⟨last, rest, hheader rest, ?_⟩
    rw [if_pos htrailer]
    exact run_bind_ok.2 ⟨(), tail, hfinish, rfl⟩
  | @cons entry entryHeader payload entries body hentry hname hpayload _ ih =>
    obtain ⟨fuel, rfl⟩ : ∃ k, fuel = k + 1 := ⟨fuel - 1, by omega⟩
    rw [append_assoc, append_assoc]
    refine run_bind_ok.2 ⟨entry.header, _, hentry _, ?_⟩
    rw [if_neg (by simp [hname])]
    refine run_bind_ok.2 ⟨entry.data, _, hpayload _, ?_⟩
    exact run_bind_ok.2 ⟨(entries, last), tail, ih _ (Nat.lt_of_succ_lt_succ hfuel), rfl⟩

theorem parseArchive_body (htr : TrailerRead last tr) (tail : Bytes) :
    parseArchive (bs ++ tr ++ tail) = .ok ((entries, last), tail) := by
  obtain ⟨htrailer, header, payload, rfl, hheader, hfinish⟩ := htr
  rw [append_assoc, append_assoc]
  exact h.parseArchive htrailer hheader (hfinish tail)

end

/-! ## What `strip_trailer` accepts -/

/-- An archive whose trailer is empty and followed by zeros only. -/
structure Complete (bytes : Bytes) (entries : List ArchiveEntry) (body : Bytes)
    (last : NewcEntry) : Prop where
  whole : Body entries body
  split : ∃ header tail, bytes = body ++ header ++ tail ∧ Reads NewcReader.new last header ∧
    ∀ b ∈ tail, b = 0
  isTrailer : last.isTrailer = true
  empty : last.fileSize = 0

theorem stripLoop_complete {n m : Nat} (h : stripLoop archive fuel s n = .ok m) :
    ∃ entries body last, Complete s entries body last ∧ m = n + body.length := by
  induction fuel generalizing s n with
  | zero => cases h
  | succ fuel ih =>
    obtain ⟨scanned, hscan, h⟩ := bind_eq_ok.1 h
    cases scanned with
    | none =>
      obtain ⟨last, tail, hnew, hlast, hsize, hzero⟩ := scanEntry_eq_none hscan
      obtain ⟨header, rfl, hheader⟩ := framed_new _ _ _ hnew
      exact ⟨[], [], last, ⟨.nil, ⟨header, tail, rfl, hheader, hzero⟩, hlast, hsize⟩,
        (pure_eq_ok.1 h).symm⟩
    | some tail =>
      obtain ⟨entry, rest, hnew, hname, hfinish, -⟩ := scanEntry_eq_some hscan
      obtain ⟨entries, body, last, hcomplete, rfl⟩ := ih h
      obtain ⟨lastHeader, zeros, htail, hlastHeader, hzero⟩ := hcomplete.split
      -- the loop went on, so the payload did not run into the end of the input
      have hne : tail ≠ [] := by
        rintro rfl
        have := (append_eq_nil_iff.1 (append_eq_nil_iff.1 htail.symm).1).2
        exact ne_nil_of_reads_new hlastHeader this
      obtain ⟨header, rfl, hheader⟩ := framed_new _ _ _ hnew
      obtain ⟨data, hdata⟩ := readPayload_of_finish hfinish hne
      obtain ⟨payload, rfl, hpayload⟩ := framed_readPayload entry _ _ _ hdata
      refine ⟨⟨entry, data⟩ :: entries, header ++ (payload ++ body), last,
        ⟨.cons hheader hname hpayload hcomplete.whole, ⟨lastHeader, zeros, ?_, hlastHeader, hzero⟩,
          hcomplete.isTrailer, hcomplete.empty⟩, ?_⟩
      · rw [htail]
        simp only [append_assoc]
      · simp only [length_append]
        omega

theorem scanEntry_trailer (hheader : Reads new last header) (hlast : last.isTrailer = true)
    (hsize : last.fileSize = 0) (hzero : ∀ b ∈ tail, b = 0) :
    scanEntry archive (header ++ tail) = .ok none := by
  have hfinish := reads_finish_of_size hsize tail
  have hany : ¬ (tail.any (· ≠ 0)) = true := by simpa using hzero
  refine bind_eq_ok.2 ⟨(last, tail), (orInvalid_eq_ok _ _ _).2 (hheader tail), ?_⟩
  simp only [hlast, if_true]
  refine check_bind_eq_ok.2 ⟨failIf_eq_ok.2 (not_not.2 hsize), ?_⟩
  refine bind_eq_ok.2 ⟨((), tail), (orInvalid_eq_ok _ _ _).2 hfinish, ?_⟩
  exact check_bind_eq_ok.2 ⟨failIf_eq_ok.2 hany, rfl⟩

theorem scanEntry_entry {payload : Bytes} (hheader : Reads new entry header)
    (hname : entry.isTrailer = false) (hpayload : Reads (readPayload entry) data payload) :
    scanEntry archive (header ++ (payload ++ t)) = .ok (some t) := by
  have hfinish := finish_of_readPayload (hpayload t)
  have hpos := length_pos_of_ne_nil (ne_nil_of_reads_new hheader)
  refine bind_eq_ok.2 ⟨(entry, payload ++ t), (orInvalid_eq_ok _ _ _).2 (hheader _), ?_⟩
  simp only [hname, Bool.false_eq_true, if_false]
  refine bind_eq_ok.2 ⟨((), t), (orInvalid_eq_ok _ _ _).2 hfinish, ?_⟩
  refine check_bind_eq_ok.2 ⟨failIf_eq_ok.2 ?_, rfl⟩
  simp only [length_append]
  omega

theorem stripLoop_of_body (h : Body entries body) (hheader : Reads new last header)
    (hlast : last.isTrailer = true) (hsize : last.fileSize = 0) (hzero : ∀ b ∈ tail, b = 0)
    (hfuel : entries.length < fuel) (n : Nat) :
    stripLoop archive fuel (body ++ header ++ tail) n = .ok (n + body.length) := by
  induction h generalizing fuel n with
  | nil =>
    obtain ⟨fuel, rfl⟩ : ∃ k, fuel = k + 1 := ⟨fuel - 1, by omega⟩
    exact bind_eq_ok.2 ⟨none, scanEntry_trailer hheader hlast hsize hzero, rfl⟩
  | @cons entry entryHeader payload entries rest hentry hname hpayload _ ih =>
    obtain ⟨fuel, rfl⟩ : ∃ k, fuel = k + 1 := ⟨fuel - 1, by omega⟩
    have hbytes : entryHeader ++ (payload ++ rest) ++ header ++ tail =
        entryHeader ++ (payload ++ (rest ++ header ++ tail)) := by
      simp only [append_assoc]
    rw [hbytes]
    refine bind_eq_ok.2 ⟨_, scanEntry_entry hentry hname hpayload, ?_⟩
    refine (ih (by simpa using hfuel) _).trans (congrArg Except.ok ?_)
    simp only [length_append]
    omega

theorem stripTrailer_eq_ok {archive : String} {body : Bytes} :
    stripTrailer archive bytes = .ok body ↔ ∃ entries last, Complete bytes entries body last := by
  constructor
  · intro h
    obtain ⟨m, hloop, h⟩ := bind_eq_ok.1 h
    obtain ⟨entries, body', last, hcomplete, rfl⟩ := stripLoop_complete hloop
    obtain ⟨header, tail, hbytes, -⟩ := hcomplete.split
    obtain rfl : body' = body := by
      rw [← pure_eq_ok.1 h, hbytes, Nat.zero_add, append_assoc, take_left]
    exact ⟨entries, last, hcomplete⟩
  · rintro ⟨entries, last, h⟩
    obtain ⟨header, tail, rfl, hheader, hzero⟩ := h.split
    have hlen := h.whole.length_le
    refine bind_eq_ok.2 ⟨0 + body.length, stripLoop_of_body h.whole hheader h.isTrailer
      h.empty hzero ?_ 0, ?_⟩
    · simp only [length_append]
      omega
    · rw [pure_eq_ok, Nat.zero_add, append_assoc, take_left]

theorem complete_of_reads {bytes : Bytes} (h : Body entries body)
    (htrailer : Reads new trailerEntry bytes) :
    Complete (body ++ bytes) entries body trailerEntry :=
  ⟨h, ⟨bytes, [], (append_nil _).symm, htrailer, by simp⟩, by decide, rfl⟩

theorem complete_of_body (h : Body entries body) :
    Complete (body ++ trailerBytes) entries body trailerEntry := complete_of_reads h reads_trailer

theorem Complete.parse (h : Complete bytes entries body last) :
    ∃ tail, parseArchive bytes = .ok ((entries, last), tail) ∧ ∀ b ∈ tail, b = 0 := by
  obtain ⟨header, tail, rfl, hheader, hzero⟩ := h.split
  exact ⟨tail, parseArchive_body h.whole ⟨h.isTrailer, header, [], (append_nil _).symm, hheader,
    reads_finish_of_size h.empty⟩ tail, hzero⟩

theorem parseArchive_complete (h : Body entries body) :
    parseArchive (body ++ trailerBytes) = .ok ((entries, trailerEntry), []) := by
  have := parseArchive_body h ⟨by decide, trailerBytes, [], (append_nil _).symm, reads_trailer,
    reads_finish_of_size rfl⟩ []
  rwa [append_nil] at this

theorem mergeRootfs_complete {base overlay : Bytes} {body' : Bytes} {last' : NewcEntry}
    (h : Complete base entries body last) (h' : Complete overlay entries' body' last') :
    mergeRootfs base overlay = .ok (body ++ body' ++ trailerBytes) ∧
      parseArchive (body ++ body' ++ trailerBytes) = .ok ((entries ++ entries', trailerEntry), []) := by
  constructor
  · refine bind_eq_ok.2 ⟨body, stripTrailer_eq_ok.2 ⟨entries, last, h⟩, ?_⟩
    exact bind_eq_ok.2 ⟨body', stripTrailer_eq_ok.2 ⟨entries', last', h'⟩, rfl⟩
  · exact parseArchive_complete (h.whole.append h'.whole)

end Reader

/-! ## Version 0.4.1 of the crate

It takes more than the writer makes: either magic number, a sign in a number, several NULs
after a name, any bytes as padding. -/

namespace Cpio

def magicCrc : Bytes := utf8 "070702"

/-- `u32::from_str_radix(text, 16)`, which takes a leading plus sign too. -/
def fromStrRadix16 (text : Bytes) : Option Nat :=
  let digits := if text.head? = some 0x2b then text.tail else text
  if digits = [] then none else ofHex? digits

def readHexU32 : Reader Unit UInt32 := do
  let text ← takeN () 8
  let value ← orThrow () (fromStrRadix16 text)
  pure (UInt32.ofNat value)

/-- A NUL-terminated UTF-8 name; further NULs before the terminator are dropped. -/
def entryName (raw : Bytes) : Option Bytes :=
  if raw.getLast? ≠ some 0 then none
  else
    let name := raw.dropLast.rdropWhile (· = 0)
    if (fromUtf8? name).isSome then some name else none

def new : Reader Unit NewcEntry := do
  let magic ← takeN () 6
  if magic ≠ magicNewc ∧ magic ≠ magicCrc then throw ()
  else do
    let ino ← readHexU32
    let mode ← readHexU32
    let uid ← readHexU32
    let gid ← readHexU32
    let nlink ← readHexU32
    let mtime ← readHexU32
    let fileSize ← readHexU32
    let devMajor ← readHexU32
    let devMinor ← readHexU32
    let rdevMajor ← readHexU32
    let rdevMinor ← readHexU32
    let nameLen ← readHexU32
    let check ← readHexU32
    let raw ← takeN () nameLen.toNat
    let name ← orThrow () (entryName raw)
    let _ ← takeN () (padLen (headerLen + nameLen.toNat))
    pure { name, ino, mode, uid, gid, nlink, mtime, fileSize, devMajor, devMinor, rdevMajor,
           rdevMinor, check }

/-- `io::copy` of at most `n` bytes into a sink.  A shorter input is no error. -/
def skipUpTo (n : Nat) : Reader Unit Unit := fun s => .ok ((), s.drop n)

def finishAfter (entry : NewcEntry) (consumed : Nat) : Reader Unit Unit := do
  skipUpTo (entry.fileSize.toNat - consumed)
  let _ ← takeN () (padLen entry.fileSize.toNat)
  pure ()

theorem framed_readHexU32 : Framed readHexU32 :=
  ((Exact.takeN () 8).bind fun _ => (Exact.orThrow () _).bind fun _ => Exact.pure _).framed

theorem framed_new : Framed new := by
  refine (framed_takeN 6).bind fun magic => Framed.reject () ?_
  refine framed_readHexU32.bind fun ino => framed_readHexU32.bind fun mode =>
    framed_readHexU32.bind fun uid => framed_readHexU32.bind fun gid =>
    framed_readHexU32.bind fun nlink => framed_readHexU32.bind fun mtime =>
    framed_readHexU32.bind fun fileSize => framed_readHexU32.bind fun devMajor =>
    framed_readHexU32.bind fun devMinor => framed_readHexU32.bind fun rdevMajor =>
    framed_readHexU32.bind fun rdevMinor => framed_readHexU32.bind fun nameLen =>
    framed_readHexU32.bind fun check => (framed_takeN _).bind fun raw => ?_
  exact (Exact.orThrow () _).framed.bind fun name => (framed_takeN _).bind fun _ =>
    (Exact.pure _).framed

theorem new_nil (a : NewcEntry) (t : Bytes) : new.run [] ≠ .ok (a, t) := by
  intro h
  obtain ⟨_, _, hmagic, -⟩ := run_bind_ok.1 h
  cases hmagic

theorem entryName_append {name : Bytes} (h : NameOk name) :
    entryName (name ++ [0]) = some name := by
  have hdrop : name.rdropWhile (· = 0) = name := by
    cases hlast : name.getLast? with
    | none => rw [getLast?_eq_none_iff.1 hlast]; rfl
    | some b =>
      have hmem : b ∈ name := mem_of_getLast? hlast
      have hne : b ≠ 0 := fun hb => h.nulFree (hb ▸ hmem)
      obtain ⟨front, rfl⟩ : ∃ front, name = front ++ [b] := by
        rw [getLast?_eq_some_iff] at hlast
        exact hlast
      exact rdropWhile_concat_neg _ _ _ (by simpa using hne)
  simp [entryName, hdrop, h.utf8]

open UInt32

theorem reads_readHexU32 (value : UInt32) : Reads readHexU32 value (hex8 value) := by
  have hhead : (hex8 value).head? ≠ some 0x2b := by
    intro h
    exact ne_of_mem_toHex (mem_of_mem_head? h) rfl
  have hne : hex8 value ≠ [] := by
    intro h
    have := congrArg List.length h
    rw [hex8, length_toHex] at this
    simp at this
  have hparse : fromStrRadix16 (hex8 value) = some value.toNat := by
    simp only [fromStrRadix16, if_neg hhead, if_neg hne]
    exact ofHex?_toHex 8 _ value.toNat_lt
  have hvalue : Reads (pure (ofNat value.toNat) : Reader Unit UInt32) value [] := by
    rw [UInt32.ofNat_toNat]
    exact pure value
  exact (takeN () (length_toHex _ _)).bind ((orThrow () hparse).bind hvalue rfl) (append_nil _).symm

theorem reads_new (h : NameOk record.name) (size : UInt32) : Reads new (headerOf record size)
      (encodeHeader record size (record.name.length + 1)) := by
  have hnameLen : (ofNat (record.name.length + 1)).toNat = record.name.length + 1 := by
    rw [toNat_ofNat', Nat.mod_eq_of_lt h.fits]
  have hraw : (record.name ++ [0]).length = (ofNat (record.name.length + 1)).toNat := by
    rw [hnameLen, length_append, length_cons, length_nil]
  refine (takeN () (show magicNewc.length = 6 by decide)).bind
    (skip () (by simp)
    ((reads_readHexU32 record.ino).bind ((reads_readHexU32 record.mode).bind
    ((reads_readHexU32 record.uid).bind ((reads_readHexU32 record.gid).bind
    ((reads_readHexU32 record.nlink).bind ((reads_readHexU32 record.mtime).bind
    ((reads_readHexU32 size).bind ((reads_readHexU32 record.devMajor).bind
    ((reads_readHexU32 record.devMinor).bind ((reads_readHexU32 record.rdevMajor).bind
    ((reads_readHexU32 record.rdevMinor).bind
    ((reads_readHexU32 (ofNat (record.name.length + 1))).bind ((reads_readHexU32 0).bind
    ((takeN () hraw).bind ((orThrow () (entryName_append h)).bind
    ((takeN () (length_replicate (a := (0 : UInt8)))).bind (pure _) rfl) rfl) rfl)
    rfl) rfl) rfl) rfl) rfl) rfl) rfl) rfl) rfl) rfl) rfl) rfl) rfl)) ?_
  simp only [encodeHeader, getD_padBytes, hnameLen, pad, padLen, append_assoc,
    append_nil, nil_append]

theorem finishAfter_eq_ok (entry : NewcEntry) (consumed : Nat) (s tail : Bytes) :
    (finishAfter entry consumed).run s = .ok ((), tail) ↔
      ∃ pad : Bytes, pad.length = padLen entry.fileSize.toNat ∧
        s.drop (entry.fileSize.toNat - consumed) = pad ++ tail := by
  constructor
  · intro h
    obtain ⟨⟨⟩, s', hskip, h⟩ := run_bind_ok.1 h
    obtain ⟨pad, t, hpad, hpure⟩ := run_bind_ok.1 h
    obtain rfl : t = tail := (Prod.mk.inj (Except.ok.inj hpure)).2
    obtain ⟨_, ⟨rfl, hlen⟩, rfl⟩ := (takeN () _ _ _ _).1 hpad
    exact ⟨pad, hlen, (Prod.mk.inj (Except.ok.inj hskip)).2⟩
  · rintro ⟨pad, hlen, hdrop⟩
    refine run_bind_ok.2 ⟨(), pad ++ tail, congrArg (fun s => Except.ok ((), s)) hdrop, ?_⟩
    exact run_bind_ok.2 ⟨pad, tail, run_takeN_of_append hlen tail, rfl⟩

end Cpio

/-- Version 0.4.1 of the crate meets the assumptions. -/
instance newcReader : NewcReader where
  new := Cpio.new
  finishAfter := Cpio.finishAfter
  trailerBytes := (Item.entry Image.trailer).bytes
  framed_new := Cpio.framed_new
  new_nil := Cpio.new_nil
  reads_new := Cpio.reads_new
  reads_trailer := by
    rw [bytes_trailer]
    exact Cpio.reads_new nameOk_trailer 0
  finishAfter_eq_ok := Cpio.finishAfter_eq_ok

end Jyth.Boot
