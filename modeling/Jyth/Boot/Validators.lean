import Jyth.Boot.Cache

/-!
# Three walks over one archive

`strip_trailer` slices a buffer, `cached_rootfs_is_valid` streams a file, and
`validate_blocking` of `rootfs/src/ops/validate_cpio.rs` streams one before it is
ever used as a base.  The first two accept the same bytes
(`cachedRootfsIsValid_iff`).  The third reads the same entries but does not look
at the payload of the trailer, which `strip_trailer` rejects
(`merged_of_validated_iff`).
-/

namespace Jyth.Boot

open Effect Format Jyth.Image List NewcReader

/-! ## The streaming check and `strip_trailer` -/

section Streaming
variable [NewcReader] {entry : NewcEntry}

theorem length_lt_of_new {s rest : Bytes}
    (h : new.run s = .ok (entry, rest)) : rest.length < s.length := by
  obtain ⟨header, rfl, hheader⟩ := framed_new _ _ _ h
  have hpos := length_pos_of_ne_nil (ne_nil_of_reads_new hheader)
  rw [length_append]
  omega

theorem length_le_of_finish {s tail : Bytes}
    (h : (finish entry).run s = .ok ((), tail)) : tail.length ≤ s.length := by
  obtain ⟨pad, -, hdrop⟩ := (finishAfter_eq_ok _ _ _ _).1 h
  have hlen := congrArg List.length hdrop
  rw [length_drop, length_append] at hlen
  omega

/-- One turn of the two loops.  The check for progress in `strip_trailer` never
fires, since a header has bytes. -/
theorem scanArchive_succ (archive : String) (fuel : Nat) (s : Bytes) : scanArchive (fuel + 1) s =
      match scanEntry archive s with
      | .error _ => false
      | .ok none => true
      | .ok (some tail) => scanArchive fuel tail := by
  rw [scanArchive, scanEntry]
  cases hnew : new.run s with
  | error err => rfl
  | ok read =>
    obtain ⟨entry, rest⟩ := read
    simp only [orInvalid, bind, Except.bind]
    cases htrailer : entry.isTrailer with
    | true =>
      by_cases hsize : entry.fileSize = 0
      · cases hfinish : (finish entry).run rest with
        | error err => simp [hsize, failIf]
        | ok read =>
          obtain ⟨⟨⟩, tail⟩ := read
          have hall : tail.all (· = 0) = !tail.any (· ≠ 0) := by
            rw [all_eq_not_any_not]
            simp only [ne_eq, decide_not]
          simp only [hall]
          cases tail.any (· ≠ 0) <;> simp [hsize, failIf, pure, Except.pure]
      · simp [hsize, failIf]
    | false =>
      cases hfinish : (finish entry).run rest with
      | error err => rfl
      | ok read =>
        obtain ⟨⟨⟩, tail⟩ := read
        have hprogress : ¬ s.length - tail.length = 0 := by
          have := length_lt_of_new hnew
          have := length_le_of_finish hfinish
          omega
        simp [failIf, hprogress, pure, Except.pure]

theorem stripLoop_isOk (archive : String) (fuel : Nat) (s : Bytes) (n : Nat) :
    (stripLoop archive fuel s n).isOk = scanArchive fuel s := by
  induction fuel generalizing s n with
  | zero => rfl
  | succ fuel ih =>
    rw [scanArchive_succ archive, stripLoop]
    cases scanEntry archive s with
    | error err => rfl
    | ok scanned =>
      cases scanned with
      | none => rfl
      | some tail => exact ih tail _

theorem scanArchive_iff (archive : String) (bytes : Bytes) :
    scanArchive (bytes.length + 1) bytes = true ↔ ∃ body, stripTrailer archive bytes = .ok body := by
  rw [← stripLoop_isOk archive _ bytes 0, stripTrailer]
  cases stripLoop archive (bytes.length + 1) bytes 0 with
  | error err => simp [Except.isOk, Except.toBool, bind, Except.bind]
  | ok bodyLen => simp [Except.isOk, Except.toBool, bind, Except.bind, pure, Except.pure]

/-- On a file of the expected size the streaming check answers, and it answers
yes exactly where `strip_trailer` succeeds. -/
theorem cachedRootfsIsValid_iff (archive : String) (files : Files) (name bytes : Bytes)
    (h : files name = some bytes) :
    ∃ valid, Prog.interp faultless (cachedRootfsIsValid name (sizeOf64 bytes)) files =
        (.ok valid, files) ∧ (valid = true ↔ ∃ body, stripTrailer archive bytes = .ok body) := by
  refine ⟨scanArchive (bytes.length + 1) bytes, ?_, scanArchive_iff archive bytes⟩
  simp [cachedRootfsIsValid, Fs.metadata, Fs.openFile, Fs.read, ExceptT.mk, ExceptT.run, bind,
    Prog.bind, Prog.call, Prog.interp, faultless, h, pure]

end Streaming

def initRecord : Record := fileRecord (initOverlayFile [0x7f])

/-- A written archive with one file. -/
def initArchive : Bytes := recordBytes initRecord ++ trailerBytes

set_option maxRecDepth 10000 in
/-- The archive, and the archive without its last byte. -/
theorem cachedRootfsIsValid_initArchive :
    Prog.interp faultless (cachedRootfsIsValid [] (sizeOf64 initArchive))
        (Function.update noFiles [] (some initArchive)) =
      (.ok true, Function.update noFiles [] (some initArchive)) ∧
    Prog.interp faultless (cachedRootfsIsValid [] (sizeOf64 initArchive.dropLast))
        (Function.update noFiles [] (some initArchive.dropLast)) =
      (.ok false, Function.update noFiles [] (some initArchive.dropLast)) := by
  constructor
  · obtain ⟨valid, hinterp, hvalid⟩ := cachedRootfsIsValid_iff "base rootfs" _ [] initArchive
      (Function.update_self _ _ _)
    obtain rfl : valid = true := hvalid.2 ⟨recordBytes initRecord, rfl⟩
    exact hinterp
  · obtain ⟨valid, hinterp, hvalid⟩ := cachedRootfsIsValid_iff "base rootfs" _ []
      initArchive.dropLast (Function.update_self _ _ _)
    have hstrip : stripTrailer "base rootfs" initArchive.dropLast =
        .error (invalidArchive "base rootfs" .io) := rfl
    obtain rfl : valid = false := Bool.eq_false_iff.2 fun h => by
      obtain ⟨body, hbody⟩ := hvalid.1 h
      rw [hstrip] at hbody
      cases hbody
    exact hinterp

/-! ## `validate_blocking` -/

/-- The entry's bytes read through a buffer of 64 KiB, up to its size: how many
came, and what is left.  Each turn takes a byte, so fuel for `left` of them is
enough (`readBody_eq`). -/
def readBody : Nat → Nat → Nat → Bytes → Nat × Bytes
  | 0, _, consumed, s => (consumed, s)
  | fuel + 1, left, consumed, s =>
    let read := min (64 * 1024) (min left s.length)
    if read = 0 then (consumed, s)
    else readBody fuel (left - read) (consumed + read) (s.drop read)

def orInvalidCpio {α : Type} : Except Unit α → Except Report α
  | .ok a => .ok a
  | .error _ => .error ⟨.invalidCpio, none⟩

/-- One turn: the entry, and what is left behind it.  Behind the trailer nothing is left. -/
def validateEntry [NewcReader] (remaining : Bytes) : Except Report (ArchiveEntry × Bytes) := do
  let (entry, rest) ← orInvalidCpio (NewcReader.new.run remaining)
  if entry.isTrailer then do
    let (_, tail) ← orInvalidCpio ((NewcReader.finish entry).run rest)
    failIf (tail ≠ []) ⟨.invalidCpio, some "structural bytes after CPIO trailer"⟩
    return (⟨entry, []⟩, [])
  else do
    let size := entry.fileSize.toNat
    let (consumed, unread) := readBody (size + 1) size 0 rest
    failIf (consumed < size) ⟨.invalidCpio, some
      s!"CPIO entry body ended before its declared size: read {consumed} of {size} bytes"⟩
    let (_, tail) ← orInvalidCpio ((finishAfter entry consumed).run unread)
    return (⟨entry, rest.take consumed⟩, tail)

/-- The walk, with the entries it visits and the trailer.  `cancelled` is what
the token answers before each turn. -/
def validateWalk [NewcReader] (cancelled : Nat → Bool) :
    Nat → Nat → Bytes → Except Report (List ArchiveEntry × NewcEntry)
  | 0, _, _ => .error ⟨.invalidCpio, none⟩
  | fuel + 1, turn, remaining => do
    failIf (cancelled turn = true) ⟨.cancelled, none⟩
    let (entry, tail) ← validateEntry remaining
    if entry.header.isTrailer then return ([], entry.header)
    else do
      let (entries, last) ← validateWalk cancelled fuel (turn + 1) tail
      return (entry :: entries, last)

def validateBlocking [NewcReader] {δ : Type} [DecidableEq δ] (digest : Bytes → δ) (path : String)
    (fileDigest : δ) (cancelled : Nat → Bool) (file : Except String Bytes) : Except Report Unit := do
  let bytes ← match file with
    | .ok bytes => .ok bytes
    | .error err => .error ⟨.readSource, some err⟩
  failIf (digest bytes ≠ fileDigest)
    ⟨.digestMismatch, some ("CPIO digest changed while validating " ++ path)⟩
  let _ ← validateWalk cancelled (bytes.length + 1) 0 bytes
  return ()

theorem orInvalidCpio_eq_ok {α : Type} (x : Except Unit α) (a : α) :
    orInvalidCpio x = .ok a ↔ x = .ok a := by
  cases x <;> simp [orInvalidCpio]

theorem readBody_eq (fuel left consumed : Nat) (s : Bytes) (hfuel : left < fuel) :
    readBody fuel left consumed s = (consumed + min left s.length, s.drop left) := by
  induction fuel generalizing left consumed s with
  | zero => omega
  | succ fuel ih =>
    rw [readBody]
    by_cases hread : min (64 * 1024) (min left s.length) = 0
    · have hmin : min left s.length = 0 := by omega
      have hdrop : s.drop left = s := by
        rcases Nat.eq_zero_or_pos left with rfl | hpos
        · exact drop_zero
        · rw [length_eq_zero_iff.1 (show s.length = 0 by omega), drop_nil]
      simp only [if_pos hread]
      rw [hmin, hdrop, Nat.add_zero]
    · simp only [if_neg hread]
      rw [ih _ _ _ (by omega), drop_drop, length_drop]
      rw [Prod.mk.injEq]
      exact ⟨by omega, congrArg (s.drop ·) (by omega)⟩

section Validation
variable [NewcReader]

theorem readPayload_eq_ok (entry : NewcEntry) (s data t : Bytes) :
    (readPayload entry).run s = .ok (data, t) ↔
      data = s.take entry.fileSize.toNat ∧ entry.fileSize.toNat ≤ s.length ∧
        (finishAfter entry entry.fileSize.toNat).run (s.drop entry.fileSize.toNat) = .ok ((), t) := by
  constructor
  · intro h
    obtain ⟨taken, rest, htake, h⟩ := run_bind_ok.1 h
    obtain ⟨pad, t', hpad, hpure⟩ := run_bind_ok.1 h
    obtain ⟨rfl, rfl⟩ : taken = data ∧ t' = t := Prod.mk.inj (Except.ok.inj hpure)
    obtain ⟨_, ⟨rfl, hlen⟩, rfl⟩ := (Exact.takeN () _ _ _ _).1 htake
    rw [← hlen, take_left, drop_left]
    refine ⟨rfl, by rw [length_append]; omega, ?_⟩
    obtain ⟨_, ⟨rfl, hpadlen⟩, rfl⟩ := (Exact.takeN () _ _ _ _).1 hpad
    refine (finishAfter_eq_ok _ _ _ _).2 ⟨pad, hpadlen, ?_⟩
    rw [hlen, Nat.sub_self, drop_zero]
  · rintro ⟨rfl, hle, hfinish⟩
    obtain ⟨pad, hpadlen, hdrop⟩ := (finishAfter_eq_ok _ _ _ _).1 hfinish
    rw [Nat.sub_self, drop_zero] at hdrop
    refine run_bind_ok.2 ⟨_, s.drop entry.fileSize.toNat, if_pos hle, ?_⟩
    rw [hdrop]
    exact run_bind_ok.2 ⟨pad, t, run_takeN_of_append hpadlen t, rfl⟩

theorem validateEntry_eq_ok {s tail : Bytes} {entry : ArchiveEntry}
    (h : validateEntry s = .ok (entry, tail)) :
    ∃ rest, new.run s = .ok (entry.header, rest) ∧ (entry.header.isTrailer = true ∧
          (finish entry.header).run rest = .ok ((), []) ∨ entry.header.isTrailer = false ∧
          (readPayload entry.header).run rest = .ok (entry.data, tail)) := by
  obtain ⟨⟨header, rest⟩, hnew, h⟩ := bind_eq_ok.1 h
  rw [orInvalidCpio_eq_ok] at hnew
  refine ⟨rest, ?_⟩
  cases htrailer : header.isTrailer with
  | true =>
    simp only [htrailer, if_true] at h
    obtain ⟨⟨⟨⟩, tail'⟩, hfinish, h⟩ := bind_eq_ok.1 h
    rw [orInvalidCpio_eq_ok] at hfinish
    rw [check_bind_eq_ok, failIf_eq_ok, not_not, pure_eq_ok] at h
    obtain ⟨rfl, heq⟩ := h
    obtain ⟨rfl, -⟩ := Prod.mk.inj heq
    exact ⟨hnew, .inl ⟨htrailer, hfinish⟩⟩
  | false =>
    simp only [htrailer, Bool.false_eq_true, if_false] at h
    rw [readBody_eq _ _ _ _ (Nat.lt_succ_self _)] at h
    simp only [Nat.zero_add] at h
    rw [check_bind_eq_ok, failIf_eq_ok] at h
    obtain ⟨hwhole, h⟩ := h
    have hle : header.fileSize.toNat ≤ rest.length := by omega
    have hmin : min header.fileSize.toNat rest.length = header.fileSize.toNat := by omega
    obtain ⟨⟨⟨⟩, tail'⟩, hfinish, h⟩ := bind_eq_ok.1 h
    rw [orInvalidCpio_eq_ok, hmin] at hfinish
    rw [pure_eq_ok, hmin] at h
    obtain ⟨rfl, rfl⟩ := Prod.mk.inj h
    exact ⟨hnew, .inr ⟨htrailer, (readPayload_eq_ok _ _ _ _).2 ⟨rfl, hle, hfinish⟩⟩⟩

/-- What the walk accepts: whole entries and a trailer that takes the rest of the
input, with a payload or without. -/
structure Validated (bytes : Bytes) (entries : List ArchiveEntry) (last : NewcEntry) : Prop where
  isTrailer : last.isTrailer = true
  split : ∃ body header payload, bytes = body ++ header ++ payload ∧ Body entries body ∧
    Reads NewcReader.new last header ∧ (NewcReader.finish last).run payload = .ok ((), [])

theorem validateWalk_validated {cancelled : Nat → Bool} {fuel turn : Nat} {bytes : Bytes}
    {entries : List ArchiveEntry} {last : NewcEntry}
    (h : validateWalk cancelled fuel turn bytes = .ok (entries, last)) :
    Validated bytes entries last := by
  induction fuel generalizing turn bytes entries with
  | zero => cases h
  | succ fuel ih =>
    rw [validateWalk, check_bind_eq_ok] at h
    obtain ⟨⟨entry, tail⟩, hentry, hstep⟩ := bind_eq_ok.1 h.2
    clear h
    obtain ⟨rest, hnew, hcase⟩ := validateEntry_eq_ok hentry
    obtain ⟨header, rfl, hheader⟩ := framed_new _ _ _ hnew
    rcases hcase with ⟨htrailer, hfinish⟩ | ⟨hname, hdata⟩
    · simp only [htrailer, if_true] at hstep
      obtain ⟨rfl, rfl⟩ := Prod.mk.inj (pure_eq_ok.1 hstep)
      exact ⟨htrailer, [], header, rest, rfl, .nil, hheader, hfinish⟩
    · simp only [hname, Bool.false_eq_true, if_false] at hstep
      obtain ⟨⟨entries', last'⟩, hwalk, hstep⟩ := bind_eq_ok.1 hstep
      obtain ⟨rfl, rfl⟩ := Prod.mk.inj (pure_eq_ok.1 hstep)
      obtain ⟨htrailer, body, lastHeader, trailing, rfl, hbody, hlast, hfinish⟩ := ih hwalk
      obtain ⟨payload, rfl, hpayload⟩ := framed_readPayload entry.header _ _ _ hdata
      refine ⟨htrailer, header ++ (payload ++ body), lastHeader, trailing, ?_,
        .cons hheader hname hpayload hbody, hlast, hfinish⟩
      simp only [append_assoc]

section
variable {bytes : Bytes} {entries : List ArchiveEntry} {last : NewcEntry}

variable (h : Validated bytes entries last)
include h

theorem Validated.complete (hsize : last.fileSize = 0) :
    ∃ body, Complete bytes entries body last := by
  obtain ⟨body, header, payload, rfl, hbody, hheader, hfinish⟩ := h.split
  have hnil : payload = [] := by
    rw [← nil_append payload, reads_finish_of_size hsize payload] at hfinish
    exact (Prod.mk.inj (Except.ok.inj hfinish)).2
  subst hnil
  exact ⟨body, hbody, ⟨header, [], rfl, hheader, by simp⟩, h.isTrailer, hsize⟩

theorem Validated.parse : parseArchive bytes = .ok ((entries, last), []) := by
  obtain ⟨body, header, payload, rfl, hbody, hheader, hfinish⟩ := h.split
  rw [append_assoc]
  exact hbody.parseArchive h.isTrailer hheader hfinish

theorem Validated.stripTrailer_iff (archive : String) :
    (∃ body, stripTrailer archive bytes = .ok body) ↔ last.fileSize = 0 := by
  constructor
  · rintro ⟨body, hstrip⟩
    obtain ⟨entries', last', hcomplete⟩ := stripTrailer_eq_ok.1 hstrip
    obtain ⟨tail, hparse, -⟩ := hcomplete.parse
    -- both walks end at the same trailer
    obtain ⟨⟨-, rfl⟩, -⟩ := (Prod.mk.inj (Except.ok.inj (hparse.symm.trans h.parse))).imp_left
      Prod.mk.inj
    exact hcomplete.empty
  · intro hsize
    obtain ⟨body, hcomplete⟩ := h.complete hsize
    exact ⟨body, stripTrailer_eq_ok.2 ⟨entries, last, hcomplete⟩⟩

end

/-- A merge with this base succeeds for every overlay with a trailer. -/
def MergesAsBase (base : Bytes) : Prop :=
  ∀ overlay body, stripTrailer "overlay rootfs" overlay = .ok body →
    ∃ merged, mergeRootfs base overlay = .ok merged

theorem mergesAsBase_iff (base : Bytes) :
    MergesAsBase base ↔ ∃ body, stripTrailer "base rootfs" base = .ok body := by
  constructor
  · intro h
    obtain ⟨merged, hmerged⟩ := h trailerBytes []
      (stripTrailer_eq_ok.2 ⟨[], _, complete_of_body .nil⟩)
    obtain ⟨body, hbody, -⟩ := bind_eq_ok.1 hmerged
    exact ⟨body, hbody⟩
  · rintro ⟨body, hbody⟩ overlay overlayBody hoverlay
    exact ⟨body ++ overlayBody ++ trailerBytes, bind_eq_ok.2 ⟨body, hbody,
      bind_eq_ok.2 ⟨overlayBody, hoverlay, rfl⟩⟩⟩

/-- An archive that the walk of `validate_blocking` accepts can be merged exactly
if its trailer has no payload.  What `strip_trailer` keeps then is the entries
the walk has visited. -/
theorem merged_of_validated_iff (cancelled : Nat → Bool) (bytes : Bytes)
    (entries : List ArchiveEntry) (last : NewcEntry)
    (h : validateWalk cancelled (bytes.length + 1) 0 bytes = .ok (entries, last)) :
    (MergesAsBase bytes ↔ last.fileSize = 0) ∧ ∀ body, stripTrailer "base rootfs" bytes = .ok body →
        parseArchive (body ++ trailerBytes) = .ok ((entries, trailerEntry), []) := by
  have hvalidated := validateWalk_validated h
  refine ⟨(mergesAsBase_iff bytes).trans (hvalidated.stripTrailer_iff _), fun body hstrip => ?_⟩
  obtain ⟨entries', last', hcomplete⟩ := stripTrailer_eq_ok.1 hstrip
  obtain ⟨tail, hparse, -⟩ := hcomplete.parse
  obtain ⟨⟨rfl, -⟩, -⟩ := (Prod.mk.inj (Except.ok.inj
    (hparse.symm.trans hvalidated.parse))).imp_left Prod.mk.inj
  exact parseArchive_complete hcomplete.whole

end Validation

set_option maxRecDepth 10000 in
theorem merged_of_initArchive : MergesAsBase initArchive ∧
    parseArchive (recordBytes initRecord ++ trailerBytes) =
      .ok (([archiveEntry initRecord], trailerEntry), []) := by
  have h := merged_of_validated_iff (fun _ => false) initArchive [archiveEntry initRecord]
    trailerEntry rfl
  exact ⟨h.1.2 rfl, h.2 (recordBytes initRecord) rfl⟩

/-- A trailer with a payload of four bytes. -/
def loadedTrailer : Bytes := encodeHeader Image.trailer 4 11 ++ [1, 2, 3, 4]

set_option maxRecDepth 10000 in
theorem loadedTrailer_rejected :
    validateBlocking id "rootfs.cpio" loadedTrailer (fun _ => false) (.ok loadedTrailer) = .ok () ∧
      stripTrailer "base rootfs" loadedTrailer =
        .error (invalidArchive "base rootfs" (.text "TRAILER!!! entry has a non-zero payload")) ∧
      ¬ MergesAsBase loadedTrailer := by
  have hstrip : stripTrailer "base rootfs" loadedTrailer =
      .error (invalidArchive "base rootfs" (.text "TRAILER!!! entry has a non-zero payload")) := rfl
  refine ⟨rfl, hstrip, fun h => ?_⟩
  obtain ⟨body, hbody⟩ := (mergesAsBase_iff _).1 h
  rw [hstrip] at hbody
  cases hbody

end Jyth.Boot
