import Jyth.Boot.Validators
import Jyth.Kernel.Path

/-!
# Extracting a kernel

`walk_cpio` of `kernel/src/ops/extract_kernel.rs`.  One pass over the archive
spools every file body to disk, and remembers where the first body of each
`(dev_major, ino)` lies and what the last entry of the requested name was.

    walkCpio publishes data  ↔  nothing else is wrong, and data is the body of the last requested
      entry or, if that is empty, the first body with its (dev_major, ino)    (walkCpio_published)

Neither the minor device number nor the link count is looked at, so an empty
file with a placeholder inode gets the body of a stranger (`placeholder_substituted`);
where they agree it gets one of its group (`kernel_from_group_iff`).
-/

namespace Jyth.Kernel

open Format Jyth.Image Jyth.Boot LastHit List Option

/-! ## The bzImage signature -/

def bootFlagOffset : Nat := 0x1fe
def bootFlag : Bytes := [0x55, 0xaa]
def hdrsOffset : Nat := 0x202
def hdrsMagic : Bytes := utf8 "HdrS"
def minBzimageLen : Nat := hdrsOffset + hdrsMagic.length

def invalidKernel (message : String) : Report := ⟨.invalidKernel, some message⟩

def validateBzimageSignature (bytes : Bytes) : Except Report Unit := do
  failIf (bytes.length < minBzimageLen) (invalidKernel
    s!"kernel body is too short: {bytes.length} bytes (< {minBzimageLen})")
  failIf ((bytes.drop bootFlagOffset).take 2 ≠ bootFlag)
    (invalidKernel "bzImage boot flag `55 aa` not present at offset 0x1fe")
  failIf ((bytes.drop hdrsOffset).take 4 ≠ hdrsMagic)
    (invalidKernel "bzImage `HdrS` magic not present at offset 0x202")

/-! ## The spool -/

/-- A body in the spool. -/
structure BodyRange where
  offset : Nat
  size : UInt32
deriving DecidableEq

/-- `BodySpool::append`, in pieces of 64 KiB.  Each turn takes a byte, so fuel for
`remaining` of them is enough (`appendLoop_eq`). -/
def appendLoop : Nat → Nat → Bytes → Bytes → Except Report (Bytes × Bytes)
  | 0, _, spool, s => .ok (spool, s)
  | fuel + 1, remaining, spool, s =>
    if remaining = 0 then .ok (spool, s)
    else
      let read := min (min (64 * 1024) remaining) s.length
      if read = 0 then
        .error ⟨.invalidCpio, some s!"body ended early: {remaining} bytes remaining"⟩
      else appendLoop fuel (remaining - read) (spool ++ s.take read) (s.drop read)

def BodyRange.slice (range : BodyRange) (spool : Bytes) : Bytes :=
  (spool.drop range.offset).take range.size.toNat

/-- The bytes of a range, once their head has passed the signature check. -/
def copySpooledBody (spool : Bytes) (range : BodyRange) : Except Report Bytes := do
  failIf (range.size = 0) (invalidKernel "requested kernel entry has a zero-length body")
  failIf ((range.slice spool).length < range.size.toNat) ⟨.readSource, none⟩
  validateBzimageSignature ((range.slice spool).take minBzimageLen)
  return range.slice spool

/-! ## The walk -/

def fileType (mode : UInt32) : UInt32 := mode &&& sIfmt

def fileTypeLabel (type : UInt32) : String :=
  if type = sIfdir then "directory"
  else if type = sIflnk then "symlink"
  else if type = 0o020000 then "character device"
  else if type = 0o060000 then "block device"
  else if type = 0o010000 then "fifo"
  else "non-regular entry"

abbrev Identity := UInt32 × UInt32

def identity (entry : NewcEntry) : Identity := (entry.devMajor, entry.ino)

def isRegular (entry : NewcEntry) : Bool := fileType entry.mode = sIfreg

def hasBody (entry : NewcEntry) : Bool := isRegular entry && entry.fileSize ≠ 0

/-- The variables of the loop of `walk_cpio`. -/
structure WalkState where
  spool : Bytes
  bodiesByIdentity : Table Identity BodyRange
  requestedIdentity : Option Identity
  requestedBody : Option BodyRange
  requestedSeen : Bool
  requestedInvalidType : Option String

namespace WalkState

def start : WalkState := ⟨[], fun _ => none, none, none, false, none⟩

def noteBody (state : WalkState) (identity : Identity) (body : BodyRange) : WalkState :=
  { state with
    bodiesByIdentity := state.bodiesByIdentity.insertNew identity body
    requestedBody := if state.requestedIdentity = some identity ∧ state.requestedBody = none
      then some body else state.requestedBody }

def noteRequested (state : WalkState) (entry : NewcEntry) (body : Option BodyRange) : WalkState :=
  let state := { state with requestedSeen := true, requestedIdentity := some (identity entry) }
  if isRegular entry then
    { state with requestedBody := body.or (state.bodiesByIdentity (identity entry)) }
  else { state with requestedInvalidType := some (fileTypeLabel (fileType entry.mode)) }

/-- The end of a turn: the body is noted, then the name. -/
def note (state : WalkState) (requested normalized : Bytes) (entry : NewcEntry)
    (body : Option BodyRange) : WalkState :=
  let state := match body with
    | some body => state.noteBody (identity entry) body
    | none => state
  if normalized = requested then state.noteRequested entry body else state

end WalkState

/-- How a walk without an error ends. -/
inductive WalkOutcome
  | published (bytes : Bytes)
  | notFound
deriving DecidableEq

/-- The answer at the trailer. -/
def conclude (requested : Bytes) (state : WalkState) : Except Report WalkOutcome :=
  match state.requestedInvalidType with
  | some kind => .error (invalidKernel ("requested kernel entry " ++ (text requested).quote ++
      " is a " ++ kind ++ ", not a regular file"))
  | none =>
    match state.requestedBody with
    | some body => .published <$> copySpooledBody state.spool body
    | none =>
      if state.requestedSeen then
        .error (invalidKernel "requested kernel hard-link group has no body")
      else .ok .notFound

/-- One turn: an answer at the trailer, or the state and the input behind an entry. -/
def walkStep [NewcReader] (requested : Bytes) (state : WalkState) (remaining : Bytes) :
    Except Report (WalkOutcome ⊕ WalkState × Bytes) := do
  let (entry, rest) ← orInvalidCpio (NewcReader.new.run remaining)
  if entry.isTrailer then do
    let (_, tail) ← orInvalidCpio ((NewcReader.finish entry).run rest)
    failIf (tail ≠ []) ⟨.invalidCpio, some "structural bytes after the CPIO trailer"⟩
    .inl <$> conclude requested state
  else do
    let normalized ← normalizePath entry.name
    if hasBody entry then do
      let size := entry.fileSize.toNat
      let (spool, unread) ← appendLoop size size state.spool rest
      let (_, tail) ← orInvalidCpio ((NewcReader.finishAfter entry size).run unread)
      return .inr ({ state with spool }.note requested normalized entry
        (some ⟨state.spool.length, entry.fileSize⟩), tail)
    else do
      let (_, tail) ← orInvalidCpio ((NewcReader.finish entry).run rest)
      return .inr (state.note requested normalized entry none, tail)

/-- The loop.  `cancelled` is what the token answers before each turn. -/
def walkLoop [NewcReader] (requested : Bytes) (cancelled : Nat → Bool) :
    Nat → Nat → WalkState → Bytes → Except Report WalkOutcome
  | 0, _, _, _ => .error ⟨.invalidCpio, none⟩
  | fuel + 1, turn, state, remaining => do
    failIf (cancelled turn = true) ⟨.cancelled, none⟩
    match ← walkStep requested state remaining with
    | .inl outcome => return outcome
    | .inr (state, tail) => walkLoop requested cancelled fuel (turn + 1) state tail

def walkCpio [NewcReader] (requested : Bytes) (cancelled : Nat → Bool) (bytes : Bytes) :
    Except Report WalkOutcome :=
  walkLoop requested cancelled bytes.length 0 .start bytes

/-! ## The walk over entries -/

def WalkState.take (state : WalkState) (requested normalized : Bytes) (entry : ArchiveEntry) :
    WalkState :=
  if hasBody entry.header then
    { state with spool := state.spool ++ entry.data }.note requested normalized entry.header
      (some ⟨state.spool.length, entry.header.fileSize⟩)
  else state.note requested normalized entry.header none

def walkEntries (requested : Bytes) (cancelled : Nat → Bool) :
    Nat → WalkState → List ArchiveEntry → Except Report WalkOutcome
  | turn, state, [] => do
    failIf (cancelled turn = true) ⟨.cancelled, none⟩
    conclude requested state
  | turn, state, entry :: entries => do
    failIf (cancelled turn = true) ⟨.cancelled, none⟩
    let normalized ← normalizePath entry.header.name
    walkEntries requested cancelled (turn + 1) (state.take requested normalized entry) entries

theorem appendLoop_eq (fuel remaining : Nat) (spool s : Bytes) (hfuel : remaining ≤ fuel)
    (hlen : remaining ≤ s.length) :
    appendLoop fuel remaining spool s = .ok (spool ++ s.take remaining, s.drop remaining) := by
  induction fuel generalizing remaining spool s with
  | zero =>
    obtain rfl : remaining = 0 := by omega
    simp [appendLoop]
  | succ fuel ih =>
    rw [appendLoop]
    by_cases hzero : remaining = 0
    · simp [hzero]
    have hread : ¬ min (min (64 * 1024) remaining) s.length = 0 := by omega
    simp only [if_neg hzero, if_neg hread]
    generalize hk : min (min (64 * 1024) remaining) s.length = k at *
    rw [ih _ _ _ (by omega) (by rw [length_drop]; omega), append_assoc, ← take_add, drop_drop]
    have hsum : k + (remaining - k) = remaining := by omega
    rw [hsum]

variable {entries : List ArchiveEntry}

section
variable {requested : Bytes} {cancelled : Nat → Bool} {state : WalkState} {bytes rest : Bytes}

theorem walkStep_trailer [NewcReader] {last : NewcEntry}
    (hnew : NewcReader.new.run bytes = .ok (last, rest))
    (hlast : last.isTrailer = true) (hfinish : (NewcReader.finish last).run rest = .ok ((), [])) :
    walkStep requested state bytes = .inl <$> conclude requested state := by
  rw [walkStep, hnew]
  simp only [orInvalidCpio, bind, Except.bind, hlast, if_true]
  rw [hfinish]
  simp [failIf]

theorem walkStep_entry [NewcReader] (entry : ArchiveEntry) {tail : Bytes}
    (hnew : NewcReader.new.run bytes = .ok (entry.header, rest))
    (hname : entry.header.isTrailer = false)
    (hdata : (readPayload entry.header).run rest = .ok (entry.data, tail)) :
    walkStep requested state bytes =
      (fun normalized => .inr (state.take requested normalized entry, tail)) <$>
        normalizePath entry.header.name := by
  obtain ⟨htaken, hlen, hfinish⟩ := (readPayload_eq_ok _ _ _ _).1 hdata
  rw [walkStep, hnew]
  simp only [orInvalidCpio, bind, Except.bind, hname, Bool.false_eq_true, if_false]
  cases normalizePath entry.header.name with
  | error report => rfl
  | ok normalized =>
    simp only [Functor.map, Except.map, WalkState.take]
    cases hbody : hasBody entry.header with
    | true =>
      rw [appendLoop_eq _ _ _ _ (Nat.le_refl _) hlen, ← htaken]
      simp only [if_true]
      rw [hfinish]
      rfl
    | false =>
      rw [finish_of_readPayload hdata]
      rfl

theorem walkLoop_of_parse [NewcReader] {fuel turn : Nat} {last : NewcEntry}
    (h : (parseEntries fuel).run bytes = .ok ((entries, last), [])) :
    walkLoop requested cancelled fuel turn state bytes =
      walkEntries requested cancelled turn state entries := by
  induction fuel generalizing turn state bytes entries with
  | zero => cases h
  | succ fuel ih =>
    obtain ⟨header, rest, hnew, h⟩ := run_bind_ok.1 h
    cases htrailer : header.isTrailer with
    | true =>
      rw [if_pos htrailer] at h
      obtain ⟨⟨⟩, tail, hfinish, hpure⟩ := run_bind_ok.1 h
      obtain ⟨hentries, rfl⟩ := Prod.mk.inj (Except.ok.inj hpure)
      obtain ⟨rfl, rfl⟩ := Prod.mk.inj hentries
      rw [walkLoop, walkEntries, walkStep_trailer hnew htrailer hfinish]
      cases failIf (cancelled turn = true) (⟨.cancelled, none⟩ : Report) with
      | error report => rfl
      | ok => cases conclude requested state <;> rfl
    | false =>
      rw [if_neg (by simp [htrailer])] at h
      obtain ⟨data, tail, hdata, h⟩ := run_bind_ok.1 h
      obtain ⟨⟨entries', last'⟩, tail', hparse, hpure⟩ := run_bind_ok.1 h
      obtain ⟨hentries, rfl⟩ := Prod.mk.inj (Except.ok.inj hpure)
      obtain ⟨rfl, rfl⟩ := Prod.mk.inj hentries
      rw [walkLoop, walkEntries, walkStep_entry ⟨header, data⟩ hnew htrailer hdata]
      cases failIf (cancelled turn = true) (⟨.cancelled, none⟩ : Report) with
      | error report => rfl
      | ok =>
        cases normalizePath header.name with
        | error report => rfl
        | ok normalized => exact ih hparse

end

/-! ## What the walk has seen -/

def isRequested (requested : Bytes) (entry : ArchiveEntry) : Bool :=
  match normalizePath entry.header.name with
  | .ok normalized => normalized = requested
  | .error _ => false

def firstBody (id : Identity) (entries : List ArchiveEntry) : Option Bytes :=
  (entries.find? fun entry => hasBody entry.header && identity entry.header = id).map
    ArchiveEntry.data

def chosenBody (requested : Bytes) (entries : List ArchiveEntry) : Option Bytes :=
  match lastWhere (isRequested requested) entries with
  | none => none
  | some entry =>
    if hasBody entry.header then some entry.data
    else firstBody (identity entry.header) entries

def isMistyped (requested : Bytes) (entry : ArchiveEntry) : Bool :=
  isRequested requested entry && !isRegular entry.header

/-- The range in the spool holds the body. -/
inductive Denotes (spool : Bytes) : Option BodyRange → Option Bytes → Prop
  | none : Denotes spool none none
  | some {range : BodyRange} (hsize : range.size ≠ 0)
      (hfits : range.offset + range.size.toNat ≤ spool.length) :
      Denotes spool (some range) (some (range.slice spool))

variable {spool : Bytes} {body : Option Bytes} {range : Option BodyRange}

theorem BodyRange.slice_append {range : BodyRange}
    (h : range.offset + range.size.toNat ≤ spool.length) (more : Bytes) :
    range.slice (spool ++ more) = range.slice spool := by
  unfold BodyRange.slice
  rw [drop_append_of_le_length (by omega), take_append_of_le_length]
  rw [length_drop]
  omega

theorem Denotes.append
    (h : Denotes spool range body) (more : Bytes) : Denotes (spool ++ more) range body := by
  cases h with
  | none => exact .none
  | @some range hsize hfits =>
    rw [← BodyRange.slice_append hfits more]
    exact .some hsize (by rw [length_append]; omega)

variable {entry : ArchiveEntry}

theorem denotes_spooled (hdata : entry.data.length = entry.header.fileSize.toNat)
    (hbody : hasBody entry.header = true) (spool : Bytes) :
    Denotes (spool ++ entry.data) (some ⟨spool.length, entry.header.fileSize⟩) (some entry.data) := by
  have hslice : entry.data =
      BodyRange.slice ⟨spool.length, entry.header.fileSize⟩ (spool ++ entry.data) := by
    unfold BodyRange.slice
    rw [drop_left, ← hdata, take_length]
  have hsize : entry.header.fileSize ≠ 0 := by
    simp only [hasBody, Bool.and_eq_true, decide_eq_true_eq] at hbody
    exact hbody.2
  nth_rewrite 2 [hslice]
  exact .some hsize (by rw [length_append, hdata])

theorem denotes_none_iff (h : Denotes spool range body) : range = none ↔ body = none := by
  cases h <;> simp

/-- The state of the walk behind these entries. -/
structure Seen (requested : Bytes) (entries : List ArchiveEntry) (state : WalkState) : Prop where
  bodies : ∀ id, Denotes state.spool (state.bodiesByIdentity id) (firstBody id entries)
  seen : state.requestedSeen = entries.any (isRequested requested)
  last : state.requestedIdentity =
    (lastWhere (isRequested requested) entries).map fun entry => identity entry.header
  mistyped : state.requestedInvalidType = none ↔ ∀ entry ∈ entries, isMistyped requested entry = false
  body : (∀ entry ∈ entries, isMistyped requested entry = false) →
    Denotes state.spool state.requestedBody (chosenBody requested entries)

theorem seen_start (requested : Bytes) : Seen requested [] .start :=
  ⟨fun _ => .none, rfl, rfl, by simp [WalkState.start], fun _ => .none⟩

theorem firstBody_concat (id : Identity) (entries : List ArchiveEntry) (entry : ArchiveEntry) :
    firstBody id (entries ++ [entry]) = (firstBody id entries).or
      (if hasBody entry.header = true ∧ identity entry.header = id then some entry.data
        else none) := by
  unfold firstBody
  rw [find?_append, map_or]
  congr 1
  by_cases h : hasBody entry.header = true ∧ identity entry.header = id
  · simp [h]
  · rw [if_neg h]
    simpa using h

variable {requested : Bytes}

theorem chosenBody_concat_requested (h : isRequested requested entry = true) :
    chosenBody requested (entries ++ [entry]) = if hasBody entry.header then some entry.data
      else firstBody (identity entry.header) (entries ++ [entry]) := by
  rw [chosenBody, lastWhere_concat, if_pos h]

theorem chosenBody_concat_other (h : isRequested requested entry = false) :
    chosenBody requested (entries ++ [entry]) = (chosenBody requested entries).or
      (if hasBody entry.header = true ∧ (lastWhere (isRequested requested) entries).map
          (fun r => identity r.header) = some (identity entry.header) then some entry.data
        else none) := by
  rw [chosenBody, chosenBody, lastWhere_concat, if_neg (by simp [h])]
  cases lastWhere (isRequested requested) entries with
  | none => simp
  | some r =>
    simp only [map_some, some.injEq]
    split
    · rfl
    · rw [firstBody_concat]
      simp only [eq_comm]

/-! ### One turn -/

section
variable (state : WalkState) (requested normalized : Bytes) (entry : ArchiveEntry)

def WalkState.next : BodyRange := ⟨state.spool.length, entry.header.fileSize⟩

theorem take_spool : (state.take requested normalized entry).spool =
    if hasBody entry.header then state.spool ++ entry.data else state.spool := by
  unfold WalkState.take WalkState.note WalkState.noteBody WalkState.noteRequested
  split_ifs <;> rfl

theorem take_bodies : (state.take requested normalized entry).bodiesByIdentity =
    if hasBody entry.header then
      state.bodiesByIdentity.insertNew (identity entry.header) (state.next entry)
    else state.bodiesByIdentity := by
  unfold WalkState.take WalkState.note WalkState.noteBody WalkState.noteRequested
  split_ifs <;> rfl

theorem take_seen : (state.take requested normalized entry).requestedSeen =
    (state.requestedSeen || (normalized = requested : Bool)) := by
  unfold WalkState.take WalkState.note WalkState.noteBody WalkState.noteRequested
  split_ifs <;> simp [*]

theorem take_identity : (state.take requested normalized entry).requestedIdentity =
    if normalized = requested then some (identity entry.header) else state.requestedIdentity := by
  unfold WalkState.take WalkState.note WalkState.noteBody WalkState.noteRequested
  split_ifs <;> rfl

theorem take_invalidType : (state.take requested normalized entry).requestedInvalidType =
    if normalized = requested ∧ isRegular entry.header = false then
      some (fileTypeLabel (fileType entry.header.mode)) else state.requestedInvalidType := by
  unfold WalkState.take WalkState.note WalkState.noteBody WalkState.noteRequested
  split_ifs <;> simp_all

theorem take_body_requested (hname : normalized = requested)
    (hregular : isRegular entry.header = true) :
    (state.take requested normalized entry).requestedBody =
      if hasBody entry.header then some (state.next entry)
      else state.bodiesByIdentity (identity entry.header) := by
  unfold WalkState.take WalkState.note WalkState.noteBody WalkState.noteRequested
  simp only [if_pos hname, if_pos hregular]
  split_ifs <;> rfl

theorem take_body_other (hname : normalized ≠ requested) :
    (state.take requested normalized entry).requestedBody =
      state.requestedBody.or (if hasBody entry.header = true ∧
        state.requestedIdentity = some (identity entry.header) then some (state.next entry)
        else none) := by
  unfold WalkState.take WalkState.note WalkState.noteBody
  simp only [if_neg hname]
  cases hold : state.requestedBody <;> by_cases hbody : hasBody entry.header = true <;>
    simp [hbody, hold, WalkState.next]

end

theorem Denotes.or {spool : Bytes} {range range' : Option BodyRange} {body body' : Option Bytes}
    (h : Denotes spool range body) (h' : Denotes spool range' body') :
    Denotes spool (range.or range') (body.or body') := by
  cases h with
  | none => simpa using h'
  | some hsize hfits => exact .some hsize hfits

section
variable {requested normalized : Bytes} {entries : List ArchiveEntry} {state : WalkState}
  {entry : ArchiveEntry}

theorem isRequested_eq (requested : Bytes)
    (hname : normalizePath entry.header.name = .ok normalized) :
    isRequested requested entry = (normalized = requested : Bool) := by
  rw [isRequested, hname]

theorem Denotes.take {range : Option BodyRange} {body : Option Bytes}
    (h : Denotes state.spool range body) :
    Denotes (state.take requested normalized entry).spool range body := by
  rw [take_spool]
  split_ifs
  · exact h.append _
  · exact h

section
variable (hdata : entry.data.length = entry.header.fileSize.toNat)
include hdata

theorem denotes_next (hbody : hasBody entry.header = true) :
    Denotes (state.take requested normalized entry).spool (some (state.next entry))
      (some entry.data) := by
  rw [take_spool, if_pos hbody]
  exact denotes_spooled hdata hbody _

section

variable (h : Seen requested entries state)
include h

theorem Seen.bodies_take (id : Identity) : Denotes (state.take requested normalized entry).spool
      ((state.take requested normalized entry).bodiesByIdentity id)
      (firstBody id (entries ++ [entry])) := by
  rw [firstBody_concat, take_bodies]
  by_cases hbody : hasBody entry.header = true
  · rw [if_pos hbody, Table.insertNew_apply]
    refine (h.bodies id).take.or ?_
    by_cases hid : identity entry.header = id
    · rw [if_pos hid, if_pos ⟨hbody, hid⟩]
      exact denotes_next hdata hbody
    · rw [if_neg hid, if_neg fun hand => hid hand.2]
      exact .none
  · rw [if_neg hbody, if_neg (fun hand => hbody hand.1), or_none]
    exact (h.bodies id).take

theorem Seen.body_take (hname : normalizePath entry.header.name = .ok normalized)
    (htyped : ∀ e ∈ entries ++ [entry], isMistyped requested e = false) :
    Denotes (state.take requested normalized entry).spool
      (state.take requested normalized entry).requestedBody
      (chosenBody requested (entries ++ [entry])) := by
  have hrequested := isRequested_eq requested hname
  obtain ⟨hbefore, hentry⟩ := forall_mem_append.1 htyped
  have hlast := hentry entry (mem_singleton.2 rfl)
  rw [isMistyped, hrequested] at hlast
  by_cases heq : normalized = requested
  · have hregular : isRegular entry.header = true := by simpa [heq] using hlast
    rw [chosenBody_concat_requested (by simp [hrequested, heq]),
      take_body_requested _ _ _ _ heq hregular]
    have hfound : Denotes (state.take requested normalized entry).spool _ _ :=
      h.bodies_take hdata (identity entry.header)
    rw [take_bodies] at hfound
    split_ifs with hbody
    · exact denotes_next hdata hbody
    · rwa [if_neg hbody] at hfound
  · rw [chosenBody_concat_other (by simp [hrequested, heq]), take_body_other _ _ _ _ heq]
    refine (h.body hbefore).take.or ?_
    rw [h.last]
    split_ifs with hlate
    · exact denotes_next hdata hlate.1
    · exact .none

theorem Seen.next (hname : normalizePath entry.header.name = .ok normalized) :
    Seen requested (entries ++ [entry]) (state.take requested normalized entry) := by
  have hrequested := isRequested_eq requested hname
  refine ⟨h.bodies_take hdata, ?_, ?_, ?_, h.body_take hdata hname⟩
  · rw [take_seen, h.seen, any_append, any_cons, any_nil, Bool.or_false, hrequested]
  · rw [take_identity, lastWhere_concat, hrequested, h.last]
    by_cases heq : normalized = requested <;> simp [heq]
  · rw [take_invalidType, forall_mem_append, ← h.mistyped, forall_mem_singleton,
      isMistyped, hrequested]
    by_cases hmis : normalized = requested ∧ isRegular entry.header = false
    · rw [if_pos hmis]
      simp [hmis]
    · rw [if_neg hmis]
      simpa using fun _ => hmis

end

end

end

/-! ### The whole walk -/

/-- The check of a body that is published. -/
def IsBzimage (data : Bytes) : Prop := validateBzimageSignature (data.take minBzimageLen) = .ok ()

variable {data : Bytes} {last : NewcEntry} {id : Identity}

theorem copySpooledBody_eq_ok {spool data' : Bytes} {range : BodyRange}
    (h : Denotes spool (some range) (some data)) :
    copySpooledBody spool range = .ok data' ↔ data' = data ∧ IsBzimage data := by
  cases h with
  | some hsize hfits =>
    have hlen : ¬ (range.slice spool).length < range.size.toNat := by
      unfold BodyRange.slice
      rw [length_take, length_drop]
      omega
    rw [copySpooledBody, check_bind_eq_ok, check_bind_eq_ok, check_bind_eq_ok, pure_eq_ok,
      failIf_eq_ok, failIf_eq_ok, eq_comm (a := data')]
    simp only [hsize, hlen, not_false_eq_true, true_and]
    exact and_comm

theorem conclude_eq_published {state : WalkState} (h : Seen requested entries state) :
    conclude requested state = .ok (.published data) ↔
      (∀ entry ∈ entries, isMistyped requested entry = false) ∧
        chosenBody requested entries = some data ∧ IsBzimage data := by
  rw [← h.mistyped]
  unfold conclude
  cases hkind : state.requestedInvalidType with
  | some kind => simp
  | none =>
    have hbody := h.body (h.mistyped.1 hkind)
    cases hrange : state.requestedBody with
    | none =>
      rw [hrange] at hbody
      rw [(denotes_none_iff hbody).1 rfl]
      simp only [reduceCtorEq, false_and, and_false, iff_false]
      split_ifs <;> simp
    | some range =>
      rw [hrange] at hbody
      cases hchosen : chosenBody requested entries with
      | none =>
        rw [hchosen] at hbody
        cases hbody
      | some chosen =>
        rw [hchosen] at hbody
        have hmap : (.published <$> copySpooledBody state.spool range : Except Report WalkOutcome) =
            .ok (.published data) ↔ copySpooledBody state.spool range = .ok data := by
          cases copySpooledBody state.spool range <;> simp [Functor.map, Except.map]
        rw [hmap, copySpooledBody_eq_ok hbody, some.injEq, eq_comm]
        simp only [true_and]
        constructor
        · rintro ⟨rfl, hsignature⟩
          exact ⟨rfl, hsignature⟩
        · rintro ⟨rfl, hsignature⟩
          exact ⟨rfl, hsignature⟩

/-- Nothing stops the walk before its end. -/
structure Walkable (requested : Bytes) (cancelled : Nat → Bool) (entries : List ArchiveEntry) :
    Prop where
  running : ∀ turn ≤ entries.length, cancelled turn = false
  named : ∀ entry ∈ entries, ∃ normalized, normalizePath entry.header.name = .ok normalized
  typed : ∀ entry ∈ entries, isMistyped requested entry = false

/-- The walk ends, and the body it has chosen is a kernel. -/
structure Publishes (requested : Bytes) (cancelled : Nat → Bool) (entries : List ArchiveEntry)
    (data : Bytes) : Prop extends Walkable requested cancelled entries where
  chosen : chosenBody requested entries = some data
  signed : IsBzimage data

variable {cancelled : Nat → Bool}

theorem walkEntries_published {state : WalkState}
    {done entries : List ArchiveEntry} {turn : Nat} (h : Seen requested done state)
    (hsized : ∀ entry ∈ entries, entry.data.length = entry.header.fileSize.toNat) :
    walkEntries requested cancelled turn state entries = .ok (.published data) ↔
      (∀ k ≤ entries.length, cancelled (turn + k) = false) ∧
      (∀ entry ∈ entries, ∃ normalized, normalizePath entry.header.name = .ok normalized) ∧
      (∀ entry ∈ done ++ entries, isMistyped requested entry = false) ∧
      chosenBody requested (done ++ entries) = some data ∧ IsBzimage data := by
  induction entries generalizing done state turn with
  | nil =>
    rw [walkEntries, check_bind_eq_ok, failIf_eq_ok, conclude_eq_published h, append_nil]
    simp
  | cons entry entries ih =>
    obtain ⟨hentry, hrest⟩ := forall_mem_cons.1 hsized
    rw [walkEntries, check_bind_eq_ok, failIf_eq_ok, bind_eq_ok]
    have hturns : (∀ k ≤ (entry :: entries).length, cancelled (turn + k) = false) ↔
        cancelled turn = false ∧ ∀ k ≤ entries.length, cancelled (turn + 1 + k) = false := by
      constructor
      · intro hall
        refine ⟨hall 0 (Nat.zero_le _), fun k hk => ?_⟩
        rw [Nat.add_assoc, Nat.add_comm 1 k]
        exact hall (k + 1) (Nat.succ_le_succ hk)
      · rintro ⟨hzero, hsucc⟩ k hk
        cases k with
        | zero => exact hzero
        | succ k =>
          rw [Nat.add_comm k 1, ← Nat.add_assoc]
          exact hsucc k (Nat.le_of_succ_le_succ hk)
    rw [hturns, forall_mem_cons, Bool.not_eq_true]
    constructor
    · rintro ⟨hrunning, normalized, hname, hwalk⟩
      obtain ⟨hturn, hnamed, htyped, hchosen⟩ := (ih (h.next hentry hname) hrest).1 hwalk
      rw [append_assoc, singleton_append] at htyped hchosen
      exact ⟨⟨hrunning, hturn⟩, ⟨⟨normalized, hname⟩, hnamed⟩, htyped, hchosen⟩
    · rintro ⟨⟨hrunning, hturn⟩, ⟨⟨normalized, hname⟩, hnamed⟩, htyped, hchosen⟩
      refine ⟨hrunning, normalized, hname, (ih (h.next hentry hname) hrest).2 ?_⟩
      rw [append_assoc, singleton_append]
      exact ⟨hturn, hnamed, htyped, hchosen⟩

theorem sized_of_parse [NewcReader] {fuel : Nat} {bytes tail : Bytes}
    (h : (parseEntries fuel).run bytes = .ok ((entries, last), tail)) :
    ∀ entry ∈ entries, entry.data.length = entry.header.fileSize.toNat := by
  induction fuel generalizing bytes tail entries last with
  | zero => cases h
  | succ fuel ih =>
    obtain ⟨header, rest, hnew, h⟩ := run_bind_ok.1 h
    cases htrailer : header.isTrailer with
    | true =>
      rw [if_pos htrailer] at h
      obtain ⟨⟨⟩, tail', hfinish, hpure⟩ := run_bind_ok.1 h
      obtain ⟨rfl, -⟩ := Prod.mk.inj (Prod.mk.inj (Except.ok.inj hpure)).1
      simp
    | false =>
      rw [if_neg (by simp [htrailer])] at h
      obtain ⟨data, tail', hdata, h⟩ := run_bind_ok.1 h
      obtain ⟨⟨entries', last'⟩, tail'', hparse, hpure⟩ := run_bind_ok.1 h
      obtain ⟨rfl, -⟩ := Prod.mk.inj (Prod.mk.inj (Except.ok.inj hpure)).1
      refine forall_mem_cons.2 ⟨?_, ih hparse⟩
      obtain ⟨rfl, hle, -⟩ := (readPayload_eq_ok _ _ _ _).1 hdata
      exact length_take_of_le hle

theorem walkCpio_published [NewcReader] {bytes : Bytes}
    (h : parseArchive bytes = .ok ((entries, last), [])) :
    walkCpio requested cancelled bytes = .ok (.published data) ↔
      Publishes requested cancelled entries data := by
  rw [walkCpio, walkLoop_of_parse h, walkEntries_published (seen_start requested) (sized_of_parse h)]
  simp only [Nat.zero_add, nil_append]
  constructor
  · rintro ⟨hrunning, hnamed, htyped, hchosen, hsigned⟩
    exact ⟨⟨hrunning, hnamed, htyped⟩, hchosen, hsigned⟩
  · rintro ⟨⟨hrunning, hnamed, htyped⟩, hchosen, hsigned⟩
    exact ⟨hrunning, hnamed, htyped, hchosen, hsigned⟩

/-! ## Groups -/

/-- Hard links of one file. -/
structure SameGroup (a b : NewcEntry) : Prop where
  devMajor : a.devMajor = b.devMajor
  devMinor : a.devMinor = b.devMinor
  ino : a.ino = b.ino
  linked : 1 < a.nlink ∧ 1 < b.nlink

/-- The last requested entry and the one whose bytes are taken for it. -/
def kernelSource (requested : Bytes) (entries : List ArchiveEntry) :
    Option (ArchiveEntry × ArchiveEntry) :=
  (lastWhere (isRequested requested) entries).bind fun r =>
    if hasBody r.header then some (r, r)
    else (entries.find? fun m => hasBody m.header && identity m.header = identity r.header).map
      (Prod.mk r)

/-- The bytes are those of the requested entry or, if it is empty, of one in its group. -/
def FromGroup (r m : ArchiveEntry) : Prop := m = r ∨ r.data = [] ∧ SameGroup r.header m.header

theorem chosenBody_eq (requested : Bytes) (entries : List ArchiveEntry) :
    chosenBody requested entries = (kernelSource requested entries).map fun p => p.2.data := by
  unfold chosenBody kernelSource
  cases lastWhere (isRequested requested) entries with
  | none => rfl
  | some r =>
    simp only [bind_some]
    split
    · rfl
    · rw [firstBody, Option.map_map]
      rfl

variable {requested : Bytes} {r m : ArchiveEntry}

theorem kernelSource_eq_some (h : kernelSource requested entries = some (r, m)) :
    (r ∈ entries ∧ isRequested requested r = true) ∧ m ∈ entries ∧
      (hasBody r.header = true ∧ m = r ∨ hasBody r.header = false ∧ hasBody m.header = true ∧
        identity m.header = identity r.header) := by
  obtain ⟨r', hlast, h⟩ := bind_eq_some_iff.1 h
  have hr := lastWhere_eq_some hlast
  split at h
  · next hbody =>
    cases h
    exact ⟨hr, hr.1, .inl ⟨hbody, rfl⟩⟩
  · next hbody =>
    obtain ⟨m', hfind, h⟩ := map_eq_some_iff.1 h
    cases h
    have hm := find?_some hfind
    simp only [Bool.and_eq_true, decide_eq_true_eq] at hm
    exact ⟨hr, mem_of_find?_eq_some hfind, .inr ⟨Bool.eq_false_iff.2 hbody, hm⟩⟩

/-! ## The order of the entries -/

/-- What the walk takes for a requested entry in some order of the entries. -/
def Candidate (requested : Bytes) (entries : List ArchiveEntry) (body : Option Bytes) : Prop :=
  ∃ r ∈ entries, isRequested requested r = true ∧
    (hasBody r.header = true ∧ body = some r.data ∨ hasBody r.header = false ∧
      ((∃ m ∈ entries, hasBody m.header = true ∧ identity m.header = identity r.header ∧
          body = some m.data) ∨
        (∀ m ∈ entries, hasBody m.header = true → identity m.header ≠ identity r.header) ∧
          body = none))

/-- There is a body, and it is a kernel. -/
def Valid (body : Option Bytes) : Prop := ∃ data, body = some data ∧ IsBzimage data

section Order
variable {entries' : List ArchiveEntry}

theorem Candidate.perm (hperm : entries.Perm entries') {body : Option Bytes}
    (h : Candidate requested entries body) : Candidate requested entries' body := by
  obtain ⟨r, hr, hrequested, hbody⟩ := h
  refine ⟨r, hperm.mem_iff.1 hr, hrequested, ?_⟩
  simpa only [hperm.mem_iff] using hbody

theorem Walkable.perm (hperm : entries.Perm entries')
    (h : Walkable requested cancelled entries) : Walkable requested cancelled entries' :=
  ⟨hperm.length_eq ▸ h.running, fun e he => h.named e (hperm.mem_iff.2 he),
    fun e he => h.typed e (hperm.mem_iff.2 he)⟩

theorem firstBody_eq_none {id : Identity} : firstBody id entries = none ↔
    ∀ m ∈ entries, hasBody m.header = true → identity m.header ≠ id := by
  rw [firstBody, map_eq_none_iff, find?_eq_none]
  simp

theorem candidate_chosenBody (hr : ∃ r ∈ entries, isRequested requested r = true) :
    Candidate requested entries (chosenBody requested entries) := by
  obtain ⟨r, hmem, hrequested⟩ := hr
  cases hlast : lastWhere (isRequested requested) entries with
  | none =>
    rw [lastWhere_eq_none.1 hlast r hmem] at hrequested
    cases hrequested
  | some r =>
    obtain ⟨hmem, hrequested⟩ := lastWhere_eq_some hlast
    refine ⟨r, hmem, hrequested, ?_⟩
    rw [chosenBody, hlast]
    cases hbody : hasBody r.header with
    | true => exact .inl ⟨rfl, by simp [hbody]⟩
    | false =>
      refine .inr ⟨rfl, ?_⟩
      simp only [hbody, Bool.false_eq_true, if_false]
      cases hfirst : firstBody (identity r.header) entries with
      | none => exact .inr ⟨firstBody_eq_none.1 hfirst, rfl⟩
      | some data =>
        obtain ⟨m, hfind, rfl⟩ := map_eq_some_iff.1 hfirst
        have hm := find?_some hfind
        simp only [Bool.and_eq_true, decide_eq_true_eq] at hm
        exact .inl ⟨m, mem_of_find?_eq_some hfind, hm.1, hm.2, rfl⟩

/-- Some order makes the walk take it: the requested entry last, the one with the body first. -/
theorem Candidate.exists_perm {body : Option Bytes} (h : Candidate requested entries body) :
    ∃ entries', entries.Perm entries' ∧ chosenBody requested entries' = body := by
  obtain ⟨r, hr, hrequested, hbody⟩ := h
  obtain ⟨front, back, rfl⟩ := append_of_mem hr
  have hlast : (front ++ r :: back).Perm (front ++ back ++ [r]) :=
    perm_middle.trans (perm_append_singleton r _).symm
  rcases hbody with ⟨hown, rfl⟩ | ⟨hempty, ⟨m, hm, hmbody, hid, rfl⟩ | ⟨hnone, rfl⟩⟩
  · exact ⟨_, hlast, by rw [chosenBody_concat_requested hrequested, if_pos hown]⟩
  · have hne : m ≠ r := by
      rintro rfl
      rw [hempty] at hmbody
      cases hmbody
    have hm' : m ∈ front ++ back := by simpa [hne] using hm
    obtain ⟨front', back', heq⟩ := append_of_mem hm'
    refine ⟨m :: (front' ++ back') ++ [r], hlast.trans ?_, ?_⟩
    · rw [heq]
      exact perm_middle.append_right [r]
    · rw [chosenBody_concat_requested hrequested, hempty, if_neg Bool.false_ne_true, firstBody]
      simp [hmbody, hid]
  · refine ⟨_, hlast, ?_⟩
    rw [chosenBody_concat_requested hrequested, hempty, if_neg Bool.false_ne_true]
    exact firstBody_eq_none.2 fun m hm => hnone m (hlast.mem_iff.2 hm)

theorem walkEntries_succeeds_iff
    (hsized : ∀ entry ∈ entries, entry.data.length = entry.header.fileSize.toNat) :
    (∃ data, walkEntries requested cancelled 0 .start entries = .ok (.published data)) ↔
      Walkable requested cancelled entries ∧ Valid (chosenBody requested entries) := by
  simp only [walkEntries_published (seen_start requested) hsized, Nat.zero_add, nil_append]
  constructor
  · rintro ⟨data, hrunning, hnamed, htyped, hchosen, hsigned⟩
    exact ⟨⟨hrunning, hnamed, htyped⟩, data, hchosen, hsigned⟩
  · rintro ⟨⟨hrunning, hnamed, htyped⟩, data, hchosen, hsigned⟩
    exact ⟨data, hrunning, hnamed, htyped, hchosen, hsigned⟩

theorem succeeds_in_any_order_iff
    (hsized : ∀ entry ∈ entries, entry.data.length = entry.header.fileSize.toNat) :
    (∀ entries', entries.Perm entries' →
      ((∃ data, walkEntries requested cancelled 0 .start entries' = .ok (.published data)) ↔
        ∃ data, walkEntries requested cancelled 0 .start entries = .ok (.published data))) ↔
      (Walkable requested cancelled entries →
        (∀ body, Candidate requested entries body → Valid body) ∨
          ∀ body, Candidate requested entries body → ¬ Valid body) := by
  have hsuccess : ∀ entries', entries.Perm entries' →
      ((∃ data, walkEntries requested cancelled 0 .start entries' = .ok (.published data)) ↔
        Walkable requested cancelled entries ∧ Valid (chosenBody requested entries')) := by
    intro entries' hperm
    rw [walkEntries_succeeds_iff fun e he => hsized e (hperm.mem_iff.2 he)]
    exact and_congr_left fun _ => ⟨Walkable.perm hperm.symm, Walkable.perm hperm⟩
  constructor
  · intro hfree hwalkable
    by_contra hmixed
    simp only [not_or, not_forall, not_not] at hmixed
    obtain ⟨⟨bad, hbad, hinvalid⟩, good, hgood, hvalid⟩ := hmixed
    obtain ⟨l, hl, rfl⟩ := hbad.exists_perm
    obtain ⟨l', hl', rfl⟩ := hgood.exists_perm
    have hboth := (hfree l' hl').trans (hfree l hl).symm
    rw [hsuccess l hl, hsuccess l' hl'] at hboth
    exact hinvalid (hboth.1 ⟨hwalkable, hvalid⟩).2
  · intro huniform entries' hperm
    rw [hsuccess entries' hperm, hsuccess entries (.refl _)]
    refine and_congr_right fun hwalkable => ?_
    by_cases hr : ∃ r ∈ entries, isRequested requested r = true
    · have hchosen := candidate_chosenBody hr
      have hchosen' : Candidate requested entries (chosenBody requested entries') := by
        refine (candidate_chosenBody ?_).perm hperm.symm
        simpa only [hperm.mem_iff] using hr
      rcases huniform hwalkable with hall | hnone
      · exact iff_of_true (hall _ hchosen') (hall _ hchosen)
      · exact iff_of_false (hnone _ hchosen') (hnone _ hchosen)
    · have hnothing : ∀ l, entries.Perm l → chosenBody requested l = none := by
        intro l hl
        have hlast : lastWhere (isRequested requested) l = none :=
          lastWhere_eq_none.2 fun e he =>
            Bool.eq_false_iff.2 fun he' => hr ⟨e, hl.mem_iff.2 he, he'⟩
        rw [chosenBody, hlast]
      rw [hnothing _ hperm, hnothing _ (.refl _)]

end Order

theorem data_eq_nil_iff (hregular : isRegular entry.header = true)
    (hsized : entry.data.length = entry.header.fileSize.toNat) :
    entry.data = [] ↔ hasBody entry.header = false := by
  rw [← length_eq_zero_iff, hsized, hasBody, hregular, Bool.true_and, decide_eq_false_iff_not,
    not_not, ← UInt32.toNat_inj]
  rfl

/-- The shortest body with the signature. -/
def smallBzimage : Bytes := List.replicate 0x1fe 0 ++ bootFlag ++ [0, 0] ++ hdrsMagic

/-- A regular file as a `newc` record. -/
def fileEntry (name : String) (nlink ino : UInt32) (body : Bytes) : Record :=
  { builder (utf8 name) with mode := 0o100644, nlink, ino, body := .owned body }

/-- A written archive. -/
def archiveOf (records : List Record) : Bytes := records.flatMap recordBytes ++ trailerBytes

/-- The empty `vmlinuz` in front of a file with the same numbers and a body. -/
def kernelPair (name : String) (nlink ino : UInt32) : List Record :=
  [fileEntry "vmlinuz" nlink ino [], fileEntry name nlink ino smallBzimage]

theorem candidate_pair {body : Option Bytes} (h : Candidate requested [r, m] body)
    (hother : isRequested requested m = false) (hempty : hasBody r.header = false)
    (hbody : hasBody m.header = true) (hid : identity m.header = identity r.header) :
    body = some m.data := by
  obtain ⟨r', hr', hrequested, hcase⟩ := h
  rcases mem_pair.1 hr' with rfl | rfl
  · rcases hcase with ⟨hown, -⟩ | ⟨-, ⟨m', hm', hmbody, -, rfl⟩ | ⟨hnone, -⟩⟩
    · rw [hempty] at hown
      cases hown
    · rcases mem_pair.1 hm' with rfl | rfl
      · rw [hempty] at hmbody
        cases hmbody
      · rfl
    · exact absurd hid (hnone m (by simp) hbody)
  · rw [hother] at hrequested
    cases hrequested

end Jyth.Kernel
