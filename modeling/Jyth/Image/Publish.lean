import Jyth.Lib.Effect
import Jyth.Lib.Run
import Jyth.Lib.Words

/-!
# Publication of a staged file

`publish_with` of `ops/io.rs`: a complete temporary file is renamed to a destination
whose name is derived from its content.  Where the rename meets a concurrent
publisher, the destination is checked and the rename retried; in the end the
destination is removed and the rename tried once more.

An operation goes as it should or fails with an error of the host's choice, so a call
is determined by the outcomes of its operations (`publish`), and so are calls on one
destination in any interleaving (`Pool.step`).
-/

namespace Jyth.Image.Publish

open Format Effect Prog

/-! ## Files and errors -/

inductive ErrorKind
  | notFound | alreadyExists | permissionDenied | isADirectory | other
deriving DecidableEq

structure IoError where
  kind : ErrorKind
  rawOsError : Option Nat
deriving DecidableEq

/-- The Win32 codes of a replace window. -/
def contendedCodes : List Nat := [2, 3, 5, 32, 33, 183, 1175, 1176, 1177, 1178]

def contended (windows : Bool) (error : IoError) : Bool :=
  error.kind = .alreadyExists || error.kind = .permissionDenied ||
    windows && error.rawOsError.any (· ∈ contendedCodes)

/-- What there is at the destination. -/
inductive Place
  | absent
  | file (bytes : Bytes)
  | directory
deriving DecidableEq

structure FileDigest where
  fileHash : Bytes
  fileSize : Nat
deriving DecidableEq

/-- The bytes are those the digest was taken of, as far as size and hash tell. -/
def FileDigest.Matches (hash : Bytes → Bytes) (expected : FileDigest) (bytes : Bytes) : Prop :=
  bytes.length = expected.fileSize ∧ hash bytes = expected.fileHash

instance (hash : Bytes → Bytes) (expected : FileDigest) (bytes : Bytes) :
    Decidable (expected.Matches hash bytes) := inferInstanceAs (Decidable (_ ∧ _))

/-! ## The program -/

inductive Op
  | createDirAll
  | isDirectory
  | rename
  | destinationMatches
  | removeTemp
  | removeDestination
deriving DecidableEq

@[reducible] def Op.Ans : Op → Type
  | .isDirectory => Bool
  | .destinationMatches => Except IoError Bool
  | .createDirAll | .rename | .removeTemp | .removeDestination => Except IoError Unit

abbrev Call := Prog Op Op.Ans (Except IoError Unit)

def publishRetryAttempts : Nat := 3

/-- The temporary file is removed, whatever comes of it. -/
def discard (result : Except IoError Unit) : Call :=
  .step .removeTemp fun _ => .done result

/-- The last rename, onto a destination that was removed. -/
def lastRename : Call :=
  .step .rename fun
    | .ok _ => .done (.ok ())
    | .error e => discard (.error e)

def replaceStale : Call := .step .removeDestination fun _ => lastRename

section

variable (windows : Bool)

def renameOr (rest : Call) : Call :=
  .step .rename fun
    | .ok _ => .done (.ok ())
    | .error e => if contended windows e then rest else discard (.error e)

def retry : Nat → Call
  | 0 => replaceStale
  | n + 1 => .step .destinationMatches fun
    | .ok true => discard (.ok ())
    | .ok false => renameOr windows (retry n)
    | .error e =>
      if contended windows e then renameOr windows (retry n) else discard (.error e)

def publishInto : Call :=
  .step .isDirectory fun found =>
    if found = true then discard (.error ⟨.isADirectory, none⟩)
    else renameOr windows (retry windows (publishRetryAttempts + 1))

def publishWith : Call :=
  .step .createDirAll fun
    | .ok _ => publishInto windows
    | .error e => .done (.error e)

end

/-! ## What the operations do -/

/-- The destination, and the temporary file of one call. -/
structure Disk where
  destination : Place
  temp : Option Bytes
deriving DecidableEq

section

variable (matching : Bytes → Prop) [DecidablePred matching]

/-- A file with bytes that match. -/
def Place.Holds : Place → Prop
  | .file bytes => matching bytes
  | _ => False

instance (place : Place) : Decidable (place.Holds matching) := by
  cases place <;> unfold Place.Holds <;> infer_instance

/-- A rename that goes as it should, if it can. -/
def moveTemp (disk : Disk) : Except IoError Unit × Disk :=
  match disk.destination, disk.temp with
  | .directory, _ => (.error ⟨.isADirectory, none⟩, disk)
  | _, none => (.error ⟨.notFound, none⟩, disk)
  | _, some bytes => (.ok (), ⟨.file bytes, none⟩)

def clearDestination (disk : Disk) : Except IoError Unit × Disk :=
  match disk.destination with
  | .directory => (.error ⟨.isADirectory, none⟩, disk)
  | .absent => (.error ⟨.notFound, none⟩, disk)
  | .file _ => (.ok (), { disk with destination := .absent })

def serve (outcome : Option IoError) : (op : Op) → Disk → op.Ans × Disk
  | .isDirectory, disk => (disk.destination = .directory, disk)
  | .createDirAll, disk => (outcome.elim (.ok ()) .error, disk)
  | .destinationMatches, disk =>
    (outcome.elim (.ok (disk.destination.Holds matching)) .error, disk)
  | .rename, disk => outcome.elim (moveTemp disk) fun e => (.error e, disk)
  | .removeTemp, disk => outcome.elim (.ok (), { disk with temp := none }) fun e => (.error e, disk)
  | .removeDestination, disk => outcome.elim (clearDestination disk) fun e => (.error e, disk)

/-! ## One call -/

/-- The outcomes of a call's operations.  `attempts` are those of renames and checks,
in their order; after the last of them everything goes as it should. -/
structure Outcomes where
  parent : Option IoError
  attempts : List (Option IoError)
  discard : Option IoError
  clear : Option IoError

/-- The outcome of the next rename or check. -/
def upcoming (attempts : List (Option IoError)) : Option IoError := attempts.headD none

/-- The operations take their outcomes one after another. -/
def handler (outcomes : Outcomes) :
    (op : Op) → Disk × List (Option IoError) → op.Ans × (Disk × List (Option IoError))
  | .createDirAll, (disk, attempts) =>
    let (r, disk) := serve matching outcomes.parent .createDirAll disk
    (r, disk, attempts)
  | .isDirectory, (disk, attempts) =>
    let (r, disk) := serve matching none .isDirectory disk
    (r, disk, attempts)
  | .rename, (disk, attempts) =>
    let (r, disk) := serve matching (upcoming attempts) .rename disk
    (r, disk, attempts.tail)
  | .destinationMatches, (disk, attempts) =>
    let (r, disk) := serve matching (upcoming attempts) .destinationMatches disk
    (r, disk, attempts.tail)
  | .removeTemp, (disk, attempts) =>
    let (r, disk) := serve matching outcomes.discard .removeTemp disk
    (r, disk, attempts)
  | .removeDestination, (disk, attempts) =>
    let (r, disk) := serve matching outcomes.clear .removeDestination disk
    (r, disk, attempts)

def run (outcomes : Outcomes) (call : Call) (disk : Disk) (attempts : List (Option IoError)) :
    Except IoError Unit × Disk :=
  let (result, disk, _) := call.interp (handler matching outcomes) (disk, attempts)
  (result, disk)

def publish (windows : Bool) (outcomes : Outcomes) (disk : Disk) : Except IoError Unit × Disk :=
  run matching outcomes (publishWith windows) disk outcomes.attempts

/-- A successful call leaves the bytes expected, a failed one what was there, and the
temporary file is gone in any case. -/
structure SafeEnd (before : Disk) (result : Except IoError Unit) (after : Disk) : Prop where
  published : result = .ok () → after.destination.Holds matching
  gone : after.temp = none
  preserved : result ≠ .ok () → before.destination.Holds matching →
    after.destination.Holds matching

/-- `n` attempts meet contention, and the one after them fails. -/
def Exhausts (windows : Bool) : Nat → List (Option IoError) → Prop
  | 0, some _ :: _ => True
  | n + 1, some e :: rest => contended windows e = true ∧ Exhausts windows n rest
  | _, _ => False

/-- The destination is removed in vain. -/
def Destroys (windows : Bool) (n : Nat) (outcomes : Outcomes) (disk : Disk)
    (attempts : List (Option IoError)) : Prop :=
  disk.destination.Holds matching ∧ outcomes.clear = none ∧ Exhausts windows n attempts

variable {matching} {windows : Bool} {outcomes : Outcomes} {disk : Disk}
  {attempts : List (Option IoError)} {bytes : Bytes}

omit [DecidablePred matching] in
theorem safeEnd_discard (disk : Disk) (result : Except IoError Unit)
    (h : result = .ok () → disk.destination.Holds matching) :
    SafeEnd matching disk result { disk with temp := none } :=
  ⟨h, rfl, fun _ h => h⟩

omit [DecidablePred matching] in
theorem safeEnd_moved (hbytes : matching bytes) (before : Disk) :
    SafeEnd matching before (.ok ()) ⟨.file bytes, none⟩ :=
  ⟨fun _ => hbytes, rfl, fun h => absurd rfl h⟩

section

variable (hdir : disk.destination ≠ .directory)
include hdir

theorem moveTemp_eq (htemp : disk.temp = some bytes) :
    moveTemp disk = (.ok (), ⟨.file bytes, none⟩) := by
  unfold moveTemp
  rw [htemp]
  cases hdest : disk.destination with
  | directory => exact absurd hdest hdir
  | absent | file old => rfl

theorem run_renameOr (htemp : disk.temp = some bytes)
    (hdiscard : outcomes.discard = none) (rest : Call) :
    run matching outcomes (renameOr windows rest) disk attempts = match upcoming attempts with
      | none => (.ok (), ⟨.file bytes, none⟩)
      | some e => if contended windows e then run matching outcomes rest disk attempts.tail
        else (.error e, { disk with temp := none }) := by
  cases hhead : upcoming attempts with
  | none => simp [run, renameOr, interp, handler, serve, hhead, moveTemp_eq hdir htemp]
  | some e =>
    by_cases hcontended : contended windows e = true
    · simp [run, renameOr, interp, handler, serve, hhead, hcontended]
    · simp [run, renameOr, discard, interp, handler, serve, hhead, hcontended, hdiscard]

theorem run_replaceStale (htemp : disk.temp = some bytes)
    (hdiscard : outcomes.discard = none) : run matching outcomes replaceStale disk attempts =
      match upcoming attempts with
      | none => (.ok (), ⟨.file bytes, none⟩)
      | some e => (.error e,
        ⟨if outcomes.clear = none then .absent else disk.destination, none⟩) := by
  obtain ⟨destination, temp⟩ := disk
  have hclear : ∃ answer destination',
      serve matching outcomes.clear .removeDestination ⟨destination, temp⟩ =
        (answer, ⟨destination', temp⟩) ∧ destination' ≠ .directory ∧
      destination' = if outcomes.clear = none then .absent else destination := by
    cases hoc : outcomes.clear with
    | some e => exact ⟨_, destination, rfl, hdir, by simp⟩
    | none =>
      cases destination with
      | directory => exact absurd rfl hdir
      | absent | file old => exact ⟨_, .absent, rfl, by simp, by simp⟩
  obtain ⟨answer, destination', hserve, hdir', heq⟩ := hclear
  rw [← heq]
  have hmove : moveTemp ⟨destination', temp⟩ = (.ok (), ⟨.file bytes, none⟩) := moveTemp_eq hdir' htemp
  cases hhead : upcoming attempts with
  | none =>
    simp only [run, replaceStale, lastRename, interp, handler, hserve, hhead]
    simp [serve, hmove, interp]
  | some e =>
    simp only [run, replaceStale, lastRename, interp, handler, hserve, hhead]
    simp [serve, discard, interp, handler, hdiscard]

end

theorem exhausts_zero : Exhausts windows 0 attempts ↔ ∃ e, upcoming attempts = some e := by
  cases attempts with
  | nil => simp [Exhausts, upcoming]
  | cons head rest => cases head <;> simp [Exhausts, upcoming]

theorem exhausts_succ {n : Nat} : Exhausts windows (n + 1) attempts ↔
    ∃ e, upcoming attempts = some e ∧ contended windows e = true ∧
      Exhausts windows n attempts.tail := by
  cases attempts with
  | nil => simp [Exhausts, upcoming]
  | cons head rest => cases head <;> simp [Exhausts, upcoming]

theorem replaceStale_safe_iff (hdir : disk.destination ≠ .directory)
    (htemp : disk.temp = some bytes) (hbytes : matching bytes) (hdiscard : outcomes.discard = none) :
    SafeEnd matching disk (run matching outcomes replaceStale disk attempts).1
        (run matching outcomes replaceStale disk attempts).2 ↔
      ¬ Destroys matching windows 0 outcomes disk attempts := by
  rw [run_replaceStale hdir htemp hdiscard, Destroys, exhausts_zero]
  cases hhead : upcoming attempts with
  | none => simpa using safeEnd_moved hbytes disk
  | some e =>
    constructor
    · rintro hsafe ⟨hholds, hclear, -⟩
      have hafter := hsafe.preserved (by simp) hholds
      rw [if_pos hclear] at hafter
      exact hafter
    · intro hnot
      refine ⟨nofun, rfl, fun _ hholds => ?_⟩
      have hclear : outcomes.clear ≠ none := fun hclear => hnot ⟨hholds, hclear, e, rfl⟩
      rw [if_neg hclear]
      exact hholds

theorem renameOr_safe_iff {rest : Call} {n : Nat} (attempts : List (Option IoError))
    (hdir : disk.destination ≠ .directory)
    (htemp : disk.temp = some bytes) (hbytes : matching bytes) (hdiscard : outcomes.discard = none)
    (hrest : ∀ attempts, SafeEnd matching disk (run matching outcomes rest disk attempts).1
        (run matching outcomes rest disk attempts).2 ↔
      ¬ Destroys matching windows n outcomes disk attempts) :
    SafeEnd matching disk (run matching outcomes (renameOr windows rest) disk attempts).1
        (run matching outcomes (renameOr windows rest) disk attempts).2 ↔
      ¬ Destroys matching windows (n + 1) outcomes disk attempts := by
  rw [run_renameOr hdir htemp hdiscard, Destroys, exhausts_succ]
  cases hhead : upcoming attempts with
  | none => simpa using safeEnd_moved hbytes disk
  | some e =>
    by_cases hcontended : contended windows e = true
    · simpa [hcontended, Destroys] using hrest attempts.tail
    · simpa [hcontended] using safeEnd_discard disk (.error e) (by simp)

theorem retry_safe_iff (hdir : disk.destination ≠ .directory) (htemp : disk.temp = some bytes)
    (hbytes : matching bytes) (hdiscard : outcomes.discard = none) (n : Nat)
    (attempts : List (Option IoError)) :
    SafeEnd matching disk (run matching outcomes (retry windows n) disk attempts).1
        (run matching outcomes (retry windows n) disk attempts).2 ↔
      ¬ Destroys matching windows (2 * n) outcomes disk attempts := by
  induction n generalizing attempts with
  | zero => exact replaceStale_safe_iff hdir htemp hbytes hdiscard
  | succ n ih =>
    have hagain := fun attempts =>
      renameOr_safe_iff attempts hdir htemp hbytes hdiscard ih
    have hrun : run matching outcomes (retry windows (n + 1)) disk attempts =
        match upcoming attempts with
        | none =>
          if disk.destination.Holds matching then (.ok (), { disk with temp := none })
          else run matching outcomes (renameOr windows (retry windows n)) disk attempts.tail
        | some e =>
          if contended windows e then
            run matching outcomes (renameOr windows (retry windows n)) disk attempts.tail
          else (.error e, { disk with temp := none }) := by
      cases hhead : upcoming attempts with
      | none =>
        by_cases hholds : disk.destination.Holds matching
        · simp [run, retry, discard, interp, handler, serve, hhead, hholds, hdiscard]
        · simp [run, retry, interp, handler, serve, hhead, hholds]
      | some e =>
        by_cases hcontended : contended windows e = true
        · simp [run, retry, interp, handler, serve, hhead, hcontended]
        · simp [run, retry, discard, interp, handler, serve, hhead, hcontended, hdiscard]
    rw [hrun, Nat.mul_succ, Destroys, exhausts_succ]
    cases hhead : upcoming attempts with
    | none =>
      by_cases hholds : disk.destination.Holds matching
      · simpa [hholds] using safeEnd_discard disk (.ok ()) fun _ => hholds
      · have hsafe := (hagain attempts.tail).2 fun hdestroys => hholds hdestroys.1
        simpa [hholds] using hsafe
    | some e =>
      by_cases hcontended : contended windows e = true
      · simpa [hcontended, Destroys] using hagain attempts.tail
      · simpa [hcontended] using safeEnd_discard disk (.error e) (by simp)

/-- **A call and what it leaves.**  A call on a staged file whose parent directory can
be made and whose temporary file can be removed ends safely, whatever the outcomes of
its renames and checks, unless it removes a valid destination after every attempt met
contention and then fails. -/
theorem publish_safe_iff (hash : Bytes → Bytes) (expected : FileDigest) (windows : Bool)
    (outcomes : Outcomes) (disk : Disk) {bytes : Bytes} (htemp : disk.temp = some bytes)
    (hbytes : expected.Matches hash bytes) (hparent : outcomes.parent = none)
    (hdiscard : outcomes.discard = none) :
    SafeEnd (expected.Matches hash) disk (publish (expected.Matches hash) windows outcomes disk).1
        (publish (expected.Matches hash) windows outcomes disk).2 ↔
      ¬ Destroys (expected.Matches hash) windows (2 * (publishRetryAttempts + 1) + 1) outcomes disk
        outcomes.attempts := by
  by_cases hdir : disk.destination = .directory
  · have hend : publish (expected.Matches hash) windows outcomes disk =
        (.error ⟨.isADirectory, none⟩, { disk with temp := none }) := by
      simp [publish, run, publishWith, publishInto, discard, interp, handler, serve, hparent,
        hdir, hdiscard]
    rw [hend]
    refine iff_of_true (safeEnd_discard _ _ (by simp)) ?_
    rintro ⟨hholds, -⟩
    rw [hdir] at hholds
    exact hholds
  · have hgo : publish (expected.Matches hash) windows outcomes disk =
        run (expected.Matches hash) outcomes
          (renameOr windows (retry windows (publishRetryAttempts + 1))) disk outcomes.attempts := by
      simp [publish, run, publishWith, publishInto, interp, handler, serve, hparent, hdir]
    rw [hgo]
    exact renameOr_safe_iff _ hdir htemp hbytes hdiscard
      (retry_safe_iff hdir htemp hbytes hdiscard _)

end

/-! ### Two calls -/

/-- A hash for examples: the bytes themselves. -/
def sampleDigest (bytes : Bytes) : FileDigest := ⟨bytes, bytes.length⟩

def denied : IoError := ⟨.permissionDenied, some 5⟩

/-- Every rename and every check meets contention. -/
def alwaysDenied : Outcomes := ⟨none, List.replicate 10 (some denied), none, none⟩

/-- The destination holds the bytes expected; the call fails and the file is gone. -/
theorem valid_destination_destroyed :
    ((⟨.file [1], some [1]⟩ : Disk).destination.Holds ((sampleDigest [1]).Matches id)) ∧
      (publish ((sampleDigest [1]).Matches id) true alwaysDenied ⟨.file [1], some [1]⟩) =
        (.error denied, ⟨.absent, none⟩) := by
  decide

/-- The rename meets contention once; the check then finds the bytes expected. -/
theorem matching_destination_accepted :
    SafeEnd ((sampleDigest [1]).Matches id) ⟨.file [1], some [1]⟩
      (publish ((sampleDigest [1]).Matches id) true ⟨none, [some denied], none, none⟩
        ⟨.file [1], some [1]⟩).1
      (publish ((sampleDigest [1]).Matches id) true ⟨none, [some denied], none, none⟩
        ⟨.file [1], some [1]⟩).2 := by
  refine (publish_safe_iff id (sampleDigest [1]) true _ _ rfl (by decide) rfl rfl).2 ?_
  rintro ⟨-, -, -, hfew⟩
  exact hfew

/-! ## Calls in any interleaving -/

section Pool

variable {ι : Type} [DecidableEq ι] (matching : Bytes → Prop) [DecidablePred matching]

/-- Calls that publish to one destination. -/
structure Pool (ι : Type) where
  destination : Place
  temps : ι → Option Bytes
  calls : ι → Call

namespace Pool

/-- Call `i` performs its next operation, with this outcome. -/
def step (pool : Pool ι) (turn : ι × Option IoError) : Pool ι :=
  match pool.calls turn.1 with
  | .done _ => pool
  | .step op next =>
    let (answer, disk) := serve matching turn.2 op ⟨pool.destination, pool.temps turn.1⟩
    { destination := disk.destination
      temps := Function.update pool.temps turn.1 disk.temp
      calls := Function.update pool.calls turn.1 (next answer) }

/-- The call has returned with success. -/
def Returned (pool : Pool ι) (i : ι) : Prop := pool.calls i = .done (.ok ())

/-- The call has returned `Ok`, or has accepted the destination and is about to. -/
def Committed (pool : Pool ι) (i : ι) : Prop :=
  pool.Returned i ∨ pool.calls i = discard (.ok ())

/-- Once a call is committed, the destination holds the bytes expected. -/
def Sound (pool : Pool ι) : Prop := ∀ i, pool.Committed i → pool.destination.Holds matching

/-- The turn is not the removal of the destination behind a committed call's back. -/
def Harmless (pool : Pool ι) (turn : ι × Option IoError) : Prop :=
  pool.calls turn.1 = replaceStale → turn.2 = none → ∀ i, ¬ pool.Committed i

end Pool

/-! ### The points of a call -/

/-- Where a call of `publish` stands. -/
inductive Phase
  | start
  | probe
  /-- A rename, and the loop to come. -/
  | rename (n : Nat)
  | check (n : Nat)
  | clear
  | last
  | discarding (result : Except IoError Unit)
  | finished (result : Except IoError Unit)

def Phase.call (windows : Bool) : Phase → Call
  | .start => publishWith windows
  | .probe => publishInto windows
  | .rename n => renameOr windows (retry windows n)
  | .check n => retry windows (n + 1)
  | .clear => replaceStale
  | .last => lastRename
  | .discarding result => discard result
  | .finished result => .done result

/-- The temporary file is still needed. -/
def Phase.Open : Phase → Prop
  | .discarding _ | .finished _ => False
  | _ => True

variable {matching} {windows : Bool}

theorem exists_phase_retry (windows : Bool) (n : Nat) :
    ∃ phase : Phase, retry windows n = phase.call windows ∧ phase.Open ∧
      retry windows n ≠ discard (.ok ()) ∧ retry windows n ≠ .done (.ok ()) := by
  cases n with
  | zero => exact ⟨.clear, rfl, trivial, nofun, nofun⟩
  | succ n => exact ⟨.check n, rfl, trivial, nofun, nofun⟩

/-- What one step of a call does to the disk and the call. -/
structure Turned (matching : Bytes → Prop) (windows : Bool) (phase : Phase) (before after : Disk)
    (next : Call) : Prop where
  becomes : ∃ phase' : Phase, next = phase'.call windows ∧
    (phase'.Open → phase.Open ∧ after.temp = before.temp)
  destination : after.destination = before.destination ∨ after.destination.Holds matching ∨
    phase = .clear
  /-- A call gets committed by its rename or by a check. -/
  committed : next = .done (.ok ()) ∨ next = discard (.ok ()) →
    after.destination.Holds matching ∨ phase = .discarding (.ok ())

theorem discard_injective {result result' : Except IoError Unit}
    (h : discard result = discard result') : result = result' := by
  injection h with _ hnext
  have happly := congrFun hnext (.ok ())
  cases happly
  rfl

variable (matching) in
theorem serve_rename (outcome : Option IoError) (disk : Disk) : (∃ bytes, disk.temp = some bytes ∧
        serve matching outcome .rename disk = (.ok (), ⟨.file bytes, none⟩)) ∨
      ∃ e, serve matching outcome .rename disk = (.error e, disk) := by
  obtain ⟨destination, temp⟩ := disk
  cases outcome with
  | some e => exact .inr ⟨e, rfl⟩
  | none =>
    cases temp with
    | none => cases destination <;> exact .inr ⟨_, rfl⟩
    | some bytes =>
      cases destination with
      | directory => exact .inr ⟨_, rfl⟩
      | absent | file old => exact .inl ⟨bytes, rfl, rfl⟩

variable {phase : Phase}

omit [DecidablePred matching] in
theorem turned_discard (disk : Disk) (e : IoError) :
    Turned matching windows phase disk disk (discard (.error e)) := by
  refine ⟨⟨.discarding (.error e), rfl, nofun⟩, .inl rfl, ?_⟩
  rintro (h | h)
  · cases h
  · cases discard_injective h

omit [DecidablePred matching] in
theorem turned_retry (hopen : phase.Open) (disk : Disk) (n : Nat) :
    Turned matching windows phase disk disk (retry windows n) := by
  obtain ⟨phase', heq, -, hdiscard, hdone⟩ := exists_phase_retry windows n
  refine ⟨⟨phase', heq, fun _ => ⟨hopen, rfl⟩⟩, .inl rfl, ?_⟩
  rintro (h | h)
  · exact absurd h hdone
  · exact absurd h hdiscard

omit [DecidablePred matching] in
theorem turned_moved {bytes : Bytes} (hbytes : matching bytes) (disk : Disk) :
    Turned matching windows phase disk ⟨.file bytes, none⟩ (.done (.ok ())) :=
  ⟨⟨.finished (.ok ()), rfl, nofun⟩, .inr (.inl hbytes), fun _ => .inl hbytes⟩

variable (matching) in
theorem turned_of_step {op : Op} {next : op.Ans → Call}
    (hcall : phase.call windows = .step op next) (outcome : Option IoError) (disk : Disk)
    (htemp : phase.Open → ∃ bytes, disk.temp = some bytes ∧ matching bytes) :
    Turned matching windows phase disk (serve matching outcome op disk).2
      (next (serve matching outcome op disk).1) := by
  cases phase with
  | start =>
    cases hcall
    cases outcome with
    | none => exact ⟨⟨.probe, rfl, fun _ => ⟨trivial, rfl⟩⟩, .inl rfl, nofun⟩
    | some e => exact ⟨⟨.finished (.error e), rfl, nofun⟩, .inl rfl, nofun⟩
  | probe =>
    cases hcall
    by_cases hdir : disk.destination = .directory
    · have hanswer : serve matching outcome .isDirectory disk = (true, disk) := by
        simp [serve, hdir]
      rw [hanswer]
      exact turned_discard disk _
    · have hanswer : serve matching outcome .isDirectory disk = (false, disk) := by
        simp [serve, hdir]
      rw [hanswer]
      exact ⟨⟨.rename (publishRetryAttempts + 1), rfl, fun _ => ⟨trivial, rfl⟩⟩, .inl rfl, nofun⟩
  | rename n =>
    cases hcall
    obtain ⟨bytes, hbytes, hmatching⟩ := htemp trivial
    rcases serve_rename matching outcome disk with ⟨bytes', htemp', h⟩ | ⟨e, h⟩
    · rw [h]
      obtain rfl := Option.some.inj (hbytes.symm.trans htemp')
      exact turned_moved hmatching disk
    · rw [h]
      have hretry : Turned matching windows (.rename n) disk disk (retry windows n) :=
        turned_retry (show (Phase.rename n).Open from trivial) disk n
      by_cases hcontended : contended windows e = true
      · simpa [hcontended] using hretry
      · simpa [hcontended] using turned_discard disk e
  | check n =>
    cases hcall
    have hgo : Turned matching windows (.check n) disk disk (renameOr windows (retry windows n)) :=
      ⟨⟨.rename n, rfl, fun _ => ⟨trivial, rfl⟩⟩, .inl rfl, nofun⟩
    cases outcome with
    | none =>
      by_cases hholds : disk.destination.Holds matching
      · have hanswer : serve matching none .destinationMatches disk = (.ok true, disk) := by
          simp [serve, hholds]
        rw [hanswer]
        exact ⟨⟨.discarding (.ok ()), rfl, nofun⟩, .inl rfl, fun _ => .inl hholds⟩
      · have hanswer : serve matching none .destinationMatches disk = (.ok false, disk) := by
          simp [serve, hholds]
        rw [hanswer]
        exact hgo
    | some e =>
      have hanswer : serve matching (some e) .destinationMatches disk = (.error e, disk) := rfl
      rw [hanswer]
      by_cases hcontended : contended windows e = true
      · simpa [hcontended] using hgo
      · simpa [hcontended] using turned_discard disk e
  | clear =>
    cases hcall
    have hkeep : (serve matching outcome .removeDestination disk).2.temp = disk.temp := by
      obtain ⟨destination, temp⟩ := disk
      cases outcome with
      | some e => rfl
      | none => cases destination <;> rfl
    exact ⟨⟨.last, rfl, fun _ => ⟨trivial, hkeep⟩⟩, .inr (.inr rfl), nofun⟩
  | last =>
    cases hcall
    obtain ⟨bytes, hbytes, hmatching⟩ := htemp trivial
    rcases serve_rename matching outcome disk with ⟨bytes', htemp', h⟩ | ⟨e, h⟩
    · rw [h]
      obtain rfl := Option.some.inj (hbytes.symm.trans htemp')
      exact turned_moved hmatching disk
    · rw [h]
      exact turned_discard disk e
  | discarding result =>
    cases hcall
    have hkeep : (serve matching outcome .removeTemp disk).2.destination = disk.destination := by
      cases outcome <;> rfl
    refine ⟨⟨.finished result, rfl, nofun⟩, .inl hkeep, ?_⟩
    rintro (h | h)
    · cases h
      exact .inr rfl
    · cases h
  | finished result => cases hcall

/-! ### Every run -/

namespace Pool

/-- Every call is at one of its points, and has its temporary file as long as it
needs it. -/
def Staged (matching : Bytes → Prop) (windows : Bool) (pool : Pool ι) : Prop :=
  ∀ i, ∃ phase : Phase, pool.calls i = phase.call windows ∧
    (phase.Open → ∃ bytes, pool.temps i = some bytes ∧ matching bytes)

theorem staged_step {pool : Pool ι} (h : pool.Staged matching windows)
    (turn : ι × Option IoError) : (pool.step matching turn).Staged matching windows := by
  intro j
  cases hcall : pool.calls turn.1 with
  | done result =>
    have hsame : pool.step matching turn = pool := by rw [step, hcall]
    rw [hsame]
    exact h j
  | step op next =>
    obtain ⟨phase, hphase, htemp⟩ := h turn.1
    have hturned := turned_of_step matching (hphase.symm.trans hcall) turn.2
      ⟨pool.destination, pool.temps turn.1⟩ htemp
    rw [step, hcall]
    by_cases hj : j = turn.1
    · subst hj
      obtain ⟨phase', hnext, hopen⟩ := hturned.becomes
      refine ⟨phase', by simpa using hnext, fun hphase' => ?_⟩
      obtain ⟨hwas, hsame⟩ := hopen hphase'
      simpa [hsame] using htemp hwas
    · obtain ⟨phase', hphase', htemp'⟩ := h j
      refine ⟨phase', ?_, ?_⟩
      · simpa [hj] using hphase'
      · simpa [hj] using htemp'

theorem sound_step {pool : Pool ι} (hstaged : pool.Staged matching windows)
    (hsound : pool.Sound matching) {turn : ι × Option IoError} (hturn : pool.Harmless turn) :
    (pool.step matching turn).Sound matching := by
  intro j hj
  cases hcall : pool.calls turn.1 with
  | done result =>
    have hsame : pool.step matching turn = pool := by rw [step, hcall]
    rw [hsame] at hj ⊢
    exact hsound j hj
  | step op next =>
    obtain ⟨phase, hphase, htemp⟩ := hstaged turn.1
    have hturned := turned_of_step matching (hphase.symm.trans hcall) turn.2
      ⟨pool.destination, pool.temps turn.1⟩ htemp
    have hdest : (pool.step matching turn).destination =
        (serve matching turn.2 op ⟨pool.destination, pool.temps turn.1⟩).2.destination := by
      rw [step, hcall]
    have hcalls : (pool.step matching turn).calls = Function.update pool.calls turn.1
        (next (serve matching turn.2 op ⟨pool.destination, pool.temps turn.1⟩).1) := by
      rw [step, hcall]
    rw [hdest]
    rw [Committed, Returned, hcalls] at hj
    by_cases hown : j = turn.1
    · subst hown
      rw [Function.update_self] at hj
      rcases hturned.committed hj with hholds | hdiscarding
      · exact hholds
      · -- The call accepted the destination before; removing its own file keeps it.
        have hbefore := hsound turn.1 (.inr (by rw [hphase, hdiscarding]; rfl))
        rcases hturned.destination with hsame | hholds | hclear
        · exact hsame ▸ hbefore
        · exact hholds
        · rw [hdiscarding] at hclear
          cases hclear
    · rw [Function.update_of_ne hown] at hj
      have hbefore := hsound j hj
      rcases hturned.destination with hsame | hholds | rfl
      · exact hsame ▸ hbefore
      · exact hholds
      · cases houtcome : turn.2 with
        | none => exact absurd hj (hturn hphase houtcome j)
        | some e =>
          cases hphase.symm.trans hcall
          exact hbefore

/-- No call has begun, and each has its temporary file. -/
structure Initial (matching : Bytes → Prop) (windows : Bool) (pool : Pool ι) : Prop where
  calls : ∀ i, pool.calls i = publishWith windows
  temps : ∀ i, ∃ bytes, pool.temps i = some bytes ∧ matching bytes

/-- **Concurrent publication.**  In every interleaving of any number of calls in which
no call removes the destination after another has accepted it or returned `Ok`, the
destination holds the bytes expected from the first `Ok` on. -/
theorem returned_holds (hash : Bytes → Bytes) (expected : FileDigest) (windows : Bool)
    {pool : Pool ι} (hpool : pool.Initial (expected.Matches hash) windows)
    (turns : List (ι × Option IoError))
    (hturns : Run.Steps (step (expected.Matches hash)) Harmless pool turns) :
    Run.Reached (step (expected.Matches hash))
      (fun pool => ∀ i, pool.Returned i → pool.destination.Holds (expected.Matches hash))
      pool turns := by
  have hstart : pool.Staged (expected.Matches hash) windows ∧
      pool.Sound (expected.Matches hash) := by
    refine ⟨fun i => ⟨.start, hpool.calls i, fun _ => hpool.temps i⟩, fun i hi => ?_⟩
    rw [Committed, Returned, hpool.calls] at hi
    rcases hi with h | h <;> cases h
  have hall := Run.reached_of_steps (P := fun pool : Pool ι =>
      pool.Staged (expected.Matches hash) windows ∧ pool.Sound (expected.Matches hash))
    (fun pool turn hinv hturn => ⟨staged_step hinv.1 turn, sound_step hinv.1 hinv.2 hturn⟩)
    hstart hturns
  rw [Run.reached_iff_fronts] at hall ⊢
  exact fun front hfront i hi => (hall front hfront).2 i (.inl hi)

end Pool

end Pool

/-! ### Two interleavings -/

def staleDestination : Pool Bool := ⟨.file [0], fun _ => some [1], fun _ => publishWith true⟩

theorem staleDestination_initial : staleDestination.Initial ((sampleDigest [1]).Matches id) true :=
  ⟨fun _ => rfl, fun _ => ⟨[1], rfl, by decide⟩⟩

/-- The second call meets contention throughout and finds the old bytes each time;
then the first call returns `Ok`, and the second removes the destination. -/
def lateRemoval : List (Bool × Option IoError) :=
  [(true, none), (true, none), (true, some denied)] ++
    (List.replicate 4 [(true, none), (true, some denied)]).flatten ++
    [(false, none), (false, none), (false, none), (true, none)]

theorem published_destination_removed :
    staleDestination.Initial ((sampleDigest [1]).Matches id) true ∧
      (lateRemoval.foldl (Pool.step ((sampleDigest [1]).Matches id)) staleDestination).Returned
        false ∧
      (lateRemoval.foldl (Pool.step ((sampleDigest [1]).Matches id)) staleDestination).destination
        = .absent :=
  ⟨staleDestination_initial, rfl, rfl⟩

theorem second_call_harmless : Run.Reached (Pool.step ((sampleDigest [1]).Matches id))
      (fun pool : Pool Bool => ∀ i, pool.Returned i →
        pool.destination.Holds ((sampleDigest [1]).Matches id))
      staleDestination [(false, none), (false, none), (false, none), (true, none)] :=
  Pool.returned_holds id (sampleDigest [1]) true staleDestination_initial _
    ⟨nofun, nofun, nofun, nofun, trivial⟩

end Jyth.Image.Publish
