import Jyth.Image.Publish
import Jyth.Materialize.Pipeline

/-!
# Staged files

`TempWriter` and `StagedFile` of `ops/io.rs` over the files they work on: a destination
and a temporary file beside it.  The writer hashes what it writes; a staged file is
published by `publish_with`.

* `streamCopy_spec`: the temporary file has the bytes that were hashed.
* `publish_safe`: what the destination can be at every point of a publication.
-/

namespace Jyth.Ops

open Format Effect Ends
open Jyth.Image
open Jyth.Image.Publish (IoError Place serve publishWith)
open Jyth.Materialize (size128 minHeaderLen)

/-! ## Digests -/

/-- The hash functions. -/
structure Hashers where
  blake3 : Bytes → Hash
  sha256 : Bytes → Block 32
  sha512 : Bytes → Block 64

inductive ComputedDigest
  | blake3 (bytes : Block 32)
  | sha256 (bytes : Block 32)
  | sha512 (bytes : Block 64)
deriving DecidableEq

def verify : ExpectedDigest → ComputedDigest → Bool
  | .blake3 expected, .blake3 actual => expected = actual
  | .sha256 expected, .sha256 actual => expected = actual
  | .sha512 expected, .sha512 actual => expected = actual
  | _, _ => false

inductive AuxHasher
  | none
  | blake3
  | sha256 (fed : Bytes)
  | sha512 (fed : Bytes)
deriving DecidableEq

namespace AuxHasher

def fromExpected : Option ExpectedDigest → AuxHasher
  | .none => none
  | some (.blake3 _) => blake3
  | some (.sha256 _) => sha256 []
  | some (.sha512 _) => sha512 []

def update (bytes : Bytes) : AuxHasher → AuxHasher
  | none => none
  | blake3 => blake3
  | sha256 fed => sha256 (fed ++ bytes)
  | sha512 fed => sha512 (fed ++ bytes)

def finalize (h : Hashers) : AuxHasher → Option ComputedDigest
  | none => .none
  | blake3 => .none
  | sha256 fed => some (.sha256 (h.sha256 fed))
  | sha512 fed => some (.sha512 (h.sha512 fed))

end AuxHasher

structure PublishedFile where
  fileDigest : FileDigest
  aux : Option ComputedDigest

def PublishedFile.computedFor (p : PublishedFile) : Option ExpectedDigest → Option ComputedDigest
  | none => none
  | some (.blake3 _) => some (.blake3 p.fileDigest.fileHash)
  | some (.sha256 _) => p.aux
  | some (.sha512 _) => p.aux

def digestOf (h : Hashers) (bytes : Bytes) : FileDigest := ⟨h.blake3 bytes, size128 bytes⟩

/-- The bytes have the digest. -/
def Matches (h : Hashers) (digest : FileDigest) (bytes : Bytes) : Prop := digestOf h bytes = digest

instance (h : Hashers) (digest : FileDigest) : DecidablePred (Matches h digest) := fun bytes =>
  inferInstanceAs (Decidable (digestOf h bytes = digest))

/-! ## Files -/

/-- The destination and the temporary file, and the record of the artifact in the index. -/
structure Site where
  files : Publish.Disk
  record : Option FileRef
deriving DecidableEq

/-- The calls of a load to the files and the index. -/
inductive FileOp
  | createTemp
  | append (chunk : Bytes)
  | flush
  | readHeader
  | readDestination
  | dropTemp
  | publication (digest : FileDigest) (op : Publish.Op)
  | replaceFileRef (f : FileRef)

@[reducible] def FileOp.Ans : FileOp → Type
  | createTemp | append _ | flush => Except IoError Unit
  | readHeader | readDestination => Except IoError Bytes
  | dropTemp => Unit
  | publication _ op => op.Ans
  | replaceFileRef _ => Except IndexError Unit

/-- Every operation may fail; a failed write may have written a part. -/
def host (h : Hashers) : World Site FileOp FileOp.Ans
  | .createTemp, s, r, s' =>
    (r = .ok () ∧ s' = { s with files.temp := some [] }) ∨ (∃ e, r = .error e) ∧ s' = s
  | .append chunk, s, r, s' =>
    (r = .ok () ∧ s' = { s with files.temp := s.files.temp.map (· ++ chunk) }) ∨
      (∃ e, r = .error e) ∧ ∃ part, part <+: chunk ∧
        s' = { s with files.temp := s.files.temp.map (· ++ part) }
  | .flush, s, _, s' => s' = s
  | .readHeader, s, r, s' =>
    s' = s ∧ ∀ bytes, r = .ok bytes → ∃ content, s.files.temp = some content ∧
      bytes = content.take minHeaderLen
  | .readDestination, s, r, s' =>
    s' = s ∧ ∀ bytes, r = .ok bytes → s.files.destination = .file bytes
  | .dropTemp, s, _, s' => s' = s ∨ s' = { s with files.temp := none }
  | .publication digest op, s, r, s' =>
    ∃ outcome, serve (Matches h digest) outcome op s.files = (r, s'.files) ∧ s'.record = s.record
  | .replaceFileRef f, s, r, s' =>
    (r = .ok () ∧ s.record.isSome ∧ s' = { s with record := some f }) ∨
      (∃ e, r = .error e) ∧ s' = s

/-- A host on which nothing fails but what `outcome` says of a publication. -/
def answer (h : Hashers) (outcome : Publish.Op → Option IoError) :
    (op : FileOp) → Site → op.Ans × Site
  | .createTemp, s => (.ok (), { s with files.temp := some [] })
  | .append chunk, s => (.ok (), { s with files.temp := s.files.temp.map (· ++ chunk) })
  | .flush, s => (.ok (), s)
  | .readHeader, s =>
    (s.files.temp.elim (.error ⟨.notFound, none⟩) fun content => .ok (content.take minHeaderLen), s)
  | .readDestination, s =>
    match s.files.destination with
    | .file bytes => (.ok bytes, s)
    | _ => (.error ⟨.notFound, none⟩, s)
  | .dropTemp, s => ((), { s with files.temp := none })
  | .publication digest op, s =>
    let served := serve (Matches h digest) (outcome op) op s.files
    (served.1, { s with files := served.2 })
  | .replaceFileRef f, s =>
    if s.record.isSome then (.ok (), { s with record := some f }) else (.error .identityMismatch, s)

theorem answer_host (h : Hashers) (outcome : Publish.Op → Option IoError) (op : FileOp) (s : Site) :
    host h op s (answer h outcome op s).1 (answer h outcome op s).2 := by
  cases op with
  | createTemp | append chunk => exact Or.inl ⟨rfl, rfl⟩
  | flush => rfl
  | readHeader =>
    refine ⟨rfl, fun bytes hbytes => ?_⟩
    cases htemp : s.files.temp with
    | none => simp [answer, htemp] at hbytes
    | some content => exact ⟨content, rfl, by simpa [answer, htemp, eq_comm] using hbytes⟩
  | readDestination =>
    cases hplace : s.files.destination with
    | file content | absent | directory => simp [host, answer, hplace]
  | dropTemp => exact Or.inr rfl
  | publication digest op => exact ⟨outcome op, rfl, rfl⟩
  | replaceFileRef f =>
    cases hrecord : s.record with
    | none => exact Or.inr (by simp [answer, hrecord])
    | some old => exact Or.inl (by simp [answer, hrecord])

abbrev FileM := Fallible FileOp FileOp.Ans OperationError

def reported {ε α : Type} (error : OperationError) (r : Except ε α) : FileM α :=
  ExceptT.mk (.done (r.mapError fun _ => error))

def createTemp (error : OperationError) : FileM Unit := Prog.step .createTemp (reported error)

def append (error : OperationError) (chunk : Bytes) : FileM Unit :=
  Prog.step (.append chunk) (reported error)

def flush (error : OperationError) : FileM Unit := Prog.step .flush (reported error)

def readHeader (error : OperationError) : FileM Bytes := Prog.step .readHeader (reported error)

def readDestination (error : OperationError) : FileM Bytes :=
  Prog.step .readDestination (reported error)

def replaceFileRef (error : OperationError) (f : FileRef) : FileM Unit :=
  Prog.step (.replaceFileRef f) (reported error)

def dropping {α : Type} (p : FileM α) : FileM α :=
  ExceptT.mk (Prog.bind p fun
    | .ok a => .done (.ok a)
    | .error e => .step .dropTemp fun _ => .done (.error e))

/-! ## Writing -/

/-- The writer of a temporary file, with what it has hashed. -/
structure TempWriter where
  hasher : Bytes
  aux : AuxHasher
  bytesWritten : BitVec 128
deriving DecidableEq

namespace TempWriter

def new (expected : Option ExpectedDigest) : TempWriter := ⟨[], AuxHasher.fromExpected expected, 0⟩

def update (w : TempWriter) (bytes : Bytes) : TempWriter :=
  ⟨w.hasher ++ bytes, w.aux.update bytes, w.bytesWritten + size128 bytes⟩

def finish (h : Hashers) (w : TempWriter) : PublishedFile :=
  ⟨⟨h.blake3 w.hasher, w.bytesWritten⟩, w.aux.finalize h⟩

end TempWriter

def writeAll (error : OperationError) (w : TempWriter) (bytes : Bytes) : FileM TempWriter := do
  append error bytes
  return w.update bytes

def streamLoop {ε : Type} (error : OperationError) : Source ε → TempWriter → FileM TempWriter
  | [], w => return w
  | .fault _ :: _, _ => throw error
  | .data b bs :: rest, w => do
    let w ← writeAll error w (b :: bs)
    streamLoop error rest w

/-- `stream_copy`; flushing and syncing are one operation. -/
def streamCopy {ε : Type} (error : OperationError) (source : Source ε)
    (expected : Option ExpectedDigest) : FileM TempWriter := do
  createTemp error
  let w ← streamLoop error source (.new expected)
  flush error
  return w

/-! ## Publishing -/

def publication (digest : FileDigest) : Publish.Call → Prog FileOp FileOp.Ans (Except IoError Unit)
  | .done r => .done r
  | .step op next => .step (.publication digest op) fun r => publication digest (next r)

def publish (windows : Bool) (digest : FileDigest) : FileM Unit :=
  ExceptT.mk ((publication digest (publishWith windows)).bind fun r => reported .writeDestination r)

/-! ## What is written -/

section
variable {h : Hashers} {world : World Site FileOp FileOp.Ans}

theorem size128_append (a b : Bytes) : size128 (a ++ b) = size128 a + size128 b := by
  simp [size128, BitVec.ofNat_add]

theorem AuxHasher.update_append (aux : AuxHasher) (a b : Bytes) :
    (aux.update a).update b = aux.update (a ++ b) := by
  cases aux <;> simp [update]

theorem TempWriter.update_append (w : TempWriter) (a b : Bytes) :
    (w.update a).update b = w.update (a ++ b) := by
  simp [update, AuxHasher.update_append, size128_append, BitVec.add_assoc]

/-- The bytes were hashed and are at the end of the temporary file. -/
def Copied (bytes : Bytes) (w : TempWriter) (s : Site) (w' : TempWriter) (s' : Site) : Prop :=
  w' = w.update bytes ∧ s'.files.temp = s.files.temp.map (· ++ bytes)

theorem Copied.nil (w : TempWriter) (s : Site) : Copied [] w s w s := by
  obtain ⟨hasher, aux, count⟩ := w
  refine ⟨?_, by simp⟩
  cases aux <;> simp [TempWriter.update, AuxHasher.update, size128]

theorem Copied.trans {a b : Bytes} {w w' w'' : TempWriter} {s s' s'' : Site}
    (ha : Copied a w s w' s') (hb : Copied b w' s' w'' s'') : Copied (a ++ b) w s w'' s'' := by
  obtain ⟨rfl, htemp⟩ := ha
  obtain ⟨rfl, htemp'⟩ := hb
  refine ⟨TempWriter.update_append w a b, ?_⟩
  rw [htemp', htemp, Option.map_map]
  congr 1
  funext content
  simp

/-- The destination and the record in the index. -/
def Keeps (place : Place) (record : Option FileRef) (s : Site) : Prop :=
  s.files.destination = place ∧ s.record = record

variable {C : Site → Prop} {α ε : Type} {s : Site} {place : Place} {record : Option FileRef}

variable {β : Type} {f : β → FileM α} {Q : α → Site → Prop}

theorem ends_reported {error : OperationError} {r : Except ε α} (hC : C s)
    (hQ : ∀ a, r = .ok a → Q a s) : Ends world C Q (reported error r) s := by
  cases r with
  | ok a => exact pure hC (hQ a rfl)
  | error e => exact throw hC

theorem safe_andThen {C' : Site → Prop} {P : β → Site → Prop}
    {Q : Except OperationError α → Site → Prop} {p : FileM β}
    (hp : Ends world C P p s) (hC : ∀ s, C s → C' s) (herror : ∀ e s, C s → Q (.error e) s)
    (hok : ∀ b s, C s → P b s → Safe world C' Q (f b) s) :
    Safe world C' Q (p >>= f : FileM α) s := by
  refine Safe.bindE (Safe.mono (p := p) hp hC fun r s hs hr => ?_)
  cases r with
  | ok b => exact hok b s hs (hr b rfl)
  | error e => exact herror e s hs

theorem dropping_safe {Q : Except OperationError α → Site → Prop} {p : FileM α}
    (hworld : ∀ op s r s', world op s r s' → host h op s r s') (hp : Safe world C Q p s)
    (hdrop : ∀ e s, C s → Q (.error e) s →
      C { s with files.temp := none } ∧ Q (.error e) { s with files.temp := none }) :
    Safe world C Q (dropping p) s := by
  refine Safe.bind (hp.mono (fun _ h => h) fun r s hs hr => ?_)
  cases r with
  | ok a => exact ⟨hs, hr⟩
  | error e =>
    refine ⟨hs, fun _ s' hstep => ?_⟩
    obtain rfl | rfl := hworld _ _ _ _ hstep
    · exact ⟨hs, hr⟩
    · exact hdrop e s hs hr

def ofExcept (r : Except OperationError α) : FileM α := ExceptT.mk (.done r)

theorem ends_ofExcept_bind {r : Except OperationError β}
    (hC : C s) (hf : ∀ b, r = .ok b → Ends world C Q (f b) s) :
    Ends world C Q (ofExcept r >>= f) s := by
  cases r with
  | ok b => exact hf b rfl
  | error e => exact throw hC

theorem safe_ofExcept_bind {Q : Except OperationError α → Site → Prop} {r : Except OperationError β}
    (hC : C s) (herror : ∀ e, Q (.error e) s) (hf : ∀ b, r = .ok b → Safe world C Q (f b) s) :
    Safe world C Q (ofExcept r >>= f : FileM α) s := by
  cases r with
  | ok b => exact hf b rfl
  | error e => exact ⟨hC, herror e⟩

theorem ends_reported_bind {error : OperationError}
    {r : Except ε β} (hC : C s) (hf : ∀ b, r = .ok b → Ends world C Q (f b) s) :
    Ends world C Q (reported error r >>= f) s := by
  cases r with
  | ok b => exact hf b rfl
  | error e => exact throw hC

section
variable (hworld : ∀ op s r s', world op s r s' → host h op s r s')
include hworld

variable {error : OperationError}

theorem createTemp_ends (hs : Keeps place record s) : Ends world (Keeps place record)
      (fun _ s' => s' = { s with files.temp := some [] }) (createTemp error) s := by
  refine ⟨hs, fun r s' hstep => ?_⟩
  obtain ⟨rfl, rfl⟩ | ⟨⟨e, rfl⟩, rfl⟩ := hworld _ _ _ _ hstep
  · exact ends_reported hs fun _ _ => rfl
  · exact ends_reported hs (by simp)

theorem append_ends {chunk : Bytes} (hs : Keeps place record s) : Ends world (Keeps place record)
      (fun _ s' => s' = { s with files.temp := s.files.temp.map (· ++ chunk) })
      (append error chunk) s := by
  refine ⟨hs, fun r s' hstep => ?_⟩
  obtain ⟨rfl, rfl⟩ | ⟨⟨e, rfl⟩, part, -, rfl⟩ := hworld _ _ _ _ hstep
  · exact ends_reported hs fun _ _ => rfl
  · exact ends_reported hs (by simp)

theorem flush_ends (hC : C s) : Ends world C (fun _ s' => s' = s) (flush error) s := by
  refine ⟨hC, fun r s' hstep => ?_⟩
  obtain rfl : s' = s := hworld _ _ _ _ hstep
  exact ends_reported hC fun _ _ => rfl

theorem readHeader_ends (hC : C s) :
    Ends world C (fun bytes s' => s' = s ∧ ∃ content, s.files.temp = some content ∧
      bytes = content.take minHeaderLen) (readHeader error) s := by
  refine ⟨hC, fun r s' hstep => ?_⟩
  obtain ⟨rfl, hbytes⟩ := hworld _ _ _ _ hstep
  exact ends_reported hC fun a ha => ⟨rfl, hbytes a ha⟩

theorem readDestination_ends (hC : C s) :
    Ends world C (fun bytes s' => s' = s ∧ s.files.destination = .file bytes)
      (readDestination error) s := by
  refine ⟨hC, fun r s' hstep => ?_⟩
  obtain ⟨rfl, hbytes⟩ := hworld _ _ _ _ hstep
  exact ends_reported hC fun a ha => ⟨rfl, hbytes a ha⟩

theorem writeAll_ends {w : TempWriter} {bytes : Bytes} (hs : Keeps place record s) :
    Ends world (Keeps place record) (Copied bytes w s) (writeAll error w bytes) s := by
  refine andThen (append_ends hworld hs) ?_
  rintro _ s' hs' rfl
  exact pure hs' ⟨rfl, rfl⟩

theorem streamLoop_spec (error : OperationError) (source : Source ε) (w : TempWriter)
    (hs : Keeps place record s) :
    Ends world (Keeps place record) (Copied source.bytes w s) (streamLoop error source w) s := by
  induction source generalizing w s with
  | nil => exact pure hs (Copied.nil w s)
  | cons answer rest ih =>
    cases answer with
    | fault e => exact throw hs
    | data b bs =>
      refine andThen (writeAll_ends hworld hs) fun w' s' hs' hcopied => ?_
      exact (ih w' hs').mono fun w'' s'' _ hrest => hcopied.trans hrest

theorem streamCopy_spec (error : OperationError) (source : Source ε)
    (expected : Option ExpectedDigest) (hs : Keeps place record s) : Ends world (Keeps place record)
      (fun w s' => w = (TempWriter.new expected).update source.bytes ∧
        s'.files.temp = some source.bytes) (streamCopy error source expected) s := by
  refine andThen (createTemp_ends hworld hs) ?_
  rintro _ s₁ hs₁ rfl
  refine andThen (streamLoop_spec hworld error source _ hs₁) ?_
  rintro w s₂ hs₂ ⟨rfl, htemp⟩
  refine andThen (flush_ends hworld hs₂) ?_
  rintro _ s₃ hs₃ rfl
  exact pure hs₃ ⟨rfl, by simpa using htemp⟩

end

/-! ## A publication, step by step -/

/-- The rename onto a destination that was removed can fail. -/
def RenameFails (world : World Site FileOp FileOp.Ans) (digest : FileDigest) (bytes : Bytes) :
    Prop :=
  ∃ record e s', world (.publication digest .rename) ⟨⟨.absent, some bytes⟩, record⟩ (.error e) s'

/-- The files while `bytes` are published where `before` was. -/
inductive Midway (world : World Site FileOp FileOp.Ans) (digest : FileDigest) (before : Place)
    (bytes : Bytes) : Publish.Disk → Prop
  | staged : Midway world digest before bytes ⟨before, some bytes⟩
  | discarded : Midway world digest before bytes ⟨before, none⟩
  | removed : Midway world digest before bytes ⟨.absent, some bytes⟩
  | moved : Midway world digest before bytes ⟨.file bytes, none⟩
  | lost (hfails : RenameFails world digest bytes) :
      Midway world digest before bytes ⟨.absent, none⟩

/-- A publication has the bytes in place, or has left the place alone. -/
def Ended (world : World Site FileOp FileOp.Ans) (h : Hashers) (digest : FileDigest)
    (before : Place) (bytes : Bytes) : Except IoError Unit → Place → Prop
  | .ok _, place => place = .file bytes ∨ place = before ∧ before.Holds (Matches h digest)
  | .error _, place => place = before ∨ place = .absent ∧ RenameFails world digest bytes

/-- Every point of the publication, and its end. -/
def Publishes (world : World Site FileOp FileOp.Ans) (h : Hashers) (digest : FileDigest)
    (before : Place) (bytes : Bytes) (record : Option FileRef) (call : Publish.Call) (s : Site) :
    Prop :=
  Safe world (fun s => Midway world digest before bytes s.files ∧ s.record = record)
    (fun r s => Ended world h digest before bytes r s.files.destination) (publication digest call) s

theorem rename_cases {place : Place} {bytes : Bytes} (hdir : place ≠ .directory)
    {r : Except IoError Unit} {d' : Publish.Disk} {matching : Bytes → Prop} [DecidablePred matching]
    (hserve : ∃ outcome, serve matching outcome .rename ⟨place, some bytes⟩ = (r, d')) :
    r = .ok () ∧ d' = ⟨.file bytes, none⟩ ∨ (∃ e, r = .error e) ∧ d' = ⟨place, some bytes⟩ := by
  obtain ⟨outcome, hserve⟩ := hserve
  cases outcome with
  | some e =>
    cases hserve
    exact Or.inr ⟨⟨e, rfl⟩, rfl⟩
  | none =>
    cases place with
    | directory => exact absurd rfl hdir
    | absent | file old =>
      cases hserve
      exact Or.inl ⟨rfl, rfl⟩

section
variable (hworld : ∀ op s r s', world op s r s' → host h op s r s') {digest : FileDigest}
  {before : Place} {bytes : Bytes}
include hworld

theorem publishes_step {op : Publish.Op} {next : op.Ans → Publish.Call} {d : Publish.Disk}
    (hd : Midway world digest before bytes d)
    (hnext : ∀ r d', world (.publication digest op) ⟨d, record⟩ r ⟨d', record⟩ →
      (∃ outcome, serve (Matches h digest) outcome op d = (r, d')) →
      Publishes world h digest before bytes record (next r) ⟨d', record⟩) :
    Publishes world h digest before bytes record (.step op next) ⟨d, record⟩ := by
  refine ⟨⟨hd, rfl⟩, fun r s' hstep => ?_⟩
  obtain ⟨outcome, hserve, hrecord⟩ := hworld _ _ _ _ hstep
  obtain ⟨d', record'⟩ := s'
  obtain rfl : record' = record := hrecord
  exact hnext r d' hstep ⟨outcome, hserve⟩

theorem discard_publishes {r : Except IoError Unit} {d : Publish.Disk}
    (hd : Midway world digest before bytes d)
    (hd' : Midway world digest before bytes { d with temp := none })
    (hend : Ended world h digest before bytes r d.destination) :
    Publishes world h digest before bytes record (Publish.discard r) ⟨d, record⟩ := by
  refine publishes_step hworld hd fun answer d' _ hserve => ?_
  obtain ⟨outcome, hserve⟩ := hserve
  cases outcome with
  | none =>
    cases hserve
    exact ⟨⟨hd', rfl⟩, hend⟩
  | some e =>
    cases hserve
    exact ⟨⟨hd, rfl⟩, hend⟩

theorem lastRename_publishes {place : Place} (hplace : place = before ∨ place = .absent)
    (hdir : place ≠ .directory) : Publishes world h digest before bytes record Publish.lastRename
      ⟨⟨place, some bytes⟩, record⟩ := by
  have hstart : Midway world digest before bytes ⟨place, some bytes⟩ := by
    rcases hplace with rfl | rfl
    · exact .staged
    · exact .removed
  refine publishes_step hworld hstart fun r d' hstep hserve => ?_
  obtain ⟨rfl, rfl⟩ | ⟨⟨e, rfl⟩, rfl⟩ := rename_cases hdir hserve
  · exact ⟨⟨.moved, rfl⟩, Or.inl rfl⟩
  · rcases hplace with rfl | rfl
    · exact discard_publishes hworld .staged .discarded (Or.inl rfl)
    · have hfails : RenameFails world digest bytes := ⟨record, e, _, hstep⟩
      exact discard_publishes hworld .removed (.lost hfails) (Or.inr ⟨rfl, hfails⟩)

variable (hdir : before ≠ .directory)
include hdir

theorem replaceStale_publishes : Publishes world h digest before bytes record Publish.replaceStale
      ⟨⟨before, some bytes⟩, record⟩ := by
  refine publishes_step hworld .staged fun r d' _ hserve => ?_
  obtain ⟨outcome, hserve⟩ := hserve
  cases outcome with
  | some e =>
    cases hserve
    exact lastRename_publishes hworld (Or.inl rfl) hdir
  | none =>
    cases before with
    | directory => exact absurd rfl hdir
    | absent =>
      cases hserve
      exact lastRename_publishes hworld (Or.inl rfl) hdir
    | file old =>
      cases hserve
      exact lastRename_publishes hworld (Or.inr rfl) nofun

theorem renameOr_publishes (windows : Bool) {rest : Publish.Call}
    (hrest : Publishes world h digest before bytes record rest ⟨⟨before, some bytes⟩, record⟩) :
    Publishes world h digest before bytes record (Publish.renameOr windows rest)
      ⟨⟨before, some bytes⟩, record⟩ := by
  refine publishes_step hworld .staged fun r d' _ hserve => ?_
  obtain ⟨rfl, rfl⟩ | ⟨⟨e, rfl⟩, rfl⟩ := rename_cases hdir hserve
  · exact ⟨⟨.moved, rfl⟩, Or.inl rfl⟩
  · show Publishes _ _ _ _ _ _ (if Publish.contended windows e then rest else _) _
    split
    · exact hrest
    · exact discard_publishes hworld .staged .discarded (Or.inl rfl)

theorem retry_publishes (windows : Bool) (n : Nat) :
    Publishes world h digest before bytes record (Publish.retry windows n)
      ⟨⟨before, some bytes⟩, record⟩ := by
  induction n with
  | zero => exact replaceStale_publishes hworld hdir
  | succ n ih =>
    have hagain := renameOr_publishes hworld hdir windows ih
    refine publishes_step hworld .staged fun r d' _ hserve => ?_
    obtain ⟨outcome, hserve⟩ := hserve
    cases outcome with
    | none =>
      cases hserve
      by_cases hholds : before.Holds (Matches h digest)
      · simp only [hholds, decide_true]
        exact discard_publishes hworld .staged .discarded (Or.inr ⟨rfl, hholds⟩)
      · simp only [hholds, decide_false]
        exact hagain
    | some e =>
      cases hserve
      show Publishes _ _ _ _ _ _ (if Publish.contended windows e then _ else _) _
      split
      · exact hagain
      · exact discard_publishes hworld .staged .discarded (Or.inl rfl)

omit hdir

theorem publishWith_publishes (windows : Bool) :
    Publishes world h digest before bytes record (publishWith windows)
      ⟨⟨before, some bytes⟩, record⟩ := by
  refine publishes_step hworld .staged fun r d' _ hserve => ?_
  obtain ⟨outcome, hserve⟩ := hserve
  cases outcome with
  | some e =>
    cases hserve
    exact ⟨⟨.staged, rfl⟩, Or.inl rfl⟩
  | none =>
    cases hserve
    refine publishes_step hworld .staged fun r d' _ hserve => ?_
    obtain ⟨outcome, hserve⟩ := hserve
    cases hserve
    by_cases hdir : before = .directory
    · simp only [hdir, decide_true, if_true]
      exact discard_publishes hworld .staged .discarded (Or.inl rfl)
    · simp only [hdir, decide_false, Bool.false_eq_true, if_false]
      exact renameOr_publishes hworld hdir windows (retry_publishes hworld hdir windows _)

theorem publish_safe (windows : Bool) {C : Site → Prop}
    {Q : Except OperationError Unit → Site → Prop}
    (hC : ∀ d, Midway world digest before bytes d → C ⟨d, record⟩)
    (hok : ∀ d, Midway world digest before bytes d →
      Ended world h digest before bytes (.ok ()) d.destination → Q (.ok ()) ⟨d, record⟩)
    (herror : ∀ d, Midway world digest before bytes d →
      (d.destination = before ∨ d.destination = .absent ∧ RenameFails world digest bytes) →
      Q (.error .writeDestination) ⟨d, record⟩) :
    Safe world C Q (publish windows digest) ⟨⟨before, some bytes⟩, record⟩ := by
  refine Safe.bind (Safe.mono (publishWith_publishes hworld windows) ?_ ?_)
  · rintro ⟨d, _⟩ ⟨hd, rfl⟩
    exact hC d hd
  · rintro r ⟨d, _⟩ ⟨hd, rfl⟩ hend
    cases r with
    | ok u => exact ⟨hC d hd, hok d hd hend⟩
    | error e => exact ⟨hC d hd, herror d hd hend⟩

end

end

end Jyth.Ops
