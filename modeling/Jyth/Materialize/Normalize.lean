import Jyth.Image.ArchiveNames
import Jyth.Materialize.Load

/-!
# Crashes of a normalization

`normalize_artifact` over the files and the record of one artifact.  A decompression
commits the new record and then replaces the file; a conversion replaces the file and
then commits the record.  A run can stop after any operation.

* `normalize_intact`: what the record and the files can be at every point of a run.
* `normalize_crash_consistent`: what a later read then returns.
-/

namespace Jyth.Ops

open Format Effect List Ends Safe
open Jyth.Image
open Jyth.Image.Publish (IoError Place publishWith)
open Jyth.Materialize (size128 minHeaderLen Detected)

/-! ## The program -/

/-- The decompressors and the TAR reader. -/
structure Codecs (ε : Type) where
  decoder : ArtifactCompression → Bytes → Except ε (Source ε)
  entries : Bytes → Except ε (List Cpio.TarEntry)
  firstEntry : Bytes → Bool
  order : Cpio.KeyOrder

def maxDecompressedBytes : BitVec 128 := 4 * 1024 * 1024 * 1024

def decompressedBound (size : BitVec 128) : BitVec 128 :=
  if maxDecompressedBytes < size then size else maxDecompressedBytes

section
variable {ε : Type} (h : Hashers) (codecs : Codecs ε)

def streamDecode (maxBytes : BitVec 128) : Source ε → TempWriter → FileM TempWriter
  | [], w => return w
  | .fault _ :: _, _ => throw .readSource
  | .data b bs :: rest, w => do
    ofExcept (failIf (maxBytes < w.bytesWritten + size128 (b :: bs)) .sizeMismatch)
    let w ← writeAll .writeDestination w (b :: bs)
    streamDecode maxBytes rest w

def innerType (detected : Detected) : Except OperationError ArtifactType :=
  if detected.artifactType = .compressed then .error .unsupportedArtifact
  else .ok detected.artifactType

/-- `decompress`, up to the publication.  A missing file is found by the read. -/
def decompress (cancelled : Bool) (entry : FileRef) : FileM FileRef := do
  ofExcept (failIf (entry.artifactType ≠ .compressed) .unsupportedArtifact)
  ofExcept (failIf (entry.artifactCompression = .none) .unsupportedCompression)
  ofExcept (failIf (cancelled = true) .cancelled)
  let source ← readDestination .readSource
  ofExcept (failIf (digestOf h source ≠ entry.fileDigest) .digestMismatch)
  createTemp .writeDestination
  let decoder ← reported .readSource (codecs.decoder entry.artifactCompression source)
  let w ← streamDecode (decompressedBound entry.fileDigest.fileSize) decoder (.new none)
  flush .writeDestination
  let header ← readHeader .readSource
  let detected ← ofExcept (detectOrUnsupported codecs.firstEntry header)
  let artifactType ← ofExcept (innerType detected)
  return { entry with
    fileDigest := (w.finish h).fileDigest, artifactType, artifactCompression := .none }

def convertTar (tar : Bytes) : Except OperationError Bytes := do
  let entries ← (codecs.entries tar).mapError fun _ => .invalidTar
  (Cpio.convert codecs.order entries entries).mapError Report.context

/-- The first pass of `cpio::convert`. -/
def collectHeaders (tar : Bytes) : Except OperationError Unit := do
  let entries ← (codecs.entries tar).mapError fun _ => .invalidTar
  let _ ← (entries.mapM Cpio.snapshotEntry).mapError Report.context

def stageCpio (cancelled : Bool) (entry : FileRef) : FileM PublishedFile := do
  ofExcept (failIf (entry.artifactType ≠ .containerTar) .unsupportedArtifact)
  ofExcept (failIf (entry.artifactCompression ≠ .none) .unsupportedCompression)
  ofExcept (failIf (cancelled = true) .cancelled)
  let source ← readDestination .readSource
  ofExcept (failIf (digestOf h source ≠ entry.fileDigest) .digestMismatch)
  ofExcept (collectHeaders codecs source)
  createTemp .writeDestination
  -- The second pass writes as it goes; a failed write may leave a part of the archive.
  let archive ← ofExcept (convertTar codecs source)
  let w ← writeAll .writeDestination (.new none) archive
  flush .writeDestination
  return w.finish h

def intoCpio (windows cancelled : Bool) (entry : FileRef) : FileM FileRef := do
  let staged ← stageCpio h codecs cancelled entry
  publish windows staged.fileDigest
  return { entry with
    fileDigest := staged.fileDigest, artifactType := .containerCpio, artifactCompression := .none }

/-- The compressed branch of `normalize_artifact`. -/
def decompressInPlace (windows cancelled : Bool) (artifact : FileRef) : FileM FileRef :=
  dropping do
    let artifact ← decompress h codecs cancelled artifact
    replaceFileRef .writeDestination artifact
    publish windows artifact.fileDigest
    return artifact

/-- The TAR branch of `normalize_artifact`. -/
def convertInPlace (windows cancelled : Bool) (artifact : FileRef) : FileM FileRef := do
  let artifact ← dropping (intoCpio h codecs windows cancelled artifact)
  replaceFileRef .writeDestination artifact
  return artifact

inductive LayerError
  | materialization
deriving DecidableEq

/-- `change_layer`: which error was reported does not matter any more. -/
def changeLayer {α : Type} (p : FileM α) : Fallible FileOp FileOp.Ans LayerError α :=
  ExceptT.mk (Prog.bind p fun r => .done (r.mapError fun _ => .materialization))

/-- A compressed artifact is decompressed. -/
def expand (windows cancelled : Bool) (artifact : FileRef) : FileM FileRef :=
  if artifact.artifactCompression ≠ .none then
    decompressInPlace h codecs windows cancelled artifact
  else pure artifact

/-- A TAR is converted. -/
def archive (windows cancelled : Bool) (artifact : FileRef) : FileM FileRef :=
  if artifact.artifactType = .containerTar then
    convertInPlace h codecs windows cancelled artifact
  else pure artifact

/-- `cancelled` is what the token says at the two checks.  A join that leaves its worker
ends the run for the caller; what the worker still does, a run does that is cut off later. -/
def normalizeArtifact (windows : Bool) (cancelled : Bool × Bool) (artifact : FileRef) :
    Fallible FileOp FileOp.Ans LayerError FileRef :=
  changeLayer do
    let artifact ← expand h codecs windows cancelled.1 artifact
    archive h codecs windows cancelled.2 artifact

end

/-! ## Consistency -/

section
variable {ε : Type} {h : Hashers} {codecs : Codecs ε} {world : World Site FileOp FileOp.Ans}

/-- The record has the digest of the bytes, and the type and compression found in them. -/
def Describes (h : Hashers) (codecs : Codecs ε) (f : FileRef) (bytes : Bytes) : Prop :=
  f.fileDigest = digestOf h bytes ∧
    detect codecs.firstEntry (bytes.take minHeaderLen) =
      .ok (some ⟨f.artifactType, f.artifactCompression⟩)

/-- What there is before the conversion: the source, and what it decompresses to. -/
def raw (codecs : Codecs ε) (compression : ArtifactCompression) (source : Bytes) : List Bytes :=
  match codecs.decoder compression source with
  | .ok decoder => [source, decoder.bytes]
  | .error _ => [source]

def forms (codecs : Codecs ε) (compression : ArtifactCompression) (source : Bytes) : List Bytes :=
  raw codecs compression source ++
    (raw codecs compression source).filterMap fun tar => (convertTar codecs tar).toOption

/-- One of the forms is left: at the destination or, in a publication that has removed the
destination, in the temporary file. -/
def Remains (kept : List Bytes) (d : Publish.Disk) : Prop :=
  ∃ c ∈ kept, d.destination = .file c ∨ d.destination = .absent ∧ d.temp = some c

/-- `Remains`, as long as the rename onto a removed destination does not fail. -/
def Present (world : World Site FileOp FileOp.Ans) (kept : List Bytes) (d : Publish.Disk) : Prop :=
  ∃ c ∈ kept, d.destination = .file c ∨
    d.destination = .absent ∧ (d.temp = some c ∨ ∃ digest, RenameFails world digest c)

/-- `Present`, without the temporary file. -/
def Settled (world : World Site FileOp FileOp.Ans) (kept : List Bytes) (d : Publish.Disk) : Prop :=
  ∃ c ∈ kept, d.destination = .file c ∨
    d.destination = .absent ∧ ∃ digest, RenameFails world digest c

/-- What holds at every point of a normalization. -/
structure Intact (world : World Site FileOp FileOp.Ans) (h : Hashers) (codecs : Codecs ε)
    (kept : List Bytes) (id : ArtifactId) (s : Site) : Prop where
  record : ∃ f c, s.record = some f ∧ f.artifactId = id ∧ c ∈ kept ∧ Describes h codecs f c
  present : Present world kept s.files

variable {kept : List Bytes} {id : ArtifactId} {s : Site} {d : Publish.Disk}

theorem Settled.present (hd : Settled world kept d) : Present world kept d := by
  obtain ⟨c, hc, hplace | ⟨hplace, hfails⟩⟩ := hd
  · exact ⟨c, hc, Or.inl hplace⟩
  · exact ⟨c, hc, Or.inr ⟨hplace, Or.inr hfails⟩⟩

theorem Midway.present {digest : FileDigest} {b c : Bytes} (hb : b ∈ kept)
    (hc : c ∈ kept) (hd : Midway world digest (.file b) c d) : Present world kept d := by
  cases hd with
  | staged | discarded => exact ⟨b, hb, Or.inl rfl⟩
  | removed => exact ⟨c, hc, Or.inr ⟨rfl, Or.inl rfl⟩⟩
  | moved => exact ⟨c, hc, Or.inl rfl⟩
  | lost hfails => exact ⟨c, hc, Or.inr ⟨rfl, Or.inr ⟨digest, hfails⟩⟩⟩

/-- The record describes the destination. -/
def Aligned (h : Hashers) (codecs : Codecs ε) (pool : List Bytes) (id : ArtifactId) (f : FileRef)
    (s : Site) : Prop :=
  s.record = some f ∧ f.artifactId = id ∧
    ∃ c ∈ pool, s.files.destination = .file c ∧ Describes h codecs f c

variable {f : FileRef}

theorem Aligned.intact {pool : List Bytes} (hs : Aligned h codecs pool id f s)
    (hpool : ∀ c ∈ pool, c ∈ kept) : Intact world h codecs kept id s := by
  obtain ⟨hrecord, hid, c, hc, hplace, hdescribes⟩ := hs
  exact ⟨⟨f, c, hrecord, hid, hpool c hc, hdescribes⟩, c, hpool c hc, Or.inl hplace⟩

theorem Keeps.intact {c : Bytes} (hs : Keeps (.file c) (some f) s)
    (hid : f.artifactId = id) (hc : c ∈ kept) (hdescribes : Describes h codecs f c) :
    Intact world h codecs kept id s ∧ Settled world kept s.files :=
  ⟨⟨⟨f, c, hs.2, hid, hc, hdescribes⟩, c, hc, Or.inl hs.1⟩, c, hc, Or.inl hs.1⟩

theorem source_mem_raw (compression : ArtifactCompression) (source : Bytes) :
    source ∈ raw codecs compression source := by
  rw [raw]
  split <;> simp

/-! ## The archive that is written -/

theorem magic_prefix_item (item : Item) : magicNewc <+: item.bytes := by
  unfold Item.bytes encodeHeader
  simp only [append_assoc]
  exact prefix_append _ _

variable {bytes : Bytes} {firstEntry : Bytes → Bool} {detected : Detected}

theorem magic_prefix_archive {items : List Item}
    (hwrite : writeArchive items = .ok bytes) : magicNewc <+: bytes := by
  rw [writeArchive, bind_eq_ok] at hwrite
  obtain ⟨w, hitems, htrailer⟩ := hwrite
  obtain rfl := (writeItems_eq_ok hitems).1
  obtain rfl := (writeItem_eq_ok (show writeItem _ (.entry trailer) = .ok bytes from htrailer)).1
  cases items with
  | nil => exact magic_prefix_item (.entry trailer)
  | cons item items =>
    simp only [nil_append, flatMap_cons, append_assoc]
    exact (magic_prefix_item item).trans (prefix_append _ _)

theorem magic_prefix_convertTar {tar : Bytes} (hconvert : convertTar codecs tar = .ok bytes) :
    magicNewc <+: bytes := by
  rw [convertTar, bind_eq_ok] at hconvert
  obtain ⟨entries, -, hconvert⟩ := hconvert
  cases hresult : Cpio.convert codecs.order entries entries with
  | error e => simp [hresult, Except.mapError] at hconvert
  | ok result =>
    obtain rfl : result = bytes := by simpa [hresult, Except.mapError] using hconvert
    obtain ⟨-, items, -, -, hwrite, -⟩ := Cpio.convert_eq_ok hresult
    exact magic_prefix_archive hwrite

theorem detect_archive (hmagic : magicNewc <+: bytes) :
    detect firstEntry (bytes.take minHeaderLen) = .ok (some ⟨.containerCpio, .none⟩) := by
  have hheader : magicNewc <+: bytes.take minHeaderLen := by
    rw [prefix_take_iff]
    exact ⟨hmagic, by decide⟩
  obtain ⟨rest, hrest⟩ := hheader
  have hcompression : detectCompression (magicNewc ++ rest) = none := by
    have hliteral : magicNewc = [0x30, 0x37, 0x30, 0x37, 0x30, 0x31] := by decide
    simp [detectCompression, hliteral, cons_prefix_cons]
  have hcpio : isCpioNewc (magicNewc ++ rest) = true := by
    simp [isCpioNewc]
  rw [← hrest, detect, hcompression]
  simp only [detectContainer, hcpio, if_true]
  rfl

theorem detectOrUnsupported_eq_ok (hdetect : detectOrUnsupported firstEntry bytes = .ok detected) :
    detect firstEntry bytes = .ok (some detected) := by
  rw [detectOrUnsupported] at hdetect
  split at hdetect
  · next found hfound =>
    cases hdetect
    exact hfound
  · cases hdetect
  · cases hdetect

theorem detect_compression (hdetect : detect firstEntry bytes = .ok (some detected))
    (htype : detected.artifactType ≠ .compressed) : detected.artifactCompression = .none := by
  rw [detect] at hdetect
  split at hdetect
  · next found hfound =>
    cases hdetect
    unfold detectCompression at hfound
    split at hfound
    · cases hfound
      exact absurd rfl htype
    · split at hfound
      · cases hfound
        exact absurd rfl htype
      · cases hfound
  · unfold detectContainer at hdetect
    split at hdetect
    · cases hdetect
      rfl
    · obtain ⟨isImage, -, hdetect⟩ := bind_eq_ok.1 hdetect
      split at hdetect
      · cases hdetect
        rfl
      · split at hdetect
        · cases hdetect
          rfl
        · cases hdetect

theorem innerType_eq_ok {ty : ArtifactType}
    (hinner : innerType detected = .ok ty) : detected.artifactType = ty ∧ ty ≠ .compressed := by
  rw [innerType] at hinner
  split at hinner
  · cases hinner
  · next hne =>
    cases hinner
    exact ⟨rfl, hne⟩

/-! ## Every point of a normalization -/

section
variable (hworld : ∀ op s r s', world op s r s' → host h op s r s')
include hworld

variable {record : Option FileRef} {source : Bytes} {f : FileRef}

theorem streamDecode_spec (maxBytes : BitVec 128) (decoder : Source ε) (w : TempWriter)
    {place : Place} (hs : Keeps place record s) :
    Ends world (Keeps place record) (Copied decoder.bytes w s)
      (streamDecode maxBytes decoder w) s := by
  induction decoder generalizing w s with
  | nil => exact pure hs (Copied.nil w s)
  | cons answer rest ih =>
    cases answer with
    | fault e => exact throw hs
    | data b bs =>
      refine ends_ofExcept_bind hs fun _ _ => ?_
      refine andThen (writeAll_ends hworld hs) fun w' s' hs' hcopied => ?_
      exact (ih w' hs').mono fun w'' s'' _ hrest => hcopied.trans hrest

theorem decompress_spec (cancelled : Bool) (entry : FileRef) (hs : Keeps (.file source) record s) :
    Ends world (Keeps (.file source) record) (fun f s' => f.artifactId = entry.artifactId ∧
        ∃ c ∈ raw codecs entry.artifactCompression source,
          s'.files.temp = some c ∧ Describes h codecs f c)
      (decompress h codecs cancelled entry) s := by
  refine ends_ofExcept_bind hs fun _ _ => ?_
  refine ends_ofExcept_bind hs fun _ _ => ?_
  refine ends_ofExcept_bind hs fun _ _ => ?_
  refine andThen (readDestination_ends hworld hs) ?_
  rintro bytes s₁ hs₁ ⟨rfl, hbytes⟩
  obtain rfl : source = bytes := by simpa using hs₁.1.symm.trans hbytes
  refine ends_ofExcept_bind hs₁ fun _ _ => ?_
  refine andThen (createTemp_ends hworld hs₁) ?_
  rintro _ s₂ hs₂ rfl
  refine ends_reported_bind hs₂ fun decoder hdecoder => ?_
  refine andThen (streamDecode_spec hworld _ decoder (.new none) hs₂) ?_
  rintro w s₃ hs₃ ⟨rfl, htemp⟩
  refine andThen (flush_ends hworld hs₃) ?_
  rintro _ s₄ hs₄ rfl
  refine andThen (readHeader_ends hworld hs₄) ?_
  rintro header s₅ hs₅ ⟨rfl, content, hcontent, rfl⟩
  have hwhole : s₅.files.temp = some decoder.bytes := by simpa using htemp
  obtain rfl : content = decoder.bytes := by simpa [hwhole, eq_comm] using hcontent
  refine ends_ofExcept_bind hs₅ fun detected hdetected => ?_
  refine ends_ofExcept_bind hs₅ fun ty hty => ?_
  obtain ⟨rfl, hne⟩ := innerType_eq_ok hty
  have hdetect := detectOrUnsupported_eq_ok hdetected
  have hraw : decoder.bytes ∈ raw codecs entry.artifactCompression source := by
    simp [raw, hdecoder]
  refine pure hs₅ ⟨rfl, decoder.bytes, hraw, hwhole, publishedOf_fileDigest none _, ?_⟩
  rw [hdetect, ← detect_compression hdetect hne]

theorem stageCpio_spec (cancelled : Bool) (entry : FileRef) (hs : Keeps (.file source) record s) :
    Ends world (Keeps (.file source) record)
      (fun staged s' => ∃ k, convertTar codecs source = .ok k ∧ s'.files.temp = some k ∧
        staged.fileDigest = digestOf h k) (stageCpio h codecs cancelled entry) s := by
  refine ends_ofExcept_bind hs fun _ _ => ?_
  refine ends_ofExcept_bind hs fun _ _ => ?_
  refine ends_ofExcept_bind hs fun _ _ => ?_
  refine andThen (readDestination_ends hworld hs) ?_
  rintro bytes s₁ hs₁ ⟨rfl, hbytes⟩
  obtain rfl : source = bytes := by simpa using hs₁.1.symm.trans hbytes
  refine ends_ofExcept_bind hs₁ fun _ _ => ?_
  refine ends_ofExcept_bind hs₁ fun _ _ => ?_
  refine andThen (createTemp_ends hworld hs₁) ?_
  rintro _ s₂ hs₂ rfl
  refine ends_ofExcept_bind hs₂ fun k hk => ?_
  refine andThen (writeAll_ends hworld hs₂) ?_
  rintro w s₃ hs₃ ⟨rfl, htemp⟩
  refine andThen (flush_ends hworld hs₃) ?_
  rintro _ s₄ hs₄ rfl
  exact pure hs₄ ⟨k, hk, by simpa using htemp, publishedOf_fileDigest none k⟩

theorem publish_intact (windows : Bool) {b c : Bytes} (hb : b ∈ kept)
    (hc : c ∈ kept) (hdistinct : ∀ x ∈ kept, ∀ y ∈ kept, NoCollision h.blake3 x y)
    (hrecord : ∃ f c, record = some f ∧ f.artifactId = id ∧ c ∈ kept ∧ Describes h codecs f c) :
    Safe world (Intact world h codecs kept id)
      (fun r s' => s'.record = record ∧ (r = .ok () → s'.files.destination = .file c) ∧
        Settled world kept s'.files)
      (publish windows (digestOf h c)) ⟨⟨.file b, some c⟩, record⟩ := by
  refine publish_safe hworld windows (fun d hd => ⟨hrecord, hd.present hb hc⟩) ?_ ?_
  · rintro d - (hplace | ⟨hplace, hholds⟩)
    · exact ⟨rfl, fun _ => hplace, c, hc, Or.inl hplace⟩
    · have hsame : b = c := hdistinct b hb c hc (congrArg FileDigest.fileHash hholds)
      subst hsame
      exact ⟨rfl, fun _ => hplace, b, hb, Or.inl hplace⟩
  · rintro d - (hplace | ⟨hplace, hfails⟩)
    · exact ⟨rfl, nofun, b, hb, Or.inl hplace⟩
    · exact ⟨rfl, nofun, c, hc, Or.inr ⟨hplace, _, hfails⟩⟩

theorem replaceFileRef_ends {C : Site → Prop} {error : OperationError} (hC : C s)
    (hC' : C { s with record := some f }) :
    Ends world C (fun _ s' => s' = { s with record := some f }) (replaceFileRef error f) s := by
  refine ⟨hC, fun r s' hstep => ?_⟩
  obtain ⟨rfl, -, rfl⟩ | ⟨⟨e, rfl⟩, rfl⟩ := hworld _ _ _ _ hstep
  · exact ends_reported hC' fun _ _ => rfl
  · exact ends_reported hC (by simp)

theorem dropping_intact {α : Type} {P : α → Site → Prop} {p : FileM α}
    (hp : Safe world (Intact world h codecs kept id)
      (fun r s' => Settled world kept s'.files ∧ ∀ a, r = .ok a → P a s') p s) :
    Safe world (Intact world h codecs kept id) (fun r s' => ∀ a, r = .ok a → P a s')
      (dropping p) s := by
  refine mono (dropping_safe hworld hp ?_) (fun _ hs => hs) fun _ _ _ hend => hend.2
  rintro e s' hs' ⟨hsettled, -⟩
  have hdropped : Settled world kept { s'.files with temp := none } := hsettled
  exact ⟨⟨hs'.record, hdropped.present⟩, hdropped, nofun⟩

variable (hdistinct : ∀ x ∈ kept, ∀ y ∈ kept, NoCollision h.blake3 x y)
include hdistinct

variable {artifact : FileRef} {pool : List Bytes}

theorem decompressInPlace_safe (windows cancelled : Bool)
    (hs : Keeps (.file source) (some artifact) s) (hdescribes : Describes h codecs artifact source)
    (hraw : ∀ c ∈ raw codecs artifact.artifactCompression source, c ∈ kept) :
    Safe world (Intact world h codecs kept artifact.artifactId)
      (fun r s' => ∀ f, r = .ok f → Aligned h codecs
        (raw codecs artifact.artifactCompression source) artifact.artifactId f s')
      (decompressInPlace h codecs windows cancelled artifact) s := by
  have hsource : source ∈ kept := hraw source (source_mem_raw _ _)
  have hkeeps : ∀ s', Keeps (.file source) (some artifact) s' →
      Intact world h codecs kept artifact.artifactId s' ∧ Settled world kept s'.files :=
    fun s' hs' => hs'.intact rfl hsource hdescribes
  refine dropping_intact hworld ?_
  refine safe_andThen (decompress_spec hworld cancelled artifact hs)
    (fun s' hs' => (hkeeps s' hs').1) (fun e s' hs' => ⟨(hkeeps s' hs').2, nofun⟩) ?_
  rintro f s₁ hs₁ ⟨hid, c, hc, htemp, hc'⟩
  -- The record is committed while the source is in place.
  have hcommitted : Intact world h codecs kept artifact.artifactId { s₁ with record := some f } :=
    ⟨⟨f, c, rfl, hid, hraw c hc, hc'⟩, (hkeeps s₁ hs₁).1.present⟩
  refine safe_andThen (C := fun s' => Intact world h codecs kept artifact.artifactId s' ∧
      Settled world kept s'.files)
    (replaceFileRef_ends hworld (hkeeps s₁ hs₁) ⟨hcommitted, (hkeeps s₁ hs₁).2⟩)
    (fun _ hs => hs.1) (fun _ _ hs => ⟨hs.2, nofun⟩) ?_
  rintro _ s₂ _ rfl
  obtain ⟨⟨before, temp⟩, record⟩ := s₁
  obtain rfl : before = .file source := hs₁.1
  obtain rfl : temp = some c := htemp
  rw [hc'.1]
  refine bindE (mono (publish_intact hworld windows hsource (hraw c hc) hdistinct
    hcommitted.record) (fun _ hs => hs) ?_)
  rintro r s₃ hs₃ ⟨hrecord, hplace, hsettled⟩
  cases r with
  | error e => exact ⟨hsettled, nofun⟩
  | ok u =>
    refine ⟨hs₃, hsettled, ?_⟩
    rintro _ ⟨⟩
    exact ⟨hrecord, hid, c, hc, hplace rfl, hc'⟩

theorem intoCpio_safe (windows cancelled : Bool)
    (hs : Aligned h codecs pool id f s) (hpool : ∀ c ∈ pool, c ∈ kept)
    (hconverted : ∀ c ∈ pool, ∀ k, convertTar codecs c = .ok k → k ∈ kept) :
    Safe world (Intact world h codecs kept id) (fun r s' => ∀ f', r = .ok f' → f'.artifactId = id ∧
        ∃ k ∈ kept, s'.files.destination = .file k ∧ Describes h codecs f' k)
      (dropping (intoCpio h codecs windows cancelled f)) s := by
  obtain ⟨hrecord, hid, c, hc, hplace, hdescribes⟩ := hs
  have hkeeps : ∀ s', Keeps (.file c) (some f) s' →
      Intact world h codecs kept id s' ∧ Settled world kept s'.files :=
    fun s' hs' => hs'.intact hid (hpool c hc) hdescribes
  refine dropping_intact hworld ?_
  refine safe_andThen (stageCpio_spec hworld cancelled f ⟨hplace, hrecord⟩)
    (fun s' hs' => (hkeeps s' hs').1) (fun e s' hs' => ⟨(hkeeps s' hs').2, nofun⟩) ?_
  rintro staged s₁ hs₁ ⟨k, hk, htemp, hdigest⟩
  obtain ⟨⟨before, temp⟩, record⟩ := s₁
  obtain rfl : before = .file c := hs₁.1
  obtain rfl : temp = some k := htemp
  rw [hdigest]
  refine bindE (mono (publish_intact hworld windows (hpool c hc) (hconverted c hc k hk)
    hdistinct (hkeeps _ hs₁).1.record) (fun _ hs => hs) ?_)
  rintro r s₂ hs₂ ⟨-, hplace, hsettled⟩
  cases r with
  | error e => exact ⟨hsettled, nofun⟩
  | ok u =>
    refine ⟨hs₂, hsettled, ?_⟩
    rintro _ ⟨⟩
    exact ⟨hid, k, hconverted c hc k hk, hplace rfl, rfl,
      detect_archive (magic_prefix_convertTar hk)⟩

theorem convertInPlace_safe (windows cancelled : Bool)
    (hs : Aligned h codecs pool id f s) (hpool : ∀ c ∈ pool, c ∈ kept)
    (hconverted : ∀ c ∈ pool, ∀ k, convertTar codecs c = .ok k → k ∈ kept) :
    Safe world (Intact world h codecs kept id) (fun _ _ => True)
      (convertInPlace h codecs windows cancelled f) s := by
  refine bindE (mono (intoCpio_safe hworld hdistinct windows cancelled hs hpool
    hconverted) (fun _ hs => hs) ?_)
  rintro r s₁ hs₁ hend
  cases r with
  | error e => trivial
  | ok f' =>
    obtain ⟨hid, k, hk, hplace, hdescribes⟩ := hend f' rfl
    refine safe_andThen (replaceFileRef_ends hworld hs₁
      ⟨⟨f', k, rfl, hid, hk, hdescribes⟩, k, hk, Or.inl hplace⟩)
      (fun _ hs => hs) (fun _ _ _ => trivial) ?_
    rintro _ s₂ hs₂ rfl
    exact ⟨hs₂, trivial⟩

theorem normalize_intact (windows : Bool) (cancelled : Bool × Bool)
    (hs : Keeps (.file source) (some artifact) s) (hdescribes : Describes h codecs artifact source)
    (hraw : ∀ c ∈ raw codecs artifact.artifactCompression source, c ∈ kept)
    (hconverted : ∀ c ∈ raw codecs artifact.artifactCompression source, ∀ k,
      convertTar codecs c = .ok k → k ∈ kept) :
    Safe world (Intact world h codecs kept artifact.artifactId) (fun _ _ => True)
      (normalizeArtifact h codecs windows cancelled artifact) s := by
  have hsource : source ∈ raw codecs artifact.artifactCompression source := source_mem_raw _ _
  have haligned : Aligned h codecs (raw codecs artifact.artifactCompression source)
      artifact.artifactId artifact s := ⟨hs.2, rfl, source, hsource, hs.1, hdescribes⟩
  have hexpand : Safe world (Intact world h codecs kept artifact.artifactId)
      (fun r s' => ∀ f, r = .ok f → Aligned h codecs
        (raw codecs artifact.artifactCompression source) artifact.artifactId f s')
      (expand h codecs windows cancelled.1 artifact) s := by
    rw [expand]
    split
    · exact decompressInPlace_safe hworld hdistinct windows cancelled.1 hs hdescribes hraw
    · refine ⟨haligned.intact hraw, ?_⟩
      rintro _ ⟨⟩
      exact haligned
  refine bind (mono (Q := fun _ _ => True) (bindE (mono hexpand
    (fun _ hs => hs) ?_)) (fun _ hs => hs) fun _ _ hs _ => ⟨hs, trivial⟩)
  rintro r s₁ hs₁ hend
  cases r with
  | error e => trivial
  | ok f =>
    show Safe _ _ _ (archive h codecs windows cancelled.2 f) s₁
    rw [archive]
    split
    · exact convertInPlace_safe hworld hdistinct windows cancelled.2 (hend f rfl) hraw hconverted
    · exact ⟨hs₁, trivial⟩

end

/-! ## Reading the record -/

/-- The probes of a cached file find what is there, or fail. -/
structure Truthful (backing : Backing) (place : Place) : Prop where
  metadata : ∀ len, backing.metadata = .ok (true, len) →
    ∃ bytes, place = .file bytes ∧ bytes.length = len
  contents : ∀ bytes, backing.contents = .ok bytes → place = .file bytes

theorem storedFileValidity_eq_valid {disk : Disk} {place : Place}
    (hprobe : Truthful (disk f.artifactId) place)
    (hvalid : storedFileValidity h.blake3 disk f = .valid) :
    ∃ bytes, place = .file bytes ∧ f.fileDigest = digestOf h bytes := by
  have hfailed : ∀ e, probeFailure e ≠ .valid := by
    intro e
    cases e <;> decide
  unfold storedFileValidity at hvalid
  cases hmetadata : (disk f.artifactId).metadata with
  | error e => exact absurd (by simpa [hmetadata] using hvalid) (hfailed e)
  | ok found =>
    obtain ⟨isFile, len⟩ := found
    simp only [hmetadata] at hvalid
    split at hvalid
    · cases hvalid
    · next hfile =>
      simp only [not_or, Bool.not_eq_false, not_not] at hfile
      obtain ⟨rfl, hlen⟩ := hfile
      cases hopened : (disk f.artifactId).opened with
      | error e => exact absurd (by simpa [hopened] using hvalid) (hfailed e)
      | ok u =>
        cases hcontents : (disk f.artifactId).contents with
        | error e => exact absurd (by simpa [hopened, hcontents] using hvalid) (hfailed e)
        | ok bytes =>
          have hhash : h.blake3 bytes = f.fileDigest.fileHash := by
            by_contra hne
            simp [hopened, hcontents, hne] at hvalid
          have hplace := hprobe.contents bytes hcontents
          obtain ⟨found, hfound, hfoundLen⟩ := hprobe.metadata len hmetadata
          obtain rfl : bytes = found := by simpa [hplace] using hfound
          refine ⟨bytes, hplace, ?_⟩
          rw [digestOf, hhash, size128, hfoundLen, hlen, BitVec.ofNat_toNat, BitVec.setWidth_eq]

theorem getByLinkRef_eq_some {U : Type} {blake3 : Bytes → Hash} {ix : Index U} {disk : Disk}
    {l : LinkRef} (hread : (ix.getByLinkRef blake3 disk l).1 = some f) :
    ix.fileRefs l.artifactId = some f ∧ storedFileValidity blake3 disk f = .valid := by
  rw [Index.getByLinkRef] at hread
  cases hrecord : ix.fileRefs l.artifactId with
  | none => simp [hrecord] at hread
  | some g =>
    simp only [hrecord, Index.settleLookup] at hread
    cases hvalid : storedFileValidity blake3 disk g with
    | miss | indeterminate => simp [hvalid] at hread
    | valid =>
      obtain rfl : g = f := by simpa [hvalid] using hread
      exact ⟨rfl, hvalid⟩

/-- **Crash consistency of a normalization.**  Wherever a normalization of an artifact with
a matching record stops, a later lookup returns nothing or a record that describes the
file.  If the rename onto a removed destination does not fail, the source or one of the
forms made from it is still there. -/
theorem normalize_crash_consistent {U : Type} (h : Hashers) (codecs : Codecs ε)
    (world : World Site FileOp FileOp.Ans)
    (hworld : ∀ op s r s', world op s r s' → host h op s r s') (windows : Bool)
    (cancelled : Bool × Bool) (artifact : FileRef) (source : Bytes) (temp : Option Bytes)
    (hdescribes : Describes h codecs artifact source)
    (hdistinct : ∀ x ∈ forms codecs artifact.artifactCompression source,
      ∀ y ∈ forms codecs artifact.artifactCompression source, NoCollision h.blake3 x y)
    (out : Option (Except LayerError FileRef)) (s' : Site)
    (hrun : Exec world (normalizeArtifact h codecs windows cancelled artifact)
      ⟨⟨.file source, temp⟩, some artifact⟩ out s') :
    (∀ (ix : Index U) (disk : Disk) (l : LinkRef) (f : FileRef),
      l.artifactId = artifact.artifactId → ix.fileRefs l.artifactId = s'.record →
      Truthful (disk l.artifactId) s'.files.destination →
      (ix.getByLinkRef h.blake3 disk l).1 = some f →
      ∃ bytes, s'.files.destination = .file bytes ∧ Describes h codecs f bytes) ∧
    ((∀ digest, ∀ c ∈ forms codecs artifact.artifactCompression source,
        ¬ RenameFails world digest c) →
      s'.record.isSome → Remains (forms codecs artifact.artifactCompression source) s'.files) := by
  have hraw : ∀ c ∈ raw codecs artifact.artifactCompression source,
      c ∈ forms codecs artifact.artifactCompression source := fun c hc => mem_append_left _ hc
  have hconverted : ∀ c ∈ raw codecs artifact.artifactCompression source, ∀ k,
      convertTar codecs c = .ok k → k ∈ forms codecs artifact.artifactCompression source := by
    intro c hc k hk
    exact mem_append_right _ (mem_filterMap.2 ⟨c, hc, by rw [hk]; rfl⟩)
  obtain ⟨⟨f, c, hrecord, hid, hc, hf⟩, k, hk, hplace⟩ := ((safe_iff _ _).1
    (normalize_intact hworld hdistinct windows cancelled ⟨rfl, rfl⟩ hdescribes hraw hconverted)
    out s' hrun).1
  constructor
  · intro ix disk l g hl hix hprobe hread
    obtain ⟨hfound, hvalid⟩ := getByLinkRef_eq_some hread
    obtain rfl : f = g := by simpa [hix, hrecord] using hfound
    rw [hl, ← hid] at hprobe
    obtain ⟨bytes, hbytes, hdigest⟩ := storedFileValidity_eq_valid hprobe hvalid
    -- The bytes found are a form, and no other form has the digest of the record.
    obtain rfl : k = bytes := by simpa [hbytes, eq_comm] using hplace
    have hsame : c = k :=
      hdistinct c hc k hk (congrArg FileDigest.fileHash (hf.1.symm.trans hdigest))
    exact ⟨k, hbytes, hsame ▸ hf⟩
  · intro hrename _
    refine ⟨k, hk, hplace.imp_right fun ⟨habsent, hother⟩ => ⟨habsent, ?_⟩⟩
    rcases hother with htemp | ⟨digest, hfails⟩
    · exact htemp
    · exact absurd hfails (hrename digest k hk)

end

/-! ## A destination that is lost -/

section Lost

/-- A stream of which only the magic of gzip is there, and which decodes to an archive. -/
def gzipped : Bytes := [0x1f, 0x8b]

def sampleCodecs : Codecs Unit where
  decoder _ _ := .ok (Source.ofBytes magicOnly)
  entries _ := .error ()
  firstEntry _ := false
  order := ⟨fun keys => keys, List.Perm.refl⟩

def gzippedRecord : FileRef :=
  ⟨magicRef.uuid, .kernel, digestOf leadingHashers gzipped, .compressed, .gzip⟩

def gzippedSite : Site := ⟨⟨.file gzipped, none⟩, some gzippedRecord⟩

def denied : Publish.Op → Option IoError
  | .rename | .destinationMatches => some ⟨.permissionDenied, none⟩
  | _ => none

def smooth : World Site FileOp FileOp.Ans := fun op s r s' =>
  (r, s') = answer leadingHashers (fun _ => none) op s

theorem smooth_answer (op : FileOp) (s : Site) :
    smooth op s (answer leadingHashers (fun _ => none) op s).1
      (answer leadingHashers (fun _ => none) op s).2 := rfl

theorem smooth_host (op : FileOp) (s : Site) (r : op.Ans) (s' : Site) (hstep : smooth op s r s') :
    host leadingHashers op s r s' := by
  obtain ⟨rfl, rfl⟩ := Prod.mk.inj hstep
  exact answer_host leadingHashers _ op s

theorem smooth_rename (digest : FileDigest) (c : Bytes) : ¬ RenameFails smooth digest c := by
  rintro ⟨record, e, s', hstep⟩
  cases hstep

theorem gzipped_distinct : ∀ x ∈ forms sampleCodecs .gzip gzipped,
    ∀ y ∈ forms sampleCodecs .gzip gzipped, NoCollision leading x y := by
  unfold NoCollision
  decide

/-- The record and the file are those of the archive. -/
def normalizedSite : Site := ⟨⟨.file magicOnly, none⟩, some magicRecord⟩

theorem gzipped_run :
    Exec smooth (normalizeArtifact leadingHashers sampleCodecs false (false, false) gzippedRecord)
      gzippedSite (some (.ok magicRecord)) normalizedSite :=
  exec_interp smooth_answer _ gzippedSite

theorem gzipped_crash_consistent : (normalizedSite.record.isSome →
      Remains (forms sampleCodecs .gzip gzipped) normalizedSite.files) ∧
    ∀ (ix : Index UInt8) (disk : Disk) (l : LinkRef) (f : FileRef),
      l.artifactId = gzippedRecord.artifactId → ix.fileRefs l.artifactId = some magicRecord →
      Truthful (disk l.artifactId) (.file magicOnly) → (ix.getByLinkRef leading disk l).1 = some f →
      ∃ bytes, Place.file magicOnly = .file bytes ∧
        Describes leadingHashers sampleCodecs f bytes := by
  have hconsistent := normalize_crash_consistent (U := UInt8) leadingHashers sampleCodecs smooth
    smooth_host false (false, false) gzippedRecord gzipped none ⟨rfl, rfl⟩ gzipped_distinct
    (some (.ok magicRecord)) normalizedSite gzipped_run
  exact ⟨hconsistent.2 fun digest c _ => smooth_rename digest c, hconsistent.1⟩

/-- The record of the archive is committed, the compressed file removed, and the rename
denied: neither the source nor the archive is left, and the index has a record. -/
def lostSite : Site := ⟨⟨.absent, none⟩, some magicRecord⟩

theorem denied_rename_loses :
    Exec (host leadingHashers) (normalizeArtifact leadingHashers sampleCodecs false (false, false)
        gzippedRecord) gzippedSite (some (.error .materialization)) lostSite ∧
      lostSite.record.isSome ∧ ¬ Remains (forms sampleCodecs .gzip gzipped) lostSite.files := by
  refine ⟨exec_interp (answer_host leadingHashers denied) _ gzippedSite, rfl, ?_⟩
  rintro ⟨c, -, hplace | ⟨-, htemp⟩⟩
  · cases hplace
  · cases htemp

end Lost

end Jyth.Ops
