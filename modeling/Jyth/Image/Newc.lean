import Jyth.Lib.Chunked
import Jyth.Lib.Words

/-!
# The CPIO `newc` writer

The record writer of `image-core/src/ops/cpio.rs` and a reader of the format it
writes.  A `TempWriter` is the bytes staged so far.

    Writable item → writeItem w item = .ok (w ++ item.bytes)     (writeItem_eq)
    Reads readEntry item.entry item.bytes                        (reads_entry)
    4 ∣ item.bytes.length                                        (four_dvd_bytes)
-/

namespace Jyth.Image

open Format List Reads

inductive OperationError
  | readSource | writeDestination | httpRequest | httpStatus | sizeMismatch | digestMismatch
  | unsupportedCompression | unsupportedArtifact | invalidTar | invalidCpio | unsafePath
  | kernelNotFound | invalidKernel | invalidManifest | platformNotFound | cancelled
deriving DecidableEq

/-- An error with its attachment. -/
structure Report where
  context : OperationError
  attachment : Option String
deriving DecidableEq

/-! ## Records -/

inductive Body
  | empty
  | owned (bytes : Bytes)
deriving DecidableEq

/-- A `newc` entry to be written; the name is its UTF-8 bytes. -/
structure Record where
  name : Bytes
  mode : UInt32
  uid : UInt32
  gid : UInt32
  mtime : UInt32
  nlink : UInt32
  devMajor : UInt32
  devMinor : UInt32
  ino : UInt32
  rdevMajor : UInt32
  rdevMinor : UInt32
  body : Body
deriving DecidableEq

def magicNewc : Bytes := utf8 "070701"

def headerLen : Nat := 110

def trailerName : Bytes := utf8 "TRAILER!!!"

/-! ## The writer -/

abbrev TempWriter := Bytes

def padBytes (len : Nat) : Option Bytes :=
  let overhang := len % 4
  if overhang = 0 then none else some (List.replicate (4 - overhang) 0)

def hex8 (value : UInt32) : Bytes := toHex 8 value.toNat

def encodeHeader (record : Record) (fileSize : UInt32) (nameLen : Nat) : Bytes :=
  magicNewc ++ hex8 record.ino ++ hex8 record.mode ++ hex8 record.uid ++ hex8 record.gid
    ++ hex8 record.nlink ++ hex8 record.mtime ++ hex8 fileSize ++ hex8 record.devMajor
    ++ hex8 record.devMinor ++ hex8 record.rdevMajor ++ hex8 record.rdevMinor
    ++ hex8 (UInt32.ofNat nameLen) ++ hex8 0 ++ record.name ++ [0]
    ++ (padBytes (headerLen + nameLen)).getD []

def writeEntry (w : TempWriter) (record : Record) : Except Report TempWriter := do
  let fileSize ← match record.body with
    | .empty => .ok (0 : UInt32)
    | .owned bytes =>
      if 2 ^ 32 ≤ bytes.length then
        .error ⟨.invalidCpio, some s!"entry body exceeds u32: {bytes.length} bytes"⟩
      else .ok (UInt32.ofNat bytes.length)
  let w := w ++ encodeHeader record fileSize (record.name.length + 1)
  let w := match record.body with
    | .empty => w
    | .owned bytes => w ++ bytes
  return w ++ (padBytes fileSize.toNat).getD []

/-- The loop of `copy_exactly`.  Each turn takes at least a byte, so a fuel of
`remaining` never runs out. -/
def copyLoop : Nat → Nat → TempWriter → Source String → Except Report (TempWriter × Source String)
  | 0, _, w, reader => .ok (w, reader)
  | fuel + 1, remaining, w, reader =>
    if remaining = 0 then .ok (w, reader)
    else
      match reader.read (min (64 * 1024) remaining) with
      | (.error err, _) => .error ⟨.readSource, some err⟩
      | (.ok bytes, reader) =>
        if bytes.length = 0 then
          .error ⟨.invalidTar,
            some s!"regular file body ended early: {remaining} bytes remaining"⟩
        else copyLoop fuel (remaining - bytes.length) (w ++ bytes) reader

def copyExactly (reader : Source String) (w : TempWriter) (size : UInt32) :
    Except Report (TempWriter × Source String) :=
  copyLoop size.toNat size.toNat w reader

def writeStreamingEntry (w : TempWriter) (record : Record) (size : UInt32)
    (reader : Source String) : Except Report (TempWriter × Source String) := do
  let w := w ++ encodeHeader record size (record.name.length + 1)
  let (w, reader) ← copyExactly reader w size
  return (w ++ (padBytes size.toNat).getD [], reader)

def trailer : Record where
  name := trailerName
  mode := 0
  uid := 0
  gid := 0
  mtime := 0
  nlink := 1
  devMajor := 0
  devMinor := 0
  ino := 0
  rdevMajor := 0
  rdevMinor := 0
  body := .empty

def writeTrailer (w : TempWriter) : Except Report TempWriter := writeEntry w trailer

/-- One call of the writer: a record with its body in memory, or a record whose
body of `size` bytes is streamed from `reader`. -/
inductive Item
  | entry (record : Record)
  | streaming (record : Record) (size : UInt32) (reader : Source String)

def writeItem (w : TempWriter) : Item → Except Report TempWriter
  | .entry record => writeEntry w record
  | .streaming record size reader => Prod.fst <$> writeStreamingEntry w record size reader

def writeItems (w : TempWriter) (items : List Item) : Except Report TempWriter :=
  items.foldlM writeItem w

def writeArchive (items : List Item) : Except Report TempWriter := do
  let w ← writeItems [] items
  writeTrailer w

/-! ## A reader of the format -/

/-- An entry of an archive with its body. -/
structure Entry where
  name : Bytes
  mode : UInt32
  uid : UInt32
  gid : UInt32
  mtime : UInt32
  nlink : UInt32
  devMajor : UInt32
  devMinor : UInt32
  ino : UInt32
  rdevMajor : UInt32
  rdevMinor : UInt32
  check : UInt32
  body : Bytes
deriving DecidableEq

def readField : Reader Unit UInt32 := do
  let digits ← takeN () 8
  let value ← orThrow () (ofHex? digits)
  pure (UInt32.ofNat value)

def readName (size : Nat) : Reader Unit Bytes := do
  let raw ← takeN () size
  orThrow () (if raw.getLast? = some 0 ∧ 0 ∉ raw.dropLast then some raw.dropLast else none)

/-- The bytes up to the next multiple of four. -/
def skipPad (len : Nat) : Reader Unit Unit := do
  let _ ← takeN () ((4 - len % 4) % 4)
  pure ()

def readEntry : Reader Unit Entry := do
  let magic ← takeN () 6
  if magic ≠ magicNewc then throw ()
  else do
    let ino ← readField
    let mode ← readField
    let uid ← readField
    let gid ← readField
    let nlink ← readField
    let mtime ← readField
    let fileSize ← readField
    let devMajor ← readField
    let devMinor ← readField
    let rdevMajor ← readField
    let rdevMinor ← readField
    let nameSize ← readField
    let check ← readField
    let name ← readName nameSize.toNat
    skipPad (110 + nameSize.toNat)
    let body ← takeN () fileSize.toNat
    skipPad fileSize.toNat
    pure { name, mode, uid, gid, mtime, nlink, devMajor, devMinor, ino, rdevMajor, rdevMinor,
           check, body }

def readEntries : Nat → Reader Unit (List Entry × Entry)
  | 0 => throw ()
  | fuel + 1 => do
    let entry ← readEntry
    if entry.name = trailerName then pure ([], entry)
    else do
      let (entries, last) ← readEntries fuel
      pure (entry :: entries, last)

/-- A whole archive.  An entry takes bytes, so their number is fuel enough. -/
def readArchive (bytes : Bytes) : Except Unit (List Entry × Entry) :=
  runAll () (readEntries bytes.length) bytes

/-! ## What one call writes -/

def pad (len : Nat) : Bytes := List.replicate ((4 - len % 4) % 4) 0

theorem getD_padBytes (len : Nat) : (padBytes len).getD [] = pad len := by
  unfold padBytes pad
  by_cases h : len % 4 = 0
  · simp [h]
  · have hmod : (4 - len % 4) % 4 = 4 - len % 4 := by omega
    simp [h, hmod]

theorem four_dvd_add_pad (len : Nat) : 4 ∣ len + (pad len).length := by
  rw [pad, length_replicate]
  omega

def Body.bytes : Body → Bytes
  | .empty => []
  | .owned bytes => bytes

namespace Item

def record : Item → Record
  | .entry record => record
  | .streaming record _ _ => record

def body : Item → Bytes
  | .entry record => record.body.bytes
  | .streaming _ size reader => reader.bytes.take size.toNat

def bytes (item : Item) : Bytes :=
  encodeHeader item.record (UInt32.ofNat item.body.length) (item.record.name.length + 1)
    ++ item.body ++ pad item.body.length

def entryOf (item : Item) : Entry where
  name := item.record.name
  mode := item.record.mode
  uid := item.record.uid
  gid := item.record.gid
  mtime := item.record.mtime
  nlink := item.record.nlink
  devMajor := item.record.devMajor
  devMinor := item.record.devMinor
  ino := item.record.ino
  rdevMajor := item.record.rdevMajor
  rdevMinor := item.record.rdevMinor
  check := 0
  body := item.body

/-- A body in memory is shorter than `2 ^ 32`; a streamed one is delivered in full. -/
def BodyOk : Item → Prop
  | .entry record => record.body.bytes.length < 2 ^ 32
  | .streaming _ size reader =>
    reader.Clean (fun _ => false) ∧ size.toNat ≤ reader.bytes.length

/-- The header fits its fields and the body arrives. -/
structure Writable (item : Item) : Prop where
  nulFree : 0 ∉ item.record.name
  nameFits : item.record.name.length + 1 < 2 ^ 32
  bodyOk : item.BodyOk

theorem BodyOk.length_lt {item : Item} (h : item.BodyOk) : item.body.length < 2 ^ 32 := by
  cases item with
  | entry record => exact h
  | streaming record size reader =>
    have hsize := size.toNat_lt
    have hle : (reader.bytes.take size.toNat).length ≤ size.toNat := length_take_le _ _
    show (reader.bytes.take size.toNat).length < 2 ^ 32
    omega

end Item

theorem copyLoop_eq (fuel remaining : Nat) (w : TempWriter) (reader : Source String)
    (hfuel : remaining ≤ fuel) (hclean : reader.Clean (fun _ => false))
    (hlen : remaining ≤ reader.bytes.length) : ∃ reader', copyLoop fuel remaining w reader =
      .ok (w ++ reader.bytes.take remaining, reader') := by
  induction fuel generalizing remaining w reader with
  | zero =>
    obtain rfl : remaining = 0 := by omega
    exact ⟨reader, by simp [copyLoop]⟩
  | succ fuel ih =>
    by_cases h0 : remaining = 0
    · subst h0
      exact ⟨reader, by simp [copyLoop]⟩
    obtain ⟨bs, reader', hread, hbytes, hle, hnil, hclean'⟩ :=
      Source.read_of_clean (min (64 * 1024) remaining) (by omega) reader hclean
    have hpos : ¬ bs.length = 0 := by
      intro hbs
      have := hnil (length_eq_zero_iff.1 hbs)
      rw [this, length_nil] at hlen
      omega
    have hlen' : remaining - bs.length ≤ reader'.bytes.length := by
      rw [hbytes, length_append] at hlen
      omega
    obtain ⟨reader'', hloop⟩ := ih (remaining - bs.length) (w ++ bs) reader' (by omega) hclean' hlen'
    refine ⟨reader'', ?_⟩
    rw [copyLoop, if_neg h0, hread]
    simp only [if_neg hpos]
    rw [hloop, hbytes, take_append, take_of_length_le (show bs.length ≤ remaining by omega),
      append_assoc]

open UInt32

theorem writeEntry_eq (w : TempWriter) (record : Record) (h : record.body.bytes.length < 2 ^ 32) :
    writeEntry w record = .ok (w ++ (Item.entry record).bytes) := by
  unfold writeEntry
  cases hb : record.body with
  | empty =>
    show Except.ok _ = _
    simp [Item.bytes, Item.record, Item.body, hb, Body.bytes, padBytes, pad]
  | owned bytes =>
    rw [hb] at h
    have h32 : ¬ 2 ^ 32 ≤ bytes.length := Nat.not_le.2 h
    have hsize : (ofNat bytes.length).toNat = bytes.length := by
      rw [toNat_ofNat']
      omega
    simp only [if_neg h32]
    show Except.ok _ = _
    simp [Item.bytes, Item.record, Item.body, hb, Body.bytes, hsize, getD_padBytes]

theorem writeItem_eq (w : TempWriter) (item : Item) (h : item.BodyOk) :
    writeItem w item = .ok (w ++ item.bytes) := by
  cases item with
  | entry record => exact writeEntry_eq w record h
  | streaming record size reader =>
    obtain ⟨hclean, hlen⟩ := h
    obtain ⟨reader', hcopy⟩ := copyLoop_eq size.toNat size.toNat
      (w ++ encodeHeader record size (record.name.length + 1)) reader (Nat.le_refl _) hclean hlen
    have hbody : (reader.bytes.take size.toNat).length = size.toNat := length_take_of_le hlen
    simp only [writeItem, writeStreamingEntry, copyExactly, hcopy]
    show Except.ok _ = _
    simp [Item.bytes, Item.record, Item.body, hbody, getD_padBytes]

open Item

theorem writeItems_eq (w : TempWriter) (items : List Item) (h : ∀ item ∈ items, item.BodyOk) :
    writeItems w items = .ok (w ++ items.flatMap bytes) := by
  unfold writeItems
  induction items generalizing w with
  | nil => simp only [foldlM_nil, flatMap_nil, append_nil]; rfl
  | cons item items ih =>
    rw [foldlM_cons, writeItem_eq w item (h item mem_cons_self)]
    show items.foldlM writeItem _ = _
    rw [ih _ fun item hmem => h item (mem_cons_of_mem _ hmem)]
    simp

theorem four_dvd_bytes (item : Item) : 4 ∣ item.bytes.length := by
  have hbody := four_dvd_add_pad item.body.length
  have hname := four_dvd_add_pad (headerLen + (item.record.name.length + 1))
  have hheader : (encodeHeader item.record (ofNat item.body.length)
      (item.record.name.length + 1)).length =
      headerLen + (item.record.name.length + 1) +
        (pad (headerLen + (item.record.name.length + 1))).length := by
    have hmagic : magicNewc.length = 6 := by decide
    simp only [encodeHeader, getD_padBytes, length_append, hex8, length_toHex, hmagic,
      length_cons, length_nil, headerLen]
    omega
  rw [bytes, length_append, length_append, hheader]
  omega

theorem four_dvd_flatMap_bytes (items : List Item) : 4 ∣ (items.flatMap bytes).length := by
  induction items with
  | nil => simp
  | cons item items ih =>
    have := four_dvd_bytes item
    rw [flatMap_cons, length_append]
    omega

/-! ## Reading it back -/

theorem reads_field (value : UInt32) : Reads readField value (hex8 value) := by
  have hhex : ofHex? (hex8 value) = some value.toNat := ofHex?_toHex 8 _ value.toNat_lt
  have hvalue : Reads (pure (ofNat value.toNat) : Reader Unit UInt32) value [] := by
    rw [UInt32.ofNat_toNat]
    exact pure value
  exact (takeN () (length_toHex _ _)).bind ((orThrow () hhex).bind hvalue rfl) (append_nil _).symm

theorem reads_name (name : Bytes) (h : 0 ∉ name) :
    Reads (readName (name.length + 1)) name (name ++ [0]) := by
  have hname : (if (name ++ [0]).getLast? = some 0 ∧ 0 ∉ (name ++ [0]).dropLast
      then some (name ++ [0]).dropLast else none) = some name := by
    simp [h]
  exact (Reads.takeN () (by simp)).bind (Reads.orThrow () hname) (append_nil _).symm

theorem reads_skipPad (len : Nat) : Reads (skipPad len) () (pad len) :=
  (takeN () length_replicate).bind (pure ()) (append_nil _).symm

theorem reads_entry (item : Item) (h : item.Writable) :
    Reads readEntry item.entryOf item.bytes := by
  have hnameLen : (ofNat (item.record.name.length + 1)).toNat =
      item.record.name.length + 1 := by
    rw [toNat_ofNat', Nat.mod_eq_of_lt h.nameFits]
  have hsize : (ofNat item.body.length).toNat = item.body.length := by
    rw [toNat_ofNat', Nat.mod_eq_of_lt h.bodyOk.length_lt]
  have hname : Reads (readName (ofNat (item.record.name.length + 1)).toNat)
      item.record.name (item.record.name ++ [0]) := by
    rw [hnameLen]
    exact reads_name _ h.nulFree
  refine (takeN () (show magicNewc.length = 6 by decide)).bind (skip () (not_not.2 rfl)
    ((reads_field item.record.ino).bind ((reads_field item.record.mode).bind
    ((reads_field item.record.uid).bind ((reads_field item.record.gid).bind
    ((reads_field item.record.nlink).bind ((reads_field item.record.mtime).bind
    ((reads_field (ofNat item.body.length)).bind ((reads_field item.record.devMajor).bind
    ((reads_field item.record.devMinor).bind ((reads_field item.record.rdevMajor).bind
    ((reads_field item.record.rdevMinor).bind
    ((reads_field (ofNat (item.record.name.length + 1))).bind ((reads_field 0).bind
    (hname.bind ((reads_skipPad _).bind ((takeN () hsize.symm).bind
    ((reads_skipPad _).bind (pure _) rfl) rfl) rfl) rfl) rfl) rfl) rfl) rfl) rfl) rfl) rfl)
    rfl) rfl) rfl) rfl) rfl) rfl)) ?_
  simp only [bytes, encodeHeader, getD_padBytes, hnameLen, hsize, headerLen, append_assoc,
    append_nil]

theorem reads_entries (items : List Item) (hall : ∀ item ∈ items, item.Writable)
    (hnames : ∀ item ∈ items, item.record.name ≠ trailerName) (fuel : Nat)
    (hfuel : items.length < fuel) :
    Reads (readEntries fuel) (items.map entryOf, (entry trailer).entryOf)
      (items.flatMap bytes ++ (entry trailer).bytes) := by
  induction items generalizing fuel with
  | nil =>
    obtain ⟨fuel, rfl⟩ : ∃ k, fuel = k + 1 := ⟨fuel - 1, by simp at hfuel; omega⟩
    have htrailer : (entry trailer).Writable :=
      ⟨by decide, by decide, show 0 < 2 ^ 32 by decide⟩
    refine (reads_entry _ htrailer).bind ?_ (append_nil _).symm
    rw [if_pos (show (entry trailer).entryOf.name = trailerName from rfl)]
    exact pure _
  | cons item items ih =>
    obtain ⟨fuel, rfl⟩ : ∃ k, fuel = k + 1 := ⟨fuel - 1, by simp at hfuel; omega⟩
    have hrest := ih (fun item hmem => hall item (mem_cons_of_mem _ hmem))
      (fun item hmem => hnames item (mem_cons_of_mem _ hmem)) fuel (by simpa using hfuel)
    have hname : ¬ item.entryOf.name = trailerName := hnames item mem_cons_self
    refine (reads_entry item (hall item mem_cons_self)).bind ?_ (by rw [flatMap_cons, append_assoc])
    rw [if_neg hname]
    exact hrest.bind (pure _) (append_nil _).symm

theorem bytes_length_pos (item : Item) : 0 < item.bytes.length := by
  simp [bytes, encodeHeader]

theorem length_le_length_bytes (items : List Item) :
    items.length ≤ (items.flatMap bytes).length := by
  induction items with
  | nil => simp
  | cons item items ih =>
    have := bytes_length_pos item
    rw [flatMap_cons, length_append, length_cons]
    omega

/-- **The `newc` round trip.**  What the writer emits for any mix of calls and
the trailer is read back as those records and the trailer, and every call, the
trailer's too, starts at a multiple of four. -/
theorem readArchive_writeArchive (items : List Item) (hall : ∀ item ∈ items, item.Writable)
    (hnames : ∀ item ∈ items, item.record.name ≠ trailerName) :
    ∃ bytes, writeArchive items = .ok bytes ∧
      readArchive bytes = .ok (items.map entryOf, (entry trailer).entryOf) ∧
      ∀ before after, items = before ++ after →
        ∃ w, writeItems [] before = .ok w ∧ w <+: bytes ∧ 4 ∣ w.length := by
  have hbody : ∀ item ∈ items, item.BodyOk := fun item hmem => (hall item hmem).bodyOk
  refine ⟨items.flatMap bytes ++ (entry trailer).bytes, ?_, ?_, ?_⟩
  · rw [writeArchive, writeItems_eq [] items hbody]
    exact writeEntry_eq _ trailer (show 0 < 2 ^ 32 by decide)
  · have hfuel : items.length <
        (items.flatMap bytes ++ (entry trailer).bytes).length := by
      have h1 := length_le_length_bytes items
      have h2 := bytes_length_pos (entry trailer)
      rw [length_append]
      omega
    have hreads := reads_entries items hall hnames _ hfuel []
    rw [append_nil] at hreads
    rw [readArchive, runAll, hreads]
    rfl
  · rintro before after rfl
    refine ⟨before.flatMap bytes, ?_, ?_, four_dvd_flatMap_bytes before⟩
    · rw [writeItems_eq [] before fun item hmem => hbody item (mem_append_left _ hmem)]
      rfl
    · rw [flatMap_append, append_assoc]
      exact prefix_append _ _

/-- A symlink with its target in memory and a file of three bytes streamed in two reads. -/
def mixedItems : List Item :=
  [.entry { trailer with name := utf8 "l", mode := 0o120777, body := .owned (utf8 "f") },
    .streaming { trailer with name := utf8 "f", mode := 0o100644 } 3 [.data 1 [2], .data 3 [4]]]

theorem readArchive_mixedItems : ∃ bytes, writeArchive mixedItems = .ok bytes ∧
      readArchive bytes = .ok (mixedItems.map entryOf, (entry trailer).entryOf) := by
  have hall : ∀ item ∈ mixedItems, item.Writable := by
    intro item hmem
    simp only [mixedItems, mem_cons, not_mem_nil, or_false] at hmem
    rcases hmem with rfl | rfl
    · exact ⟨by decide, by decide, show 1 < 2 ^ 32 by decide⟩
    · exact ⟨by decide, by decide, by simp [Source.Clean], show 3 ≤ 4 by decide⟩
  obtain ⟨bytes, hwrite, hread, -⟩ := readArchive_writeArchive mixedItems hall (by decide)
  exact ⟨bytes, hwrite, hread⟩

end Jyth.Image
