import Jyth.Image.Overlay
import Jyth.Lib.Allot
import Jyth.Lib.Table

/-!
# Flattening layers

`ops/flatten.rs` from the entries of the source layers to the bytes of the
archive: a layer is decoded and its regular bodies appended to the spool, the
decoded entries are overlaid, hard-link groups are planned over what is left,
and the records are written in path order.

    runBlocking layers = do
      let (state, spool) ← buildState layers
      emit state spool
-/

namespace Jyth.Image

open Format Allot

/-! ## Entries -/

def sIfmt : UInt32 := 0o170000
def sIfreg : UInt32 := 0o100000
def sIfdir : UInt32 := 0o040000
def sIflnk : UInt32 := 0o120000

structure SpoolRange where
  offset : Nat
  size : UInt32
deriving DecidableEq

inductive EntryBody
  | empty
  | symlink (target : Bytes)
  | spool (range : Option SpoolRange)
deriving DecidableEq

/-- What is kept of an entry; its body is in the spool. -/
structure Metadata where
  mode : UInt32
  uid : UInt32
  gid : UInt32
  mtime : UInt32
  devMajor : UInt32
  ino : UInt32
  rdevMajor : UInt32
  rdevMinor : UInt32
  nlinkSource : UInt32
  sourceLayer : Nat
  body : EntryBody
deriving DecidableEq

namespace Metadata

def isDirectory (metadata : Metadata) : Bool := metadata.mode &&& sIfmt = sIfdir

def isRegular (metadata : Metadata) : Bool := metadata.mode &&& sIfmt = sIfreg

def symlinkTarget (metadata : Metadata) : Option Bytes :=
  match metadata.body with
  | .symlink target => some target
  | _ => none

instance : Node Metadata := ⟨isDirectory, symlinkTarget⟩

end Metadata

/-- `(source_layer, dev_major, ino)`. -/
abbrev LinkKey := Nat × UInt32 × UInt32

def Metadata.linkKey (metadata : Metadata) : LinkKey :=
  (metadata.sourceLayer, metadata.devMajor, metadata.ino)

/-! ## The spool -/

/-- The append-only spool file; its cursor is its length. -/
abbrev Spool := Bytes

def Spool.appendBody (spool : Spool) (body : Bytes) : SpoolRange × Spool :=
  (⟨spool.length, UInt32.ofNat body.length⟩, spool ++ body)

def Spool.slice (spool : Spool) (range : SpoolRange) : Bytes :=
  (spool.drop range.offset).take range.size.toNat

/-! ## Decoding a layer -/

/-- A layer as the `newc` reader delivers it, up to the trailer.  The size of a
body is a `u32` of its header. -/
structure Layer where
  entries : List Entry
  sizes : ∀ entry ∈ entries, entry.body.length < 2 ^ 32

def maxInMemoryEntryBytes : UInt32 := 64 * 1024 * 1024

def Metadata.ofEntry (entry : Entry) (sourceLayer : Nat) (body : EntryBody) : Metadata where
  mode := entry.mode
  uid := entry.uid
  gid := entry.gid
  mtime := entry.mtime
  devMajor := entry.devMajor
  ino := entry.ino
  rdevMajor := entry.rdevMajor
  rdevMinor := entry.rdevMinor
  nlinkSource := entry.nlink
  sourceLayer := sourceLayer
  body := body

def decodeEntryMetadata (entry : Entry) (spool : Spool) (sourceLayer : Nat) :
    Except Report (Metadata × Spool) :=
  let fileType := entry.mode &&& sIfmt
  let size := UInt32.ofNat entry.body.length
  if fileType = sIfreg then
    let (range, spool) := spool.appendBody entry.body
    .ok (.ofEntry entry sourceLayer (.spool (some range)), spool)
  else if fileType = sIflnk then
    if maxInMemoryEntryBytes < size then
      .error ⟨.invalidCpio, some (s!"symlink body of {size} bytes exceeds the in-memory bound of "
        ++ s!"{maxInMemoryEntryBytes} bytes")⟩
    else .ok (.ofEntry entry sourceLayer (.symlink entry.body), spool)
  else .ok (.ofEntry entry sourceLayer .empty, spool)

def whiteoutMark : Bytes := utf8 ".wh."

/-- The rest of a marker's name, behind `.wh.`. -/
def whiteoutRest (basename : Bytes) : Option Bytes :=
  if whiteoutMark <+: basename then some (basename.drop whiteoutMark.length) else none

/-- The directive of a whiteout marker, a path with a base name in `.wh.`. -/
def whiteoutOf (normalized : Bytes) : Option Whiteout :=
  (whiteoutRest (baseName normalized)).map fun rest =>
    if rest = utf8 ".wh..opq" then .opaqueDir (parentDirOf normalized)
    else .named (parentDirOf normalized) rest

def decodeEntry (sourceLayer : Nat) (entry : Entry) (spool : Spool) :
    Except Report (LayerEntry Metadata × Spool) := do
  let normalized ← normalizePath entry.name
  match whiteoutOf normalized with
  | some wh => return (.whiteout wh, spool)
  | none =>
    let (metadata, spool) ← decodeEntryMetadata entry spool sourceLayer
    return (.regular normalized metadata, spool)

def readLayer (sourceLayer : Nat) :
    List Entry → Spool → Except Report (List (LayerEntry Metadata) × Spool)
  | [], spool => return ([], spool)
  | entry :: entries, spool => do
    let (decoded, spool) ← decodeEntry sourceLayer entry spool
    let (rest, spool) ← readLayer sourceLayer entries spool
    return (decoded :: rest, spool)

/-! ## State assembly -/

def buildStateFrom (layerIndex : Nat) :
    List Layer → PathMap Metadata → Spool → Except Report (PathMap Metadata × Spool)
  | [], entries, spool => return (entries, spool)
  | layer :: layers, entries, spool => do
    let (layerEntries, spool) ← readLayer layerIndex layer.entries spool
    buildStateFrom (layerIndex + 1) layers (applyLayer entries layerEntries) spool

def buildState (layers : List Layer) : Except Report (PathMap Metadata × Spool) :=
  buildStateFrom 0 layers ∅ []

def decodeLayers (layerIndex : Nat) :
    List Layer → Spool → Except Report (List (List (LayerEntry Metadata)) × Spool)
  | [], spool => return ([], spool)
  | layer :: layers, spool => do
    let (decoded, spool) ← readLayer layerIndex layer.entries spool
    let (rest, spool) ← decodeLayers (layerIndex + 1) layers spool
    return (decoded :: rest, spool)

/-! ## What decoding delivers -/

variable {spool spool' : Spool} {sourceLayer : Nat} {entry : Entry} {layers : List Layer}
  {decoded : LayerEntry Metadata} {layerIndex : Nat}

theorem decodeEntryMetadata_eq_ok {metadata : Metadata}
    (h : decodeEntryMetadata entry spool sourceLayer = .ok (metadata, spool')) :
    ∃ body, metadata = .ofEntry entry sourceLayer body ∧
      (entry.mode &&& sIfmt = sIfreg ∧ spool' = spool ++ entry.body ∧
          body = .spool (some ⟨spool.length, UInt32.ofNat entry.body.length⟩) ∨
        entry.mode &&& sIfmt = sIflnk ∧ spool' = spool ∧ body = .symlink entry.body ∨
        entry.mode &&& sIfmt ≠ sIfreg ∧ entry.mode &&& sIfmt ≠ sIflnk ∧ spool' = spool ∧
          body = .empty) := by
  unfold decodeEntryMetadata at h
  by_cases hreg : entry.mode &&& sIfmt = sIfreg
  · rw [if_pos hreg] at h
    cases h
    exact ⟨_, rfl, .inl ⟨hreg, rfl, rfl⟩⟩
  by_cases hlnk : entry.mode &&& sIfmt = sIflnk
  · rw [if_neg hreg, if_pos hlnk] at h
    by_cases hsize : maxInMemoryEntryBytes < UInt32.ofNat entry.body.length
    · rw [if_pos hsize] at h
      cases h
    · rw [if_neg hsize] at h
      cases h
      exact ⟨_, rfl, .inr (.inl ⟨hlnk, rfl, rfl⟩)⟩
  · rw [if_neg hreg, if_neg hlnk] at h
    cases h
    exact ⟨_, rfl, .inr (.inr ⟨hreg, hlnk, rfl, rfl⟩)⟩

theorem decodeEntry_eq_ok : decodeEntry sourceLayer entry spool = .ok (decoded, spool') ↔
      ∃ path, normalizePath entry.name = .ok path ∧
        ((∃ wh, whiteoutOf path = some wh ∧ decoded = .whiteout wh ∧ spool' = spool) ∨
          whiteoutOf path = none ∧ ∃ metadata, decoded = .regular path metadata ∧
            decodeEntryMetadata entry spool sourceLayer = .ok (metadata, spool')) := by
  rw [decodeEntry, bind_eq_ok]
  refine exists_congr fun path => and_congr_right fun _ => ?_
  cases whiteoutOf path with
  | some wh =>
    simp only [pure_eq_ok, Prod.mk.injEq, Option.some.injEq, reduceCtorEq, false_and, or_false,
      existsAndEq, true_and, @eq_comm _ decoded, @eq_comm _ spool']
  | none =>
    simp only [bind_eq_ok, pure_eq_ok, Prod.exists, Prod.mk.injEq, reduceCtorEq, false_and,
      exists_false, false_or, true_and, existsAndEq, and_true, @eq_comm _ decoded]
    exact exists_congr fun metadata => and_comm

variable {state : PathMap Metadata} {final : Spool} {entries : List Entry}

theorem readLayer_cons_eq_ok {decoded : List (LayerEntry Metadata)} :
    readLayer sourceLayer (entry :: entries) spool = .ok (decoded, spool') ↔
      ∃ first spool₁, decodeEntry sourceLayer entry spool = .ok (first, spool₁) ∧
        ∃ rest, readLayer sourceLayer entries spool₁ = .ok (rest, spool') ∧ first :: rest = decoded := by
  simp only [readLayer, bind_eq_ok, pure_eq_ok, Prod.exists, Prod.mk.injEq, existsAndEq, and_true]

theorem decodeLayers_cons_eq_ok {layer : Layer} {decoded : List (List (LayerEntry Metadata))} :
    decodeLayers layerIndex (layer :: layers) spool = .ok (decoded, spool') ↔
      ∃ first spool₁, readLayer layerIndex layer.entries spool = .ok (first, spool₁) ∧ ∃ rest,
        decodeLayers (layerIndex + 1) layers spool₁ = .ok (rest, spool') ∧ first :: rest = decoded := by
  simp only [decodeLayers, bind_eq_ok, pure_eq_ok, Prod.exists, Prod.mk.injEq, existsAndEq, and_true]

theorem decodeEntry_spool
    (h : decodeEntry sourceLayer entry spool = .ok (decoded, spool')) : spool <+: spool' := by
  obtain ⟨path, -, ⟨wh, -, -, rfl⟩ | ⟨-, metadata, -, hmeta⟩⟩ := decodeEntry_eq_ok.1 h
  · exact List.prefix_rfl
  obtain ⟨body, -, ⟨-, rfl, -⟩ | ⟨-, rfl, -⟩ | ⟨-, -, rfl, -⟩⟩ := decodeEntryMetadata_eq_ok hmeta
  · exact List.prefix_append _ _
  · exact List.prefix_rfl
  · exact List.prefix_rfl

/-- The entry is decoded so, with its body in the spool. -/
def Decodes (sourceLayer : Nat) (final : Spool) (entry : Entry) (decoded : LayerEntry Metadata) :
    Prop :=
  ∃ spool spool', decodeEntry sourceLayer entry spool = .ok (decoded, spool') ∧ spool' <+: final

theorem Decodes.mono (h : Decodes sourceLayer spool entry decoded)
    (hfinal : spool <+: final) : Decodes sourceLayer final entry decoded := by
  obtain ⟨spool₀, spool₁, hdec, hle⟩ := h
  exact ⟨spool₀, spool₁, hdec, hle.trans hfinal⟩

theorem readLayer_decodes {decoded : List (LayerEntry Metadata)}
    (h : readLayer sourceLayer entries spool = .ok (decoded, spool')) :
    spool <+: spool' ∧ List.Forall₂ (Decodes sourceLayer spool') entries decoded := by
  induction entries generalizing spool decoded with
  | nil =>
    obtain ⟨rfl, rfl⟩ : [] = decoded ∧ spool = spool' := by simpa using pure_eq_ok.1 h
    exact ⟨List.prefix_rfl, .nil⟩
  | cons entry entries ih =>
    obtain ⟨first, spool₁, hfirst, rest, hrest, rfl⟩ := readLayer_cons_eq_ok.1 h
    obtain ⟨hle, hall⟩ := ih hrest
    exact ⟨(decodeEntry_spool hfirst).trans hle, .cons ⟨spool, spool₁, hfirst, hle⟩ hall⟩

theorem decodeLayers_decodes {decoded : List (List (LayerEntry Metadata))}
    (h : decodeLayers layerIndex layers spool = .ok (decoded, spool')) :
    spool <+: spool' ∧ ∀ i, Option.Rel (fun (layer : Layer) =>
      List.Forall₂ (Decodes (layerIndex + i) spool') layer.entries) layers[i]? decoded[i]? := by
  induction layers generalizing layerIndex spool decoded with
  | nil =>
    obtain ⟨rfl, rfl⟩ : [] = decoded ∧ spool = spool' := by simpa using pure_eq_ok.1 h
    exact ⟨List.prefix_rfl, fun i => .none⟩
  | cons layer layers ih =>
    obtain ⟨first, spool₁, hfirst, rest, hrest, rfl⟩ := decodeLayers_cons_eq_ok.1 h
    obtain ⟨hle₁, hlayer⟩ := readLayer_decodes hfirst
    obtain ⟨hle₂, hall⟩ := ih hrest
    refine ⟨hle₁.trans hle₂, fun i => ?_⟩
    cases i with
    | zero => exact .some (hlayer.imp fun _ _ hd => hd.mono hle₂)
    | succ i =>
      have := hall i
      rw [Nat.add_assoc, Nat.add_comm 1 i] at this
      exact this

theorem exists_decodes {decoded : List (List (LayerEntry Metadata))}
    (h : decodeLayers 0 layers [] = .ok (decoded, final))
    {ds : List (LayerEntry Metadata)} (hds : ds ∈ decoded) {d : LayerEntry Metadata} (hd : d ∈ ds) :
    ∃ i layer entry, layers[i]? = some layer ∧ entry ∈ layer.entries ∧ Decodes i final entry d := by
  obtain ⟨i, hi⟩ := List.mem_iff_getElem?.1 hds
  have hrel := (decodeLayers_decodes h).2 i
  rw [hi, Nat.zero_add] at hrel
  cases hlayer : layers[i]? with
  | none =>
    rw [hlayer] at hrel
    cases hrel
  | some layer =>
    rw [hlayer, Option.rel_some_some] at hrel
    obtain ⟨entry, hentry, hdec⟩ := exists_left_of_forall₂ hrel hd
    exact ⟨i, layer, entry, hlayer, hentry, hdec⟩

theorem buildStateFrom_eq_ok {entries : PathMap Metadata} :
    buildStateFrom layerIndex layers entries spool = .ok (state, spool') ↔
      ∃ decoded, decodeLayers layerIndex layers spool = .ok (decoded, spool') ∧
        state = decoded.foldl applyLayer entries := by
  induction layers generalizing layerIndex entries spool with
  | nil =>
    simp only [buildStateFrom, decodeLayers, pure_eq_ok, Prod.mk.injEq, existsAndEq, and_assoc,
      true_and, @eq_comm _ state]
    exact and_comm
  | cons layer layers ih =>
    simp only [buildStateFrom, bind_eq_ok, decodeLayers_cons_eq_ok, ih, Prod.exists]
    constructor
    · rintro ⟨first, spool₁, hread, rest, hrest, rfl⟩
      exact ⟨first :: rest, ⟨first, spool₁, hread, rest, hrest, rfl⟩, rfl⟩
    · rintro ⟨_, ⟨first, spool₁, hread, rest, hrest, rfl⟩, rfl⟩
      exact ⟨first, spool₁, hread, rest, hrest, rfl⟩

theorem buildState_eq_ok : buildState layers = .ok (state, spool) ↔
      ∃ decoded, decodeLayers 0 layers [] = .ok (decoded, spool) ∧ state = overlay decoded :=
  buildStateFrom_eq_ok

/-! ## Hard-link planning -/

abbrev Assignment := UInt32 × UInt32

/-- Identities, link counts and carriers of the groups. -/
structure HardlinkPlan where
  identity : Table Bytes Assignment
  nlink : Table Assignment UInt32
  canonical : Table Assignment Bytes

namespace HardlinkPlan

/-- The identity of a planned path and whether the path carries the body. -/
def assignmentFor (plan : HardlinkPlan) (path : Bytes) : Assignment × Bool :=
  let assignment := (plan.identity path).getD (0, 0)
  (assignment, (plan.canonical assignment).getD path = path)

def nlinkFor (plan : HardlinkPlan) (path : Bytes) : UInt32 :=
  (plan.nlink ((plan.identity path).getD (0, 0))).getD 1

end HardlinkPlan

/-- The order of `BTreeMap<(usize, u32, u32), _>`. -/
def linkOrder : LinkKey → LinkKey → Ordering :=
  compareOn fun key => [key.1, key.2.1.toNat, key.2.2.toNat]

instance : Std.TransCmp linkOrder := inferInstanceAs (Std.TransCmp (compareOn _))

instance : Std.LawfulEqCmp linkOrder where
  compare_self := by
    intro key
    exact Std.ReflCmp.compare_self
  eq_of_compare := by
    intro a b h
    have hcompare : compare [a.1, a.2.1.toNat, a.2.2.toNat] [b.1, b.2.1.toNat, b.2.2.toNat] = .eq := h
    have hlist := Std.LawfulEqCmp.eq_of_compare hcompare
    simp only [List.cons.injEq, UInt32.toNat_inj, and_true] at hlist
    exact Prod.ext hlist.1 (Prod.ext hlist.2.1 hlist.2.2)

abbrev Groups := Std.ExtTreeMap LinkKey (List Bytes) linkOrder

/-- Regular files declared with more than one link form groups. -/
def Metadata.isGrouped (metadata : Metadata) : Bool :=
  metadata.isRegular && !(metadata.nlinkSource ≤ 1)

def collectGroups (state : PathMap Metadata) : Groups :=
  state.toList.foldl (fun groups (path, metadata) =>
    if metadata.isGrouped then
      groups.insert metadata.linkKey ((groups[metadata.linkKey]?).getD [] ++ [path])
    else groups) ∅

def bodySizeOf (metadata : Metadata) : UInt32 :=
  match metadata.body with
  | .empty => 0
  | .symlink bytes => UInt32.ofNat bytes.length
  | .spool (some range) => range.size
  | .spool none => 0

def canonicalMember (state : PathMap Metadata) : List Bytes → Option Bytes
  | [] => none
  | first :: rest => some <| rest.foldl (fun best current =>
      if ((state[best]?).map bodySizeOf).getD 0 < ((state[current]?).map bodySizeOf).getD 0
      then current else best) first

/-- The plan so far and the next identity to give. -/
structure Planner where
  plan : HardlinkPlan
  nextDev : UInt32
  nextIno : UInt32

def Planner.allot (planner : Planner) (members : List Bytes) (nlink : UInt32)
    (canonical : Option Bytes) : Planner :=
  let assignment := (planner.nextDev, planner.nextIno)
  { plan :=
      { identity := members.foldl (fun identity member => identity.insert member assignment)
          planner.plan.identity
        nlink := planner.plan.nlink.insert assignment nlink
        canonical := match canonical with
          | some path => planner.plan.canonical.insert assignment path
          | none => planner.plan.canonical }
    nextDev := saturatingSucc planner.nextDev
    nextIno := saturatingSucc planner.nextIno }

def planGroup (state : PathMap Metadata) (planner : Planner) (members : List Bytes) : Planner :=
  let members := members.insertionSort fun a b => (compare a b).isLE
  planner.allot members (UInt32.ofNat members.length) (canonicalMember state members)

def planSingle (planner : Planner) (path : Bytes) : Planner :=
  if (planner.plan.identity path).isSome then planner else planner.allot [path] 1 (some path)

def planHardlinks (state : PathMap Metadata) : HardlinkPlan :=
  let planner : Planner := ⟨⟨fun _ => none, fun _ => none, fun _ => none⟩, 1, 1⟩
  let planner := (collectGroups state).toList.foldl
    (fun planner (_, members) => planGroup state planner members) planner
  (state.keys.foldl planSingle planner).plan

/-! ## Emission -/

def buildRecord (path : Bytes) (metadata : Metadata) (assignment : Assignment) (nlink : UInt32)
    (body : Body) : Record where
  name := path
  mode := metadata.mode
  uid := metadata.uid
  gid := metadata.gid
  mtime := metadata.mtime
  nlink := nlink
  devMajor := assignment.1
  devMinor := 0
  ino := assignment.2
  rdevMajor := metadata.rdevMajor
  rdevMinor := metadata.rdevMinor
  body := body

/-- The call of the writer for one entry of the state. -/
def emitItem (plan : HardlinkPlan) (spool : Spool) (path : Bytes) (metadata : Metadata) :
    Except Report Item :=
  let (assignment, isCanonicalBody) := plan.assignmentFor path
  let record := buildRecord path metadata assignment (plan.nlinkFor path) .empty
  match metadata.body with
  | .empty => .ok (.entry record)
  | .symlink bytes =>
    if 2 ^ 32 ≤ bytes.length then
      .error ⟨.invalidCpio, some ("symlink " ++ text path ++ " target exceeds u32")⟩
    else .ok (.streaming record (UInt32.ofNat bytes.length) (Source.ofBytes bytes))
  | .spool (some range) =>
    if isCanonicalBody then
      .ok (.streaming record range.size (Source.ofBytes (spool.slice range)))
    else .ok (.entry record)
  | .spool none => .ok (.entry record)

def emit (state : PathMap Metadata) (spool : Spool) : Except Report TempWriter := do
  let plan := planHardlinks state
  let w ← state.toList.foldlM (fun w (path, metadata) => do
    let item ← emitItem plan spool path metadata
    writeItem w item) []
  writeTrailer w

def runBlocking (layers : List Layer) : Except Report TempWriter := do
  let (state, spool) ← buildState layers
  emit state spool

/-! ## What is emitted -/

variable {spool : Spool}

variable {state : PathMap Metadata} {item : Item}

theorem emitItem_record {plan : HardlinkPlan} {path : Bytes} {metadata : Metadata}
    (h : emitItem plan spool path metadata = .ok item) : item.record =
      buildRecord path metadata (plan.assignmentFor path).1 (plan.nlinkFor path) .empty := by
  unfold emitItem at h
  cases hbody : metadata.body with
  | empty =>
    simp only [hbody] at h
    cases h
    rfl
  | symlink bytes =>
    simp only [hbody] at h
    split at h <;> cases h
    rfl
  | spool range =>
    cases range with
    | none =>
      simp only [hbody] at h
      cases h
      rfl
    | some range =>
      simp only [hbody] at h
      split at h <;> cases h <;> rfl

/-- The items of an archive, one for each entry of the state and in its order. -/
def Emits (state : PathMap Metadata) (spool : Spool) (items : List Item) : Prop :=
  List.Forall₂ (fun entry item => emitItem (planHardlinks state) spool entry.1 entry.2 = .ok item)
    state.toList items

theorem emit_eq_ok {bytes : TempWriter} : emit state spool = .ok bytes ↔
      ∃ items, Emits state spool items ∧ writeArchive items = .ok bytes := by
  have hloop := foldlM_bind_eq_ok (fun entry : Bytes × Metadata =>
    emitItem (planHardlinks state) spool entry.1 entry.2) writeItem state.toList []
  rw [emit, bind_eq_ok]
  constructor
  · rintro ⟨w, hw, hbytes⟩
    obtain ⟨items, hitems, hwrite⟩ := (hloop w).1 hw
    exact ⟨items, hitems, bind_eq_ok.2 ⟨w, hwrite, hbytes⟩⟩
  · rintro ⟨items, hitems, hbytes⟩
    obtain ⟨w, hwrite, hbytes⟩ := bind_eq_ok.1 hbytes
    exact ⟨w, (hloop w).2 ⟨items, hitems, hwrite⟩, hbytes⟩

theorem Emits.mem_iff {items : List Item} (h : Emits state spool items) :
    item ∈ items ↔ ∃ path metadata, state[path]? = some metadata ∧
      emitItem (planHardlinks state) spool path metadata = .ok item := by
  constructor
  · intro hmem
    obtain ⟨⟨path, metadata⟩, hentry, hitem⟩ := exists_left_of_forall₂ h hmem
    exact ⟨path, metadata, Std.ExtTreeMap.mem_toList_iff_getElem?_eq_some.1 hentry, hitem⟩
  · rintro ⟨path, metadata, hget, hitem⟩
    obtain ⟨item', hmem, hitem'⟩ :=
      exists_right_of_forall₂ h (Std.ExtTreeMap.mem_toList_iff_getElem?_eq_some.2 hget)
    obtain rfl : item' = item := Except.ok.inj (hitem'.symm.trans hitem)
    exact hmem

end Jyth.Image
