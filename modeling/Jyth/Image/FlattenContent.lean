import Jyth.Image.HardlinkPlan
import Jyth.Image.OverlaySpec

/-!
# Content through `flatten`

In an archive a regular file with more than one link shares its body with the
records of its device and inode number, and one of them carries it
(`contentOf`).  The same function reads a source layer and the emitted archive.

`flatten` keeps one body for each group that survives, the largest
(`contentOf_emitted`).  So the content of a name is what it was in its layer
exactly when the record that carried the body of its group survives with it
(`flatten_content_iff`).
-/

namespace Jyth.Image

open Format List Option Item Std.ExtTreeMap

/-! ## Content of an archive -/

def Entry.isLinked (entry : Entry) : Bool :=
  entry.mode &&& sIfmt = sIfreg && !(entry.nlink ≤ 1)

/-- `other` is a link to the same inode as the linked file `entry`. -/
def Entry.linksTo (entry other : Entry) : Bool :=
  other.isLinked && other.devMajor = entry.devMajor && other.ino = entry.ino

/-- The content a name has after extraction. -/
def contentOf (archive : List Entry) (entry : Entry) : Bytes :=
  if entry.isLinked then
    ((archive.find? fun other => entry.linksTo other && !other.body.isEmpty).map Entry.body).getD []
  else entry.body

variable {entry : Entry}

theorem contentOf_eq {archive : List Entry} {content : Bytes}
    (hlinked : entry.isLinked = true) (hbodies : ∀ other ∈ archive, entry.linksTo other = true →
      other.body = [] ∨ other.body = content)
    (hcarrier : content ≠ [] → ∃ other ∈ archive, entry.linksTo other = true ∧
      other.body = content) : contentOf archive entry = content := by
  rw [contentOf, if_pos hlinked]
  cases hfind : archive.find? fun other => entry.linksTo other && !other.body.isEmpty with
  | none =>
    by_contra hne
    obtain ⟨other, hmem, hlink, hbody⟩ := hcarrier fun h => hne (by rw [h]; rfl)
    have hnot := find?_eq_none.1 hfind other hmem
    rw [Bool.and_eq_true, not_and, hbody] at hnot
    refine hne ?_
    have hempty := hnot hlink
    simp only [Bool.not_eq_true', isEmpty_eq_false_iff, not_not] at hempty
    rw [hempty]
    rfl
  | some other =>
    have hother := find?_some hfind
    rw [Bool.and_eq_true] at hother
    rcases hbodies other (mem_of_find?_eq_some hfind) hother.1 with hnil | hbody
    · simp [hnil] at hother
    · exact hbody

/-! ## Where a survivor comes from -/

/-- The metadata come from this entry of this layer. -/
structure Contributes (layers : List Layer) (spool : Spool) (metadata : Metadata) (layer : Layer)
    (entry : Entry) : Prop where
  layer_eq : layers[metadata.sourceLayer]? = some layer
  mem : entry ∈ layer.entries
  decodes : ∃ path, Decodes metadata.sourceLayer spool entry (.regular path metadata)

open UInt32

theorem slice_append (spool body behind : Bytes) (h : body.length < 2 ^ 32) :
    Spool.slice (spool ++ body ++ behind) ⟨spool.length, ofNat body.length⟩ = body := by
  have hsize : (ofNat body.length).toNat = body.length := by
    rw [toNat_ofNat']
    omega
  rw [Spool.slice, hsize, append_assoc, drop_left, take_left]

variable {metadata : Metadata}

theorem decodes_regular {sourceLayer : Nat} {final : Spool} {path : Bytes}
    (h : Decodes sourceLayer final entry (.regular path metadata))
    (hsize : entry.body.length < 2 ^ 32) : ∃ body, metadata = .ofEntry entry sourceLayer body ∧
      (entry.mode &&& sIfmt = sIfreg → ∃ range, body = .spool (some range) ∧
        final.slice range = entry.body ∧ range.size = ofNat entry.body.length) := by
  obtain ⟨spool, spool', hdec, hfinal⟩ := h
  obtain ⟨path', -, ⟨wh, -, hwh, -⟩ | ⟨-, metadata', hreg, hmeta⟩⟩ := decodeEntry_eq_ok.1 hdec
  · cases hwh
  cases hreg
  obtain ⟨body, rfl, hbody⟩ := decodeEntryMetadata_eq_ok hmeta
  refine ⟨body, rfl, fun hmode => ?_⟩
  rcases hbody with ⟨-, rfl, rfl⟩ | ⟨hlnk, -⟩ | ⟨hnot, -⟩
  · obtain ⟨behind, rfl⟩ := hfinal
    exact ⟨_, rfl, slice_append spool entry.body behind hsize, rfl⟩
  · rw [hmode] at hlnk
    exact absurd hlnk (by decide)
  · exact absurd hmode hnot

def contentIn (spool : Spool) (metadata : Metadata) : Bytes :=
  match metadata.body with
  | .spool (some range) => spool.slice range
  | _ => []

namespace Contributes

variable {layers : List Layer} {spool : Spool} {metadata : Metadata} {layer : Layer} {entry : Entry}
  (h : Contributes layers spool metadata layer entry)
include h

theorem fields : metadata.mode = entry.mode ∧ metadata.nlinkSource = entry.nlink ∧
    metadata.devMajor = entry.devMajor ∧ metadata.ino = entry.ino := by
  obtain ⟨path, hdec⟩ := h.decodes
  obtain ⟨body, hmeta, -⟩ := decodes_regular hdec (layer.sizes entry h.mem)
  rw [hmeta]
  exact ⟨rfl, rfl, rfl, rfl⟩

theorem isGrouped_eq : metadata.isGrouped = entry.isLinked := by
  obtain ⟨hmode, hnlink, -⟩ := h.fields
  rw [Metadata.isGrouped, Metadata.isRegular, hmode, hnlink, Entry.isLinked]

section

variable (hreg : metadata.isRegular = true)
include hreg

theorem body_of_regular :
    ∃ range, metadata.body = .spool (some range) ∧ spool.slice range = entry.body ∧
      range.size = ofNat entry.body.length := by
  obtain ⟨path, hdec⟩ := h.decodes
  obtain ⟨body, hmeta, hbody⟩ := decodes_regular hdec (layer.sizes entry h.mem)
  have hmode : entry.mode &&& sIfmt = sIfreg := by
    rw [← h.fields.1]
    exact of_decide_eq_true hreg
  obtain ⟨range, rfl, hrange⟩ := hbody hmode
  exact ⟨range, by rw [hmeta]; rfl, hrange⟩

theorem contentIn_eq : contentIn spool metadata = entry.body := by
  obtain ⟨range, hbody, hslice, -⟩ := h.body_of_regular hreg
  simp only [contentIn, hbody, hslice]

theorem bodySizeOf_eq_zero : bodySizeOf metadata = 0 ↔ entry.body = [] := by
  obtain ⟨range, hbody, -, hsize⟩ := h.body_of_regular hreg
  have hlt := layer.sizes entry h.mem
  simp only [bodySizeOf, hbody, hsize]
  rw [← UInt32.toNat_inj, UInt32.toNat_ofNat', Nat.mod_eq_of_lt hlt]
  exact length_eq_zero_iff

theorem length_contentIn : ∃ range, metadata.body = .spool (some range) ∧
      (contentIn spool metadata).length = range.size.toNat := by
  obtain ⟨range, hbody, hslice, hsize⟩ := h.body_of_regular hreg
  have hlt := layer.sizes entry h.mem
  refine ⟨range, hbody, ?_⟩
  rw [h.contentIn_eq hreg, hsize, toNat_ofNat', Nat.mod_eq_of_lt hlt]

end

end Contributes

theorem exists_contributor {layers : List Layer} {decoded : List (List (LayerEntry Metadata))}
    {spool : Spool} (hdec : decodeLayers 0 layers [] = .ok (decoded, spool)) {p : Bytes}
    (hp : (overlay decoded)[p]? = some metadata) :
    ∃ layer entry, Contributes layers spool metadata layer entry := by
  rw [overlay_eq_run] at hp
  rcases eq_some_of_run hp with hempty | ⟨path, hmem⟩
  · rw [getElem?_empty] at hempty
    cases hempty
  obtain ⟨ds, hds, hop⟩ := mem_flatMap.1 hmem
  rcases mem_ops.1 hop with ⟨wh, -, heq⟩ | ⟨path', metadata', hd, heq⟩
  · cases heq
  cases heq
  obtain ⟨i, layer, entry, hlayer, hentry, hdecodes⟩ := exists_decodes hdec hds hd
  obtain ⟨body, hmeta, -⟩ := decodes_regular hdecodes (layer.sizes entry hentry)
  have hsource : metadata.sourceLayer = i := by rw [hmeta]; rfl
  exact ⟨layer, entry, by rw [hsource, hlayer], hentry, path, by rw [hsource]; exact hdecodes⟩

/-! ## The emitted archive -/

theorem isRegular_of_isGrouped (h : metadata.isGrouped = true) : metadata.isRegular = true := by
  rw [Metadata.isGrouped, Bool.and_eq_true] at h
  exact h.1

section
variable {layers : List Layer} {spool : Spool} {state : PathMap Metadata} {items : List Item}

variable {p : Bytes} {item : Item} {metadata' : Metadata} {q : Bytes}

variable {layer : Layer} {plan : HardlinkPlan}

theorem emitItem_body (hfrom : Contributes layers spool metadata layer entry)
    (hreg : metadata.isRegular = true) (hitem : emitItem plan spool p metadata = .ok item) :
    item.body = if (plan.assignmentFor p).2 then contentIn spool metadata else [] := by
  obtain ⟨range, hbody, hlen⟩ := hfrom.length_contentIn hreg
  simp only [emitItem, hbody] at hitem
  by_cases hcanonical : (plan.assignmentFor p).2 = true
  · rw [if_pos hcanonical] at hitem ⊢
    cases hitem
    have hslice : contentIn spool metadata = spool.slice range := by
      simp only [contentIn, hbody]
    rw [body, Source.bytes_ofBytes, ← hslice, ← hlen, take_length]
  · rw [if_neg hcanonical] at hitem ⊢
    cases hitem
    rfl

theorem length_membersOf_le (state : PathMap Metadata) (key : LinkKey) :
    (membersOf state key).length ≤ state.size := by
  rw [← Std.ExtTreeMap.length_toList]
  exact Buckets.length_bucket_le key state.toList

theorem eq_of_nlinkFor_le (hsize : state.size < 2 ^ 32 - 1) (hp : state[p]? = some metadata)
    (hq : state[q]? = some metadata') (hsame : SameFile p metadata q metadata')
    (hnlink : (planHardlinks state).nlinkFor p ≤ 1) : p = q := by
  rcases hsame with rfl | ⟨hg, hg', hkey⟩
  · rfl
  have hpm : p ∈ membersOf state metadata.linkKey := mem_membersOf.2 ⟨metadata, hp, hg, rfl⟩
  have hqm : q ∈ membersOf state metadata.linkKey := mem_membersOf.2 ⟨metadata', hq, hg', hkey.symm⟩
  have hle := length_membersOf_le state metadata.linkKey
  rw [nlinkFor_eq hsize hp, lotOf, if_pos hg] at hnlink
  have hlen : (membersOf state metadata.linkKey).length ≤ 1 := by
    have := le_iff_toNat_le.1 hnlink
    simp only [groupLot, length_insertionSort, toNat_ofNat'] at this
    have hone : (1 : UInt32).toNat = 1 := rfl
    omega
  generalize membersOf state metadata.linkKey = members at hpm hqm hlen
  rcases members with _ | ⟨x, _ | ⟨y, rest⟩⟩
  · cases hpm
  · rw [mem_singleton.1 hpm, mem_singleton.1 hqm]
  · simp at hlen

theorem isLinked_emitted (hitem : emitItem plan spool p metadata = .ok item) :
    item.entryOf.isLinked = (metadata.isRegular && !(plan.nlinkFor p ≤ 1)) := by
  rw [Entry.isLinked, entryOf, emitItem_record hitem]
  rfl

theorem linksTo_emitted (hsize : state.size < 2 ^ 32 - 1) {item' : Item} (hp : state[p]? = some metadata)
    (hq : state[q]? = some metadata')
    (hitem : emitItem (planHardlinks state) spool p metadata = .ok item)
    (hitem' : emitItem (planHardlinks state) spool q metadata' = .ok item') :
    item.entryOf.linksTo item'.entryOf = true ↔
      item'.entryOf.isLinked = true ∧ SameFile p metadata q metadata' := by
  have hdev : item.entryOf.devMajor = ((planHardlinks state).assignmentFor p).1.1 ∧
      item.entryOf.ino = ((planHardlinks state).assignmentFor p).1.2 := by
    rw [entryOf, emitItem_record hitem]
    exact ⟨rfl, rfl⟩
  have hdev' : item'.entryOf.devMajor = ((planHardlinks state).assignmentFor q).1.1 ∧
      item'.entryOf.ino = ((planHardlinks state).assignmentFor q).1.2 := by
    rw [entryOf, emitItem_record hitem']
    exact ⟨rfl, rfl⟩
  rw [← assignmentFor_eq_iff hsize hp hq, Prod.ext_iff, Entry.linksTo, hdev.1, hdev.2, hdev'.1,
    hdev'.2]
  simp only [Bool.and_eq_true, decide_eq_true_eq, and_assoc]
  exact and_congr_right fun _ => and_congr eq_comm eq_comm

theorem SameFile.isRegular (h : SameFile p metadata q metadata') (hp : state[p]? = some metadata)
    (hq : state[q]? = some metadata') (hreg : metadata.isRegular = true) :
    metadata'.isRegular = true := by
  rcases h with rfl | ⟨-, hg, -⟩
  · rwa [← some.inj (hp.symm.trans hq)]
  · exact isRegular_of_isGrouped hg

/-- **What a name holds after extraction:** the body of the canonical member of
its group. -/
theorem contentOf_emitted (hsize : state.size < 2 ^ 32 - 1)
    (hfrom : ∀ (p : Bytes) (metadata : Metadata), state[p]? = some metadata →
      ∃ layer entry, Contributes layers spool metadata layer entry)
    (hemits : Emits state spool items)
    (hp : state[p]? = some metadata) (hreg : metadata.isRegular = true)
    (hitem : emitItem (planHardlinks state) spool p metadata = .ok item) :
    ∃ c metadata', state[c]? = some metadata' ∧ SameFile p metadata c metadata' ∧
      (∀ q metadata'', state[q]? = some metadata'' → SameFile p metadata q metadata'' →
        bodySizeOf metadata'' ≤ bodySizeOf metadata') ∧
      contentOf (items.map Item.entryOf) item.entryOf = contentIn spool metadata' := by
  obtain ⟨c, metadata', hc, hsame, hall⟩ := assignmentFor_canonical hsize hp
  refine ⟨c, metadata', hc, hsame, fun q metadata'' hq hsame' => (hall q _ hq hsame').2, ?_⟩
  by_cases hlinked : item.entryOf.isLinked = true
  · refine contentOf_eq hlinked ?_ fun _ => ?_
    · intro other hother hlinks
      obtain ⟨item', hmem, rfl⟩ := mem_map.1 hother
      obtain ⟨q, metadata'', hq, hitem'⟩ := hemits.mem_iff.1 hmem
      obtain ⟨-, hsame'⟩ := (linksTo_emitted hsize hp hq hitem hitem').1 hlinks
      obtain ⟨layer, entry, hcontrib⟩ := hfrom q metadata'' hq
      have hbody := emitItem_body hcontrib (hsame'.isRegular hp hq hreg) hitem'
      show item'.body = [] ∨ item'.body = _
      rw [hbody]
      by_cases hqc : q = c
      · subst hqc
        rw [if_pos ((hall q metadata'' hq hsame').1.2 rfl), some.inj (hq.symm.trans hc)]
        exact .inr rfl
      · rw [if_neg fun h => hqc ((hall q metadata'' hq hsame').1.1 h)]
        exact .inl rfl
    · obtain ⟨item', hmem, hitem'⟩ := exists_right_of_forall₂ hemits
        (mem_toList_iff_getElem?_eq_some.2 hc)
      obtain ⟨layer, entry, hcontrib⟩ := hfrom c metadata' hc
      have hreg' := hsame.isRegular hp hc hreg
      refine ⟨_, mem_map_of_mem hmem, (linksTo_emitted hsize hp hc hitem hitem').2 ⟨?_, hsame⟩, ?_⟩
      · rw [isLinked_emitted hitem, nlinkFor_eq hsize hp, lotOf_eq_of_sameFile hp hc hsame,
          ← nlinkFor_eq hsize hc, hreg] at hlinked
        rw [isLinked_emitted hitem', hreg']
        exact hlinked
      · show item'.body = _
        rw [emitItem_body hcontrib hreg' hitem', if_pos ((hall c metadata' hc hsame).1.2 rfl)]
  · rw [contentOf, if_neg hlinked]
    rw [isLinked_emitted hitem, hreg, Bool.true_and] at hlinked
    have hnlink : (planHardlinks state).nlinkFor p ≤ 1 := by simpa using hlinked
    obtain rfl := eq_of_nlinkFor_le hsize hp hc hsame hnlink
    obtain rfl := some.inj (hp.symm.trans hc)
    obtain ⟨layer, entry, hcontrib⟩ := hfrom p metadata hp
    show item.body = _
    rw [emitItem_body hcontrib hreg hitem, if_pos ((hall p metadata hp hsame).1.2 rfl)]

/-! ## Against the source layers -/

/-- The links to one inode carry at most one body between them. -/
def Layer.OneBody (layer : Layer) : Prop :=
  ∀ e ∈ layer.entries, ∀ e' ∈ layer.entries, e.isLinked = true → e.linksTo e' = true →
    e.body ≠ [] → e'.body ≠ [] → e.body = e'.body

/-- In the layer of a linked file, some link to its inode carries a body. -/
def Carried (layers : List Layer) (metadata : Metadata) : Prop :=
  ∃ layer carrier, layers[metadata.sourceLayer]? = some layer ∧ carrier ∈ layer.entries ∧
    carrier.isLinked = true ∧ carrier.devMajor = metadata.devMajor ∧ carrier.ino = metadata.ino ∧
    carrier.body ≠ []

/-- The carrier has the body of the link group. -/
def Carries (carrier metadata : Metadata) : Prop :=
  carrier.isGrouped = true ∧ carrier.linkKey = metadata.linkKey ∧ bodySizeOf carrier ≠ 0

/-- Whichever linked file is left, what carries its body in its layer is left too. -/
def CarriersLeft (layers : List Layer) (left : Metadata → Prop) : Prop :=
  ∀ metadata, left metadata → metadata.isGrouped = true → Carried layers metadata →
    ∃ carrier, left carrier ∧ Carries carrier metadata

theorem linksTo_iff {entry other : Entry} : entry.linksTo other = true ↔
      other.isLinked = true ∧ other.devMajor = entry.devMajor ∧ other.ino = entry.ino := by
  rw [Entry.linksTo, Bool.and_eq_true, Bool.and_eq_true, decide_eq_true_eq, decide_eq_true_eq,
    and_assoc]

theorem contentOf_layer (hone : layer.OneBody) {entry carrier : Entry}
    (hlinked : entry.isLinked = true) (hcarrier : carrier ∈ layer.entries)
    (hlinks : entry.linksTo carrier = true) (hbody : carrier.body ≠ []) :
    contentOf layer.entries entry = carrier.body := by
  obtain ⟨hlinked', hdev, hino⟩ := linksTo_iff.1 hlinks
  refine contentOf_eq hlinked (fun other hother hlinks' => ?_) fun _ =>
    ⟨carrier, hcarrier, hlinks, rfl⟩
  obtain ⟨hlinked'', hdev', hino'⟩ := linksTo_iff.1 hlinks'
  by_cases hempty : other.body = []
  · exact .inl hempty
  · refine .inr (hone carrier hcarrier other hother hlinked' ?_ hbody hempty).symm
    exact linksTo_iff.2 ⟨hlinked'', by rw [hdev', hdev], by rw [hino', hino]⟩

theorem Contributes.linksTo {layer layer' : Layer}
    {entry entry' : Entry} (h : Contributes layers spool metadata layer entry)
    (h' : Contributes layers spool metadata' layer' entry') (hg : metadata'.isGrouped = true)
    (hkey : metadata'.linkKey = metadata.linkKey) :
    layer' = layer ∧ entry.linksTo entry' = true := by
  obtain ⟨hsource, hdev, hino⟩ : metadata'.sourceLayer = metadata.sourceLayer ∧
      metadata'.devMajor = metadata.devMajor ∧ metadata'.ino = metadata.ino := by
    simpa [Metadata.linkKey] using hkey
  obtain ⟨-, -, hdev₁, hino₁⟩ := h.fields
  obtain ⟨-, -, hdev₂, hino₂⟩ := h'.fields
  refine ⟨some.inj ?_, linksTo_iff.2 ⟨?_, ?_, ?_⟩⟩
  · rw [← h'.layer_eq, hsource, h.layer_eq]
  · rw [← h'.isGrouped_eq, hg]
  · rw [← hdev₂, hdev, hdev₁]
  · rw [← hino₂, hino, hino₁]

theorem Contributes.contentOf_eq_nil_iff (h : Contributes layers spool metadata layer entry)
    (hone : layer.OneBody) (hg : metadata.isGrouped = true) :
    contentOf layer.entries entry = [] ↔ ¬ Carried layers metadata := by
  have hlinked : entry.isLinked = true := by rw [← h.isGrouped_eq, hg]
  obtain ⟨-, -, hdev, hino⟩ := h.fields
  constructor
  · rintro hnil ⟨layer', carrier, hlayer, hmem, hlink, hdev', hino', hbody⟩
    obtain rfl := some.inj (hlayer.symm.trans h.layer_eq)
    have hlinks : entry.linksTo carrier = true :=
      linksTo_iff.2 ⟨hlink, by rw [hdev', hdev], by rw [hino', hino]⟩
    rw [contentOf_layer hone hlinked hmem hlinks hbody] at hnil
    exact hbody hnil
  · intro hnot
    refine contentOf_eq hlinked (fun other hother hlinks => ?_) fun h => absurd rfl h
    by_contra hbody
    obtain ⟨hlink, hdev', hino'⟩ := linksTo_iff.1 hlinks
    exact hnot ⟨layer, other, h.layer_eq, hother, hlink, by rw [hdev', hdev],
      by rw [hino', hino], fun hnil => hbody (.inl hnil)⟩

theorem SameFile.linkKey_eq (h : SameFile p metadata q metadata') (hp : state[p]? = some metadata)
    (hq : state[q]? = some metadata') (hg : metadata.isGrouped = true) :
    metadata'.isGrouped = true ∧ metadata'.linkKey = metadata.linkKey := by
  rcases h with rfl | ⟨-, hg', hkey⟩
  · obtain rfl := some.inj (hp.symm.trans hq)
    exact ⟨hg, rfl⟩
  · exact ⟨hg', hkey.symm⟩

/-- For one regular file of the state: its content is that of its layer exactly
when a body its inode has there is left. -/
theorem content_kept_iff (hsize : state.size < 2 ^ 32 - 1)
    (hfrom : ∀ (p : Bytes) (metadata : Metadata), state[p]? = some metadata →
      ∃ layer entry, Contributes layers spool metadata layer entry)
    (hone : ∀ layer ∈ layers, layer.OneBody) (hemits : Emits state spool items)
    (hp : state[p]? = some metadata) (hreg : metadata.isRegular = true)
    (hitem : emitItem (planHardlinks state) spool p metadata = .ok item) :
    (∃ layer entry, Contributes layers spool metadata layer entry ∧
      contentOf (items.map Item.entryOf) item.entryOf = contentOf layer.entries entry) ↔
    (metadata.isGrouped = true → Carried layers metadata →
      ∃ carrier, (∃ q : Bytes, state[q]? = some carrier) ∧ Carries carrier metadata) := by
  obtain ⟨c, metadata', hc, hsame, hmax, hcontent⟩ :=
    contentOf_emitted hsize hfrom hemits hp hreg hitem
  obtain ⟨layer, entry, hcontrib⟩ := hfrom p metadata hp
  rw [hcontent]
  by_cases hg : metadata.isGrouped = true
  · have hlinked : entry.isLinked = true := by rw [← hcontrib.isGrouped_eq, hg]
    obtain ⟨hg', hkey⟩ := hsame.linkKey_eq hp hc hg
    have hreg' := isRegular_of_isGrouped hg'
    obtain ⟨layer', entry', hcontrib'⟩ := hfrom c metadata' hc
    obtain ⟨rfl, hlinks⟩ := hcontrib.linksTo hcontrib' hg' hkey
    rw [hcontrib'.contentIn_eq hreg']
    by_cases hempty : entry'.body = []
    · -- the canonical body is the largest, so that no carrier is left
      have hnone : ¬ ∃ carrier, (∃ q : Bytes, state[q]? = some carrier) ∧
          Carries carrier metadata := by
        rintro ⟨carrier, ⟨q, hq⟩, hgc, hkeyc, hsizec⟩
        have hle := hmax q carrier hq (.inr ⟨hg, hgc, hkeyc.symm⟩)
        rw [(hcontrib'.bodySizeOf_eq_zero hreg').2 hempty] at hle
        exact hsizec (UInt32.le_zero_iff.1 hle)
      rw [hempty]
      constructor
      · rintro ⟨layer₁, entry₁, hcontrib₁, heq⟩ - hcarried
        have hone₁ := hone _ (mem_of_getElem? hcontrib₁.layer_eq)
        exact absurd hcarried ((hcontrib₁.contentOf_eq_nil_iff hone₁ hg).1 heq.symm)
      · intro hleft
        have hone' := hone _ (mem_of_getElem? hcontrib.layer_eq)
        refine ⟨layer', entry, hcontrib, ((hcontrib.contentOf_eq_nil_iff hone' hg).2 ?_).symm⟩
        exact fun hcarried => hnone (hleft hg hcarried)
    · refine iff_of_true ⟨layer', entry, hcontrib, ?_⟩ fun _ _ => ⟨metadata', ⟨c, hc⟩, hg', hkey, ?_⟩
      · exact (contentOf_layer (hone _ (mem_of_getElem? hcontrib.layer_eq)) hlinked
          hcontrib'.mem hlinks hempty).symm
      · rwa [ne_eq, hcontrib'.bodySizeOf_eq_zero hreg']
  · refine iff_of_true ⟨layer, entry, hcontrib, ?_⟩ fun h => absurd h hg
    obtain rfl : p = c := hsame.resolve_right fun h => hg h.1
    obtain rfl := some.inj (hp.symm.trans hc)
    rw [hcontrib.contentIn_eq hreg, contentOf, if_neg]
    rwa [← hcontrib.isGrouped_eq]

/-! ## Whole builds -/

/-- Every regular file of the archive has the content it had in the layer it comes from. -/
def ContentKept (layers : List Layer) (spool : Spool) (state : PathMap Metadata)
    (archive : List Entry) : Prop :=
  ∀ out ∈ archive, out.mode &&& sIfmt = sIfreg →
    ∃ metadata layer entry, state[out.name]? = some metadata ∧
      Contributes layers spool metadata layer entry ∧
      contentOf archive out = contentOf layer.entries entry

/-- The state has an entry with these metadata. -/
def Held (state : PathMap Metadata) (metadata : Metadata) : Prop :=
  ∃ p : Bytes, state[p]? = some metadata

theorem contentKept_iff (hsize : state.size < 2 ^ 32 - 1)
    (hfrom : ∀ (p : Bytes) (metadata : Metadata), state[p]? = some metadata →
      ∃ layer entry, Contributes layers spool metadata layer entry)
    (hone : ∀ layer ∈ layers, layer.OneBody) (hemits : Emits state spool items) :
    ContentKept layers spool state (items.map Item.entryOf) ↔ CarriersLeft layers (Held state) := by
  constructor
  · rintro hkept metadata ⟨p, hp⟩ hg
    have hreg := isRegular_of_isGrouped hg
    obtain ⟨item, hmem, hitem⟩ := exists_right_of_forall₂ hemits
      (mem_toList_iff_getElem?_eq_some.2 hp)
    have hrecord := emitItem_record hitem
    have hmode : item.entryOf.mode &&& sIfmt = sIfreg := by
      rw [entryOf, hrecord]
      exact of_decide_eq_true hreg
    obtain ⟨metadata', layer, entry, hget, hcontrib, heq⟩ := hkept _ (mem_map_of_mem hmem) hmode
    have hname : item.entryOf.name = p := by
      rw [entryOf, hrecord]
      rfl
    rw [hname, hp] at hget
    obtain rfl := some.inj hget
    exact (content_kept_iff hsize hfrom hone hemits hp hreg hitem).1 ⟨layer, entry, hcontrib, heq⟩ hg
  · intro hleft out hout hmode
    obtain ⟨item, hmem, rfl⟩ := mem_map.1 hout
    obtain ⟨p, metadata, hp, hitem⟩ := hemits.mem_iff.1 hmem
    have hrecord := emitItem_record hitem
    have hreg : metadata.isRegular = true := by
      rw [entryOf, hrecord] at hmode
      exact decide_eq_true hmode
    obtain ⟨layer, entry, hcontrib, heq⟩ :=
      (content_kept_iff hsize hfrom hone hemits hp hreg hitem).2 fun hg => hleft metadata ⟨p, hp⟩ hg
    refine ⟨metadata, layer, entry, ?_, hcontrib, heq⟩
    rw [entryOf, hrecord]
    exact hp

end

/-- The operation may remove what is at the path. -/
def Op.Clears (map : PathMap Metadata) : Op Metadata → Bytes → Prop
  | .whiteout wh, p => wh.Removes p
  | .insert path entry, p => p = storedAt map path ∨ Displaces map (storedAt map path) entry p

/-- The entries a change leaves, and the one it inserts. -/
def Op.Leaves (map : PathMap Metadata) (op : Op Metadata) (metadata : Metadata) : Prop :=
  (∃ p : Bytes, map[p]? = some metadata ∧ ¬ op.Clears map p) ∨ ∃ path, op = .insert path metadata

theorem held_stepOp_iff (map : PathMap Metadata) (op : Op Metadata) (metadata : Metadata) :
    Held (stepOp map op) metadata ↔ op.Leaves map metadata := by
  cases op with
  | whiteout wh =>
    simp only [Held, Op.Leaves, Op.Clears, getElem?_stepOp_whiteout, reduceCtorEq, exists_false,
      or_false]
    refine exists_congr fun p => ?_
    by_cases hr : wh.Removes p <;> simp [hr]
  | insert path entry =>
    simp only [Held, Op.Leaves, Op.Clears, getElem?_stepOp_insert]
    constructor
    · rintro ⟨p, hp⟩
      by_cases hat : p = storedAt map path
      · rw [if_pos hat] at hp
        exact .inr ⟨path, by rw [some.inj hp]⟩
      · rw [if_neg hat] at hp
        by_cases hd : Displaces map (storedAt map path) entry p
        · simp [hd] at hp
        · rw [if_neg hd] at hp
          exact .inl ⟨p, hp, fun h => h.elim hat hd⟩
    · rintro (⟨p, hp, hclears⟩ | ⟨_, heq⟩)
      · rw [not_or] at hclears
        exact ⟨p, by rw [if_neg hclears.1, if_neg hclears.2, hp]⟩
      · cases heq
        exact ⟨storedAt map path, if_pos rfl⟩

theorem run_carriersLeft_iff (layers : List Layer) (changes : List (Op Metadata)) :
    (∀ front, front <+: changes → CarriersLeft layers (Held (front.foldl stepOp ∅))) ↔
      Run.Steps stepOp (fun map op => CarriersLeft layers (op.Leaves map)) ∅ changes := by
  rw [← Run.reached_iff_fronts (P := fun map => CarriersLeft layers (Held map))]
  refine Run.reached_iff_steps (I := fun _ => True) (fun _ _ _ _ => trivial)
    (fun map op _ _ _ => ?_) trivial ?_
  · rw [funext fun metadata => propext (held_stepOp_iff map op metadata)]
  · rintro metadata ⟨p, hp⟩
    rw [getElem?_empty] at hp
    cases hp

/-- **Content through `flatten`.**  For layers whose inodes have one body each:
every regular file of the archive has its content exactly when what carries the
body of a surviving file survives, and that is so throughout the build exactly
when no change takes a carrier and leaves a file of its inode. -/
theorem flatten_content_iff {layers : List Layer} {bytes : TempWriter}
    (hone : ∀ layer ∈ layers, layer.OneBody) (h : runBlocking layers = .ok bytes) :
    ∃ decoded spool items, decodeLayers 0 layers [] = .ok (decoded, spool) ∧
      Emits (overlay decoded) spool items ∧ writeArchive items = .ok bytes ∧
      ((overlay decoded).size < 2 ^ 32 - 1 →
        (ContentKept layers spool (overlay decoded) (items.map Item.entryOf) ↔
          CarriersLeft layers (Held (overlay decoded)))) ∧
      ((∀ front, front <+: decoded.flatMap ops →
          CarriersLeft layers (Held (front.foldl stepOp ∅))) ↔
        Run.Steps stepOp (fun map op => CarriersLeft layers (op.Leaves map)) ∅
          (decoded.flatMap ops)) := by
  rw [runBlocking, bind_eq_ok] at h
  obtain ⟨⟨state, spool⟩, hbuild, hemit⟩ := h
  obtain ⟨decoded, hdec, rfl⟩ := buildState_eq_ok.1 hbuild
  obtain ⟨items, hitems, hwrite⟩ := emit_eq_ok.1 hemit
  exact ⟨decoded, spool, items, hdec, hitems, hwrite,
    fun hsize => contentKept_iff hsize (fun _ _ hp => exists_contributor hdec hp) hone hitems,
    run_carriersLeft_iff layers _⟩

/-! ### A group and its carrier -/

def linkEntry (name : String) (body : Bytes) : Entry :=
  { plainEntry name 0o100644 with nlink := 2, devMajor := 1, ino := 1, body := body }

/-- `a` carries the body of `b`. -/
def linkedPair : Layer :=
  ⟨[linkEntry "a" (utf8 "x"), linkEntry "b" []], by decide⟩

theorem linkedPair_oneBody : linkedPair.OneBody := by
  unfold Layer.OneBody
  decide

theorem linkedPair_content :
    ∃ decoded spool bytes items, decodeLayers 0 [linkedPair] [] = .ok (decoded, spool) ∧
      runBlocking [linkedPair] = .ok bytes ∧ writeArchive items = .ok bytes ∧
      ContentKept [linkedPair] spool (overlay decoded) (items.map Item.entryOf) := by
  obtain ⟨bytes, hbytes⟩ : ∃ bytes, runBlocking [linkedPair] = .ok bytes := ⟨_, rfl⟩
  obtain ⟨decoded, spool, items, hdec, -, hwrite, hkept, -⟩ := flatten_content_iff
    (fun layer hmem => mem_singleton.1 hmem ▸ linkedPair_oneBody) hbytes
  obtain ⟨rfl, rfl⟩ := Prod.mk.inj (Except.ok.inj hdec)
  refine ⟨_, _, bytes, items, rfl, hbytes, hwrite, (hkept (by decide)).2 ?_⟩
  rintro metadata ⟨p, hp⟩ - -
  refine ⟨_, ⟨utf8 "a", rfl⟩, by decide, ?_, by decide⟩
  have hmem := mem_toList_iff_getElem?_eq_some.2 hp
  rcases mem_cons.1 hmem with heq | hmem
  · cases heq
    rfl
  · cases mem_singleton.1 hmem
    rfl

def carrierRemoved : List Layer := [linkedPair, layerOf [plainEntry ".wh.a" 0o100644] (by decide)]

def carrierRemovedItems : List Item :=
  [.streaming { trailer with name := utf8 "b", mode := 0o100644, devMajor := 1, ino := 1 } 0 []]

theorem carrierRemoved_content :
    ∃ decoded spool bytes, decodeLayers 0 carrierRemoved [] = .ok (decoded, spool) ∧
      runBlocking carrierRemoved = .ok bytes ∧ writeArchive carrierRemovedItems = .ok bytes ∧
      ¬ ContentKept carrierRemoved spool (overlay decoded)
        (carrierRemovedItems.map Item.entryOf) := by
  refine ⟨_, _, _, rfl, rfl, rfl, fun h => ?_⟩
  obtain ⟨metadata, layer, entry, hget, hcontrib, heq⟩ :=
    h _ (mem_map_of_mem mem_cons_self) (by decide)
  obtain rfl := some.inj hget
  obtain rfl := some.inj hcontrib.layer_eq
  rcases mem_cons.1 hcontrib.mem with rfl | hmem
  · exact absurd heq (by decide)
  · obtain rfl := mem_singleton.1 hmem
    exact absurd heq (by decide)

end Jyth.Image
