import Jyth.Image.FlattenContent

/-!
# The records of hard links

What `flatten` writes for a state of fewer than `2 ^ 32 - 1` entries: records
share an identity exactly when they were links to one file of one layer, the
link count of a record is the number of records with its identity, and of each
group one record carries a body, the largest of the group.
-/

namespace Jyth.Image

open Format List Metadata Std.ExtTreeMap

/-! ## Emission succeeds -/

variable {metadata : Metadata}

section
variable {layers : List Layer} {spool : Spool} {state : PathMap Metadata}

theorem exists_emitItem {layer : Layer} {entry : Entry}
    (hfrom : Contributes layers spool metadata layer entry) (plan : HardlinkPlan) (p : Bytes) :
    ∃ item, emitItem plan spool p metadata = .ok item ∧ item.BodyOk := by
  have hsize := layer.sizes entry hfrom.mem
  by_cases hreg : metadata.isRegular = true
  · obtain ⟨range, hbody, hlen⟩ := hfrom.length_contentIn hreg
    have hslice : contentIn spool metadata = spool.slice range := by
      simp only [contentIn, hbody]
    rw [hslice] at hlen
    simp only [emitItem, hbody]
    split
    · refine ⟨_, rfl, Source.clean_ofBytes _ _, ?_⟩
      rw [Source.bytes_ofBytes, hlen]
    · exact ⟨_, rfl, Nat.two_pow_pos 32⟩
  · obtain ⟨path, before, after, hdec, -⟩ := hfrom.decodes
    obtain ⟨normalized, -, ⟨wh, -, heq, -⟩ | ⟨-, metadata', heq, hmeta⟩⟩ := decodeEntry_eq_ok.1 hdec
    · cases heq
    cases heq
    obtain ⟨body, hof, hcases⟩ := decodeEntryMetadata_eq_ok hmeta
    have hmode : metadata.mode = entry.mode := congrArg mode hof
    have hbody : metadata.body = body := congrArg Metadata.body hof
    rcases hcases with ⟨hfile, -⟩ | ⟨-, -, rfl⟩ | ⟨-, -, -, rfl⟩
    · rw [isRegular, hmode] at hreg
      exact absurd (decide_eq_true hfile) hreg
    · have hfits : ¬ 2 ^ 32 ≤ entry.body.length := by omega
      have htoNat : (UInt32.ofNat entry.body.length).toNat = entry.body.length := by
        rw [UInt32.toNat_ofNat', Nat.mod_eq_of_lt hsize]
      simp only [emitItem, hbody, if_neg hfits]
      refine ⟨_, rfl, Source.clean_ofBytes _ _, ?_⟩
      rw [Source.bytes_ofBytes, htoNat]
    · simp only [emitItem, hbody]
      exact ⟨_, rfl, Nat.two_pow_pos 32⟩

theorem exists_forall₂ {α β : Type} {R : α → β → Prop} {as : List α} (h : ∀ a ∈ as, ∃ b, R a b) :
    ∃ bs, List.Forall₂ R as bs := by
  induction as with
  | nil => exact ⟨[], .nil⟩
  | cons a as ih =>
    obtain ⟨hhead, hrest⟩ := forall_mem_cons.1 h
    obtain ⟨b, hb⟩ := hhead
    obtain ⟨bs, hbs⟩ := ih hrest
    exact ⟨b :: bs, .cons hb hbs⟩

theorem exists_emits (hstate : buildState layers = .ok (state, spool)) :
    ∃ items bytes, Emits state spool items ∧ emit state spool = .ok bytes ∧
      writeArchive items = .ok bytes := by
  obtain ⟨decoded, hdec, rfl⟩ := buildState_eq_ok.1 hstate
  have hitem : ∀ entry ∈ (overlay decoded).toList, ∃ item,
      emitItem (planHardlinks (overlay decoded)) spool entry.1 entry.2 = .ok item ∧ item.BodyOk := by
    intro entry hentry
    obtain ⟨layer, source, hfrom⟩ :=
      exists_contributor hdec (mem_toList_iff_getElem?_eq_some.1 hentry)
    exact exists_emitItem hfrom _ _
  obtain ⟨items, hitems⟩ := exists_forall₂ hitem
  have hemits : Emits (overlay decoded) spool items := hitems.imp fun _ _ h => h.1
  have hbody : ∀ item ∈ items, item.BodyOk := fun item hmem =>
    (exists_left_of_forall₂ hitems hmem).choose_spec.2.2
  have hwrite : writeArchive items = .ok (items.flatMap Item.bytes ++ (Item.entry trailer).bytes) := by
    rw [writeArchive, writeItems_eq [] items hbody]
    exact writeEntry_eq _ trailer (Nat.two_pow_pos 32)
  exact ⟨items, _, hemits, emit_eq_ok.2 ⟨items, hemits, hwrite⟩, hwrite⟩

end

/-! ## Identities and link counts -/

def Record.identity (record : Record) : UInt32 × UInt32 × UInt32 :=
  (record.devMajor, record.devMinor, record.ino)

/-- Regular files with more than one link that were one file of one layer. -/
structure LinkedInSource (metadata metadata' : Metadata) : Prop where
  regular : metadata.isRegular = true ∧ metadata'.isRegular = true
  linked : 1 < metadata.nlinkSource ∧ 1 < metadata'.nlinkSource
  layer : metadata.sourceLayer = metadata'.sourceLayer
  dev : metadata.devMajor = metadata'.devMajor
  ino : metadata.ino = metadata'.ino

theorem isGrouped_iff :
    metadata.isGrouped = true ↔ metadata.isRegular = true ∧ 1 < metadata.nlinkSource := by
  rw [isGrouped, Bool.and_eq_true, Bool.not_eq_true', decide_eq_false_iff_not, UInt32.not_le]

theorem linkedInSource_iff {metadata metadata' : Metadata} :
    LinkedInSource metadata metadata' ↔ metadata.isGrouped = true ∧ metadata'.isGrouped = true ∧
      metadata.linkKey = metadata'.linkKey := by
  rw [isGrouped_iff, isGrouped_iff, linkKey, linkKey, Prod.mk.injEq, Prod.mk.injEq]
  constructor
  · rintro ⟨⟨hreg, hreg'⟩, ⟨hlink, hlink'⟩, hlayer, hdev, hino⟩
    exact ⟨⟨hreg, hlink⟩, ⟨hreg', hlink'⟩, hlayer, hdev, hino⟩
  · rintro ⟨⟨hreg, hlink⟩, ⟨hreg', hlink'⟩, hlayer, hdev, hino⟩
    exact ⟨⟨hreg, hreg'⟩, ⟨hlink, hlink'⟩, hlayer, hdev, hino⟩

/-- The item is the record of the path. -/
structure RecordAt (state : PathMap Metadata) (spool : Spool) (p : Bytes) (metadata : Metadata)
    (item : Item) : Prop where
  entry : state[p]? = some metadata
  emitted : emitItem (planHardlinks state) spool p metadata = .ok item

instance (p : Bytes) (metadata : Metadata) (q : Bytes) (metadata' : Metadata) :
    Decidable (SameFile p metadata q metadata') := inferInstanceAs (Decidable (_ ∨ _))

theorem countP_eq_of_forall₂ {α β : Type} {R : α → β → Prop} {f : α → Bool} {g : β → Bool}
    {as : List α} {bs : List β} (h : List.Forall₂ R as bs) (hfg : ∀ a b, R a b → f a = g b) :
    as.countP f = bs.countP g := by
  induction h with
  | nil => rfl
  | cons hab _ ih => rw [countP_cons, countP_cons, ih, hfg _ _ hab]

section
variable {state : PathMap Metadata} {p : Bytes} {metadata : Metadata}
  (hp : state[p]? = some metadata)
include hp

theorem countP_sameFile_of_grouped (hg : metadata.isGrouped = true) :
    (state.toList.countP fun entry => decide (SameFile p metadata entry.1 entry.2)) =
      (membersOf state metadata.linkKey).length := by
  rw [membersOf, Buckets.bucket, length_map, ← countP_eq_length_filter]
  refine countP_congr fun entry hentry => ?_
  have hget := mem_toList_iff_getElem?_eq_some.1 hentry
  rw [Bool.and_eq_true, decide_eq_true_eq, decide_eq_true_eq, SameFile]
  constructor
  · rintro (rfl | ⟨-, hg', hkey⟩)
    · rw [← Option.some.inj (hp.symm.trans hget)]
      exact ⟨hg, rfl⟩
    · exact ⟨hg', hkey.symm⟩
  · rintro ⟨hg', hkey⟩
    exact .inr ⟨hg, hg', hkey.symm⟩

theorem countP_sameFile_of_single (hg : ¬ metadata.isGrouped = true) :
    (state.toList.countP fun entry => decide (SameFile p metadata entry.1 entry.2)) = 1 := by
  have hcount : (state.toList.countP fun entry => decide (SameFile p metadata entry.1 entry.2)) =
      state.keys.count p := by
    rw [← map_fst_toList_eq_keys, List.count, countP_map]
    refine countP_congr fun entry _ => ?_
    rw [decide_eq_true_eq, SameFile, Function.comp_apply, beq_iff_eq]
    exact ⟨fun h => (h.resolve_right fun h => hg h.1).symm, fun h => .inl h.symm⟩
  have hmem : p ∈ state.keys := by
    rw [Std.ExtTreeMap.mem_keys, Std.ExtTreeMap.mem_iff_isSome_getElem?, hp]
    rfl
  rw [hcount, count_eq_one_of_mem nodup_keys hmem]

end

section
variable {spool : Spool} {state : PathMap Metadata} {items : List Item} {p q : Bytes}
  {metadata metadata' : Metadata} {item item' : Item} (hsize : state.size < 2 ^ 32 - 1)
include hsize

theorem identity_eq_iff (h : RecordAt state spool p metadata item)
    (h' : RecordAt state spool q metadata' item') :
    item.record.identity = item'.record.identity ↔ SameFile p metadata q metadata' := by
  rw [← assignmentFor_eq_iff hsize h.entry h'.entry, emitItem_record h.emitted,
    emitItem_record h'.emitted, Prod.ext_iff]
  simp [Record.identity, buildRecord, Prod.ext_iff]

theorem toNat_nlinkFor (hp : state[p]? = some metadata) : ((planHardlinks state).nlinkFor p).toNat =
      state.toList.countP fun entry => decide (SameFile p metadata entry.1 entry.2) := by
  rw [nlinkFor_eq hsize hp, lotOf]
  by_cases hg : metadata.isGrouped = true
  · have hle := length_membersOf_le state metadata.linkKey
    rw [if_pos hg, groupLot, length_insertionSort, UInt32.toNat_ofNat',
      countP_sameFile_of_grouped hp hg]
    exact Nat.mod_eq_of_lt (by omega)
  · rw [if_neg hg, countP_sameFile_of_single hp hg]
    rfl

theorem toNat_nlink (hemits : Emits state spool items) (h : RecordAt state spool p metadata item) :
    item.record.nlink.toNat =
      items.countP fun other => other.record.identity = item.record.identity := by
  have hnlink : item.record.nlink = (planHardlinks state).nlinkFor p := by
    rw [emitItem_record h.emitted]
    rfl
  have hmem : List.Forall₂ (fun entry item => RecordAt state spool entry.1 entry.2 item)
      state.toList items := by
    refine ((forall₂_and_left _ _).2 ⟨fun entry hentry => hentry, hemits⟩).imp ?_
    rintro entry item ⟨hentry, hitem⟩
    exact ⟨mem_toList_iff_getElem?_eq_some.1 hentry, hitem⟩
  rw [hnlink, toNat_nlinkFor hsize h.entry]
  refine countP_eq_of_forall₂ hmem fun entry other hat => ?_
  rw [decide_eq_decide, eq_comm, identity_eq_iff hsize h hat]

end

/-- **Hard-link records.**  A flattened state with fewer than `2 ^ 32 - 1` entries
is written; two of the records share an identity exactly when they were links to
one file of one layer, every link count is the number of records of the identity,
and in each group one record carries a body, which is the largest of the group. -/
theorem hardlink_records {layers : List Layer} {state : PathMap Metadata} {spool : Spool}
    (hstate : buildState layers = .ok (state, spool)) (hsize : state.size < 2 ^ 32 - 1) :
    ∃ items bytes, Emits state spool items ∧ emit state spool = .ok bytes ∧
      writeArchive items = .ok bytes ∧
      (∀ item, item ∈ items ↔ ∃ p metadata, RecordAt state spool p metadata item) ∧
      (∀ p q metadata metadata' item item', RecordAt state spool p metadata item →
        RecordAt state spool q metadata' item' → p ≠ q →
        (item.record.identity = item'.record.identity ↔ LinkedInSource metadata metadata')) ∧
      (∀ item ∈ items, item.record.nlink.toNat =
        items.countP fun other => other.record.identity = item.record.identity) ∧
      ∀ (p : Bytes) (metadata : Metadata), state[p]? = some metadata → metadata.isGrouped = true →
        ∃ (c : Bytes) (carrier : Metadata), state[c]? = some carrier ∧ LinkedInSource metadata carrier ∧
          ∀ q metadata' item, RecordAt state spool q metadata' item →
            LinkedInSource metadata metadata' → bodySizeOf metadata' ≤ bodySizeOf carrier ∧
              item.body = if q = c then contentIn spool carrier else [] := by
  obtain ⟨items, bytes, hemits, hemit, hwrite⟩ := exists_emits hstate
  obtain ⟨decoded, hdec, rfl⟩ := buildState_eq_ok.1 hstate
  have hmem : ∀ item, item ∈ items ↔
      ∃ p metadata, RecordAt (overlay decoded) spool p metadata item := by
    intro item
    rw [hemits.mem_iff]
    exact exists_congr fun p => exists_congr fun metadata =>
      ⟨fun h => ⟨h.1, h.2⟩, fun h => ⟨h.entry, h.emitted⟩⟩
  refine ⟨items, bytes, hemits, hemit, hwrite, hmem, ?_, ?_, ?_⟩
  · intro p q metadata metadata' item item' h h' hne
    rw [identity_eq_iff hsize h h', linkedInSource_iff]
    exact ⟨fun hsame => hsame.resolve_left hne, .inr⟩
  · intro item hitem
    obtain ⟨p, metadata, hat⟩ := (hmem item).1 hitem
    exact toNat_nlink hsize hemits hat
  · intro p metadata hp hg
    obtain ⟨c, carrier, hc, hsame, hall⟩ := assignmentFor_canonical hsize hp
    obtain ⟨hg', hkey⟩ := hsame.linkKey_eq hp hc hg
    refine ⟨c, carrier, hc, linkedInSource_iff.2 ⟨hg, hg', hkey.symm⟩, ?_⟩
    intro q metadata' item hat hlinked
    obtain ⟨hcanonical, hlargest⟩ := hall q metadata' hat.entry (.inr (linkedInSource_iff.1 hlinked))
    obtain ⟨layer, entry, hfrom⟩ := exists_contributor hdec hat.entry
    refine ⟨hlargest, ?_⟩
    rw [emitItem_body hfrom hlinked.regular.2 hat.emitted]
    by_cases hqc : q = c
    · subst hqc
      rw [if_pos (hcanonical.2 rfl), if_pos rfl, Option.some.inj (hat.entry.symm.trans hc)]
    · rw [if_neg fun h => hqc (hcanonical.1 h), if_neg hqc]

/-- In `linkedPair` both records are counted. -/
theorem linkedPair_records : ∃ (state : PathMap Metadata) (spool : Spool) (items : List Item),
      buildState [linkedPair] = .ok (state, spool) ∧ Emits state spool items ∧
      ∀ item ∈ items, item.record.nlink.toNat =
        items.countP fun other => other.record.identity = item.record.identity := by
  obtain ⟨items, bytes, hemits, -, -, -, -, hcount, -⟩ :=
    hardlink_records (show buildState [linkedPair] = .ok (_, _) from rfl) (by decide)
  exact ⟨_, _, items, rfl, hemits, hcount⟩

end Jyth.Image
