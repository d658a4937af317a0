import Jyth.Image.ArchiveNames

/-!
# Missing link targets

When `convert` fails for want of a hard link's target: every member can be read
and written (`Convertible`), and some link leads to a path that no member has other
than hard links (`missing_target_iff`).  Success does not depend on the order of the
hash maps.
-/

namespace Jyth.Image.Cpio

open Format List LinkPlanner

/-- The error of the last check. -/
def missingTargets (targets : String) : Report :=
  ⟨.invalidTar, some ("hardlink target(s) not present in tar: " ++ targets)⟩

/-! ## Other errors -/

/-- An error other than missing targets. -/
def Otherwise (report : Report) : Prop := ∀ targets, report ≠ missingTargets targets

variable {context : OperationError}

theorem otherwise_of_context {attachment : Option String}
    (h : context ≠ .invalidTar) : Otherwise ⟨context, attachment⟩ :=
  fun _ heq => h (congrArg Report.context heq)

theorem otherwise_of_none : Otherwise ⟨context, none⟩ := by
  rintro targets ⟨⟩

theorem otherwise_of_message {s : String}
    (h : s.toList.take 8 ≠ "hardlink".toList) : Otherwise ⟨context, some s⟩ := by
  intro targets heq
  have hs : s = "hardlink target(s) not present in tar: " ++ targets :=
    Option.some.inj (congrArg Report.attachment heq)
  refine h ?_
  rw [hs, String.toList_append]
  rfl

theorem otherwise_of_append {s t : String}
    (hlen : 8 ≤ s.toList.length) (h : s.toList.take 8 ≠ "hardlink".toList) :
    Otherwise ⟨context, some (s ++ t)⟩ := by
  refine otherwise_of_message ?_
  rw [String.toList_append, take_append_of_le_length hlen]
  exact h

theorem otherwise_unsafePath (message : String) : Otherwise (unsafePath message) :=
  otherwise_of_context (by decide)

variable (snapshot : TarHeaderSnapshot)

theorem otherwise_unsupportedType :
    Otherwise (unsupportedType snapshot) := otherwise_of_context (by decide)

theorem otherwise_changedBetweenPasses_entries : Otherwise (changedBetweenPasses "entries") :=
  otherwise_of_message (by decide)

theorem otherwise_changedBetweenPasses_contents : Otherwise (changedBetweenPasses "contents") :=
  otherwise_of_message (by decide)

/-! The steps of the two passes, from the bottom up. -/

theorem fails_walkSegments (raw out : Bytes) (segments : List Bytes) :
    Fails Otherwise (walkSegments raw out segments) := by
  induction segments generalizing out with
  | nil => exact .pure out
  | cons segment segments ih =>
    rw [walkSegments]
    split_ifs
    all_goals first
      | exact .error (otherwise_unsafePath _)
      | exact ih _

theorem fails_normalizePath (raw : Bytes) : Fails Otherwise (normalizePath raw) := by
  unfold normalizePath
  refine (Fails.failIf (otherwise_unsafePath _)).bind fun _ =>
    (Fails.failIf (otherwise_unsafePath _)).bind fun _ =>
      (Fails.failIf (otherwise_unsafePath _)).bind fun _ => ?_
  simp only
  split_ifs
  · exact .pure _
  · exact .pure _
  · exact (fails_walkSegments _ _ _).bind fun out =>
      (Fails.failIf (otherwise_unsafePath _)).bind fun _ => .pure _

theorem fails_checkUtf8 (bytes : Bytes) : Fails Otherwise (checkUtf8 bytes) := by
  unfold checkUtf8
  split
  · exact .ok _
  · exact .error otherwise_of_none

theorem fails_fitU32 (field : String) (value : UInt64) : Fails Otherwise (fitU32 field value) := by
  unfold fitU32
  split
  · exact .ok _
  · exact .error (otherwise_of_context (by decide))

theorem fails_snapshotLinkName (entry : TarEntry) : Fails Otherwise (snapshotLinkName entry) := by
  unfold snapshotLinkName
  split
  · split
    · exact .error (otherwise_of_message (by decide))
    · exact (fails_checkUtf8 _).bind fun _ => (fails_normalizePath _).bind fun _ => .pure _
  · exact .ok _

theorem fails_snapshotEntry (entry : TarEntry) : Fails Otherwise (snapshotEntry entry) :=
  (fails_checkUtf8 _).bind fun _ => (fails_normalizePath _).bind fun _ =>
    (fails_snapshotLinkName _).bind fun _ => (fails_fitU32 _ _).bind fun _ =>
      (fails_fitU32 _ _).bind fun _ => (fails_fitU32 _ _).bind fun _ => .pure _

theorem fails_modeAndBody : Fails Otherwise (modeAndBody snapshot) := by
  unfold modeAndBody
  cases snapshot.entryType with
  | regular | continuous =>
    simp only
    split
    · exact .error (otherwise_of_context (by decide))
    · exact .ok _
  | symlink =>
    simp only
    split
    · exact .ok _
    · refine .error ?_
      rw [String.append_assoc]
      exact otherwise_of_append (by decide) (by decide)
  | directory | link | char | block | fifo => exact .ok _
  | gnuLongName | gnuLongLink | gnuSparse | xGlobalHeader | xHeader | other =>
    exact .error (otherwise_unsupportedType snapshot)

theorem fails_buildRecord (identity : Option LinkId)
    (nlink : UInt32) : Fails Otherwise (buildRecord snapshot identity nlink) := by
  have hid : Fails Otherwise (plannedIdentity snapshot identity) := by
    cases identity with
    | none => exact .error (otherwise_of_append (by decide) (by decide))
    | some id => exact .ok id
  exact hid.bind fun id => (Fails.failIf (otherwise_unsupportedType snapshot)).bind fun _ =>
    (fails_modeAndBody snapshot).bind fun _ => .pure _

theorem fails_memberItem (plan : LinkPlan) (live : TarHeaderSnapshot) (reader : Source String) :
    Fails Otherwise (memberItem plan live reader) := by
  refine (fails_buildRecord _ _ _).bind fun record => ?_
  split_ifs
  · exact .error (otherwise_of_context (by decide))
  · exact .pure _
  · exact .pure _

theorem fails_deferredItem (plan : LinkPlan) (headers : List TarHeaderSnapshot) (link : Bytes) :
    Fails Otherwise (deferredItem plan headers link) := by
  unfold deferredItem
  split
  · exact (fails_buildRecord _ _ _).map _
  · exact .error otherwise_of_none

theorem fails_writeEntry (w : TempWriter) (record : Record) :
    Fails Otherwise (writeEntry w record) := by
  unfold writeEntry
  simp only
  split
  · exact (Fails.ok _).bind fun _ => .pure _
  · split
    · exact .error (otherwise_of_context (by decide))
    · exact (Fails.ok _).bind fun _ => .pure _

theorem fails_copyLoop (fuel remaining : Nat) (w : TempWriter) (reader : Source String) :
    Fails Otherwise (copyLoop fuel remaining w reader) := by
  induction fuel generalizing remaining w reader with
  | zero => exact .ok _
  | succ fuel ih =>
    rw [copyLoop]
    by_cases hdone : remaining = 0
    · rw [if_pos hdone]
      exact .ok _
    rw [if_neg hdone]
    cases reader.read (min (64 * 1024) remaining) with
    | mk result reader =>
      cases result with
      | error err => exact .error (otherwise_of_context (by decide))
      | ok bytes =>
        dsimp only
        by_cases hnil : bytes.length = 0
        · rw [if_pos hnil, String.append_assoc]
          exact .error (otherwise_of_append (by decide) (by decide))
        · rw [if_neg hnil]
          exact ih _ _ _

theorem fails_writeItem (w : TempWriter) (item : Item) : Fails Otherwise (writeItem w item) := by
  cases item with
  | entry record => exact fails_writeEntry w record
  | streaming record size reader =>
    exact ((fails_copyLoop _ _ _ _).bind fun _ => .pure _).map _

theorem fails_drain (reader : Source String) : Fails Otherwise (drain reader) := by
  induction reader with
  | nil => exact .ok ()
  | cons chunk reader ih =>
    cases chunk with
    | data => exact ih
    | fault err => exact .error (otherwise_of_context (by decide))

theorem fails_convertStep (plan : LinkPlan) (headers : List TarHeaderSnapshot)
    (progress : Progress) (entry : TarEntry) :
    Fails Otherwise (convertStep plan headers progress entry) := by
  refine (fails_snapshotEntry entry).bind fun live => ?_
  split
  · exact .error otherwise_changedBetweenPasses_entries
  refine (Fails.failIf otherwise_changedBetweenPasses_contents).bind fun _ => ?_
  split
  · exact (fails_drain _).bind fun _ => .pure _
  refine (fails_memberItem _ _ _).bind fun item => (fails_writeItem _ _).bind fun writer => ?_
  split
  · exact .pure _
  · exact (Fails.foldlM (fun writer path => (fails_deferredItem _ _ path).bind
      fun item => fails_writeItem writer item) _ _).bind fun _ => .pure _

/-! ## What the planner leaves over -/

namespace LinkPlanner

variable (planner : LinkPlanner)

theorem groups_planTarget (target : Bytes) :
    (planner.planTarget target).groups = planner.groups.erase target := by
  rw [planTarget]
  cases hget : planner.groups[target]? with
  | none => exact (erase_of_getElem?_none hget).symm
  | some members => rfl

theorem groups_foldl_planTarget (keys : List Bytes) : (keys.foldl planTarget planner).groups =
      keys.foldl (fun groups key => groups.erase key) planner.groups := by
  induction keys generalizing planner with
  | nil => rfl
  | cons key keys ih => rw [foldl_cons, ih, groups_planTarget, foldl_cons]

theorem missing_planTarget (target : Bytes) :
    (planner.planTarget target).plan.missing = planner.plan.missing := by
  rw [planTarget]
  split <;> rfl

theorem missing_foldl_planTarget (keys : List Bytes) :
    (keys.foldl planTarget planner).plan.missing = planner.plan.missing := by
  induction keys generalizing planner with
  | nil => rfl
  | cons key keys ih => rw [foldl_cons, ih, missing_planTarget]

theorem missing_foldl_planMissing (keys : List Bytes) :
    (keys.foldl planMissing planner).plan.missing = planner.plan.missing ++ keys := by
  induction keys generalizing planner with
  | nil => exact (append_nil _).symm
  | cons key keys ih =>
    rw [foldl_cons, ih]
    exact append_assoc _ [key] keys

theorem missing_foldl_planOther (headers : List TarHeaderSnapshot) :
    (headers.foldl planOther planner).plan.missing = planner.plan.missing := by
  induction headers generalizing planner with
  | nil => rfl
  | cons header headers ih =>
    rw [foldl_cons, ih, planOther]
    split <;> rfl

end LinkPlanner

variable {headers : List TarHeaderSnapshot} {target : Bytes}

theorem mem_missing_planLinks {hash : KeyOrder} : target ∈ (planLinks hash headers).missing ↔
      linksTo headers target ≠ [] ∧ target ∉ knownTargets headers := by
  rw [planLinks, missing_foldl_planOther, missing_foldl_planMissing,
    missing_foldl_planTarget, nil_append, (hash.perm _).mem_iff,
    Std.ExtTreeMap.mem_keys, Std.ExtTreeMap.mem_iff_isSome_getElem?,
    groups_foldl_planTarget, getElem?_foldl_erase, ne_eq, ← collectLinks_eq_none,
    ← ne_eq, ← Option.isSome_iff_ne_none]
  split <;> simp [*]

theorem planLinks_congr
    (hknown : ∀ link ∈ headers, link.isHardLink = true → link.target ∈ knownTargets headers)
    (hash hash' : KeyOrder) : planLinks hash headers = planLinks hash' headers := by
  have hnone : ((knownTargets headers).foldl planTarget (.start headers)).groups = ∅ := by
    refine Std.ExtTreeMap.ext_getElem? fun p => ?_
    rw [groups_foldl_planTarget, getElem?_foldl_erase, Std.ExtTreeMap.getElem?_empty]
    split
    · rfl
    rename_i hp
    refine collectLinks_eq_none.2 (by_contra fun hne => hp ?_)
    obtain ⟨q, hq⟩ := exists_mem_of_ne_nil _ hne
    obtain ⟨link, hmem, hlink, rfl, -⟩ := mem_linksTo.1 hq
    exact hknown link hmem hlink
  have horder : ∀ order : KeyOrder, planLinks order headers = (headers.foldl planOther
      ((knownTargets headers).foldl planTarget (.start headers))).plan := by
    intro order
    have hkeys : order.order (∅ : PathMap (List Bytes)).keys = [] := (order.perm _).eq_nil
    show (headers.foldl planOther ((order.order ((knownTargets headers).foldl
      planTarget (.start headers)).groups.keys).foldl planMissing _)).plan = _
    rw [hnone, hkeys]
    rfl
  rw [horder hash, horder hash']

/-! ## The second pass -/

theorem convertStep_planned {plan : LinkPlan} {progress next : Progress} {entry : TarEntry}
    (h : convertStep plan headers progress entry = .ok next) :
    progress.planned.length = next.planned.length + 1 ∧ next.missing ⊆ progress.missing := by
  rw [convertStep, bind_eq_ok] at h
  obtain ⟨live, -, h⟩ := h
  split at h
  · cases h
  rename_i planned rest hplanned
  rw [hplanned, length_cons]
  rw [check_bind_eq_ok] at h
  obtain ⟨-, h⟩ := h
  split at h
  · rw [check_bind_eq_ok, pure_eq_ok] at h
    rw [← h.2]
    exact ⟨rfl, List.Subset.refl _⟩
  · obtain ⟨item, -, h⟩ := bind_eq_ok.1 h
    obtain ⟨writer, -, h⟩ := bind_eq_ok.1 h
    split at h
    · rw [pure_eq_ok] at h
      rw [← h]
      exact ⟨rfl, List.Subset.refl _⟩
    · obtain ⟨writer', -, h⟩ := bind_eq_ok.1 h
      rw [pure_eq_ok] at h
      rw [← h]
      exact ⟨rfl, filter_subset_self _⟩

theorem foldlM_convertStep_planned {plan : LinkPlan} {tar : List TarEntry}
    {progress final : Progress} (h : tar.foldlM (convertStep plan headers) progress = .ok final) :
    progress.planned.length = final.planned.length + tar.length ∧
      final.missing ⊆ progress.missing := by
  induction tar generalizing progress with
  | nil =>
    obtain rfl := Except.ok.inj h
    exact ⟨rfl, List.Subset.refl _⟩
  | cons entry tar ih =>
    rw [foldlM_cons, bind_eq_ok] at h
    obtain ⟨next, hnext, h⟩ := h
    obtain ⟨hlen, hsub⟩ := convertStep_planned hnext
    obtain ⟨hlen', hsub'⟩ := ih h
    refine ⟨?_, List.Subset.trans hsub' hsub⟩
    rw [hlen, hlen', length_cons]
    omega

/-! ## Members that are read and written -/

/-- The body of a link is read to its end; a file fits the archive and its bytes arrive; a symlink
has a target. -/
def Convertible (header : TarHeaderSnapshot) (reader : Source String) : Prop :=
  match header.entryType with
  | .link => drain reader = .ok ()
  | .regular | .continuous => header.size.toNat < 2 ^ 32 ∧
      ∃ copied, copyExactly reader [] (UInt32.ofNat header.size.toNat) = .ok copied
  | .symlink => ∃ target, header.symlinkTarget = some target ∧ target.length < 2 ^ 32
  | .directory | .char | .block | .fifo => True
  | _ => False

theorem copyLoop_ok_iff (fuel remaining : Nat) (w w' : TempWriter) (reader : Source String) :
    (∃ copied, copyLoop fuel remaining w reader = .ok copied) ↔
      ∃ copied, copyLoop fuel remaining w' reader = .ok copied := by
  induction fuel generalizing remaining w w' reader with
  | zero => exact iff_of_true ⟨_, rfl⟩ ⟨_, rfl⟩
  | succ fuel ih =>
    simp only [copyLoop]
    by_cases hdone : remaining = 0
    · simp [hdone]
    · simp only [if_neg hdone]
      cases reader.read (min (64 * 1024) remaining) with
      | mk result reader =>
        cases result with
        | error err => simp
        | ok bytes =>
          by_cases hnil : bytes.length = 0
          · simp [hnil]
          · simpa only [if_neg hnil] using ih _ _ _ _

theorem writeItem_entry_ok_iff (w : TempWriter) (record : Record) :
    (∃ w', writeItem w (.entry record) = .ok w') ↔ record.body.bytes.length < 2 ^ 32 :=
  ⟨fun ⟨_, h⟩ => (writeItem_eq_ok h).2, fun h => ⟨_, writeEntry_eq w record h⟩⟩

theorem writeItem_streaming_ok_iff (w : TempWriter) (record : Record) (size : UInt32)
    (reader : Source String) : (∃ w', writeItem w (.streaming record size reader) = .ok w') ↔
      ∃ copied, copyExactly reader [] size = .ok copied := by
  rw [copyExactly, copyLoop_ok_iff _ _ [] (w ++ encodeHeader record size (record.name.length + 1))]
  simp only [writeItem, writeStreamingEntry, copyExactly]
  cases copyLoop size.toNat size.toNat (w ++ encodeHeader record size (record.name.length + 1))
    reader with
  | error report =>
    refine iff_of_false ?_ ?_
    all_goals
      rintro ⟨_, h⟩
      cases h
  | ok copied => exact iff_of_true ⟨_, rfl⟩ ⟨_, rfl⟩

theorem modeAndBody_ok {header : TarHeaderSnapshot} {reader : Source String}
    (h : Convertible header reader) :
    ∃ result, modeAndBody header = .ok result ∧ result.2.bytes.length < 2 ^ 32 := by
  unfold Convertible at h
  cases htype : header.entryType with
  | regular | continuous =>
    rw [htype] at h
    simp only [modeAndBody, htype, if_neg (Nat.not_le.2 h.1)]
    exact ⟨_, rfl, Nat.two_pow_pos 32⟩
  | symlink =>
    rw [htype] at h
    obtain ⟨target, htarget, hlength⟩ := h
    simp only [modeAndBody, htype, htarget]
    exact ⟨_, rfl, hlength⟩
  | link | directory | char | block | fifo =>
    simp only [modeAndBody, htype]
    exact ⟨_, rfl, Nat.two_pow_pos 32⟩
  | gnuLongName | gnuLongLink | gnuSparse | xGlobalHeader | xHeader | other =>
    rw [htype] at h
    exact h.elim

theorem buildRecord_ok {header : TarHeaderSnapshot} {reader : Source String} (id : LinkId)
    (nlink : UInt32) (h : Convertible header reader) :
    ∃ record, buildRecord header (some id) nlink = .ok record ∧
      record.body.bytes.length < 2 ^ 32 := by
  obtain ⟨result, hmode, hlength⟩ := modeAndBody_ok h
  have hplain : ¬ (header.entryType = .xGlobalHeader ∨ header.entryType = .xHeader) := by
    rintro (htype | htype) <;> simp [modeAndBody, htype] at hmode
  exact ⟨_, bind_eq_ok.2 ⟨id, rfl, check_bind_eq_ok.2 ⟨failIf_eq_ok.2 hplain,
    bind_eq_ok.2 ⟨_, hmode, rfl⟩⟩⟩, hlength⟩

section Member

variable {plan : LinkPlan} {live : TarHeaderSnapshot} {reader : Source String}

theorem convertible_of_memberItem (hlink : live.isHardLink = false) {item : Item}
    {w w' : TempWriter} (hitem : memberItem plan live reader = .ok item)
    (hwrite : writeItem w item = .ok w') : Convertible live reader := by
  obtain ⟨record, hrecord, hitem⟩ := bind_eq_ok.1 hitem
  obtain ⟨_, -, hrecord⟩ := bind_eq_ok.1 hrecord
  obtain ⟨⟨mode, body⟩, hmode, hpure⟩ := bind_eq_ok.1 (check_bind_eq_ok.1 hrecord).2
  obtain rfl := pure_eq_ok.1 hpure
  unfold Convertible
  cases htype : live.entryType with
  | regular | continuous =>
    simp only [htype, true_or, or_true, if_true] at hitem
    split at hitem
    · cases hitem
    · next hsize =>
      obtain rfl := pure_eq_ok.1 hitem
      exact ⟨Nat.not_le.1 hsize, (writeItem_streaming_ok_iff _ _ _ _).1 ⟨w', hwrite⟩⟩
  | symlink =>
    simp only [htype, reduceCtorEq, or_self, if_false] at hitem
    obtain rfl := pure_eq_ok.1 hitem
    have hlength := (writeItem_entry_ok_iff _ _).1 ⟨w', hwrite⟩
    simp only [modeAndBody, htype] at hmode
    split at hmode
    · next target htarget =>
      cases hmode
      exact ⟨target, htarget, hlength⟩
    · cases hmode
  | link => simp [TarHeaderSnapshot.isHardLink, htype] at hlink
  | directory | char | block | fifo => trivial
  | gnuLongName | gnuLongLink | gnuSparse | xGlobalHeader | xHeader | other =>
    simp only [modeAndBody, htype] at hmode
    cases hmode

theorem memberItem_of_convertible {id : LinkId} (hid : plan.identityFor live.path = some id)
    (w : TempWriter) (h : Convertible live reader) :
    ∃ item w', memberItem plan live reader = .ok item ∧ writeItem w item = .ok w' := by
  obtain ⟨record, hrecord, hlength⟩ := buildRecord_ok id (plan.nlinkFor live.path) h
  unfold Convertible at h
  rw [memberItem, hid, hrecord]
  by_cases hfile : live.entryType = .regular ∨ live.entryType = .continuous
  · have hread : live.size.toNat < 2 ^ 32 ∧ ∃ copied,
        copyExactly reader [] (UInt32.ofNat live.size.toNat) = .ok copied := by
      rcases hfile with htype | htype <;> rwa [htype] at h
    obtain ⟨w', hwrite⟩ := (writeItem_streaming_ok_iff w record _ _).2 hread.2
    refine ⟨_, w', ?_, hwrite⟩
    simp only [bind, Except.bind, if_pos hfile, if_neg (Nat.not_le.2 hread.1)]
    rfl
  · obtain ⟨w', hwrite⟩ := (writeItem_entry_ok_iff w record).2 hlength
    refine ⟨_, w', ?_, hwrite⟩
    simp only [bind, Except.bind, if_neg hfile]
    rfl

/-- A member other than a link is written just if it can be converted. -/
theorem memberItem_ok_iff (hlink : live.isHardLink = false) {id : LinkId}
    (hid : plan.identityFor live.path = some id) (w : TempWriter) :
    (∃ item w', memberItem plan live reader = .ok item ∧ writeItem w item = .ok w') ↔
      Convertible live reader := by
  refine ⟨?_, memberItem_of_convertible hid w⟩
  rintro ⟨item, w', hitem, hwrite⟩
  exact convertible_of_memberItem hlink hitem hwrite

end Member

theorem identity_foldl_planOther {planner : LinkPlanner} {path : Bytes} {id : LinkId}
    (h : planner.plan.identity path = some id) (headers : List TarHeaderSnapshot) :
    (headers.foldl planOther planner).plan.identity path = some id := by
  induction headers generalizing planner with
  | nil => exact h
  | cons header headers ih => exact ih (identity_planOther planner header h)

theorem exists_identity_planLinks (hash : KeyOrder) {header : TarHeaderSnapshot}
    (hmem : header ∈ headers) : ∃ id, (planLinks hash headers).identityFor header.path = some id := by
  obtain ⟨front, rest, rfl⟩ := append_of_mem hmem
  suffices hplan : ∀ planner : LinkPlanner, ∃ id,
      ((front ++ header :: rest).foldl planOther planner).plan.identity header.path = some id from
    hplan _
  intro planner
  rw [foldl_append, foldl_cons]
  generalize front.foldl planOther planner = before
  have hplanned : ∃ id, (before.planOther header).plan.identity header.path = some id := by
    rw [planOther]
    split
    · next hsome => exact Option.isSome_iff_exists.1 hsome
    · exact ⟨before.fresh, by simp [Table.insert_apply]⟩
  obtain ⟨id, hid⟩ := hplanned
  exact ⟨id, identity_foldl_planOther hid rest⟩

section
variable {plan : LinkPlan} {headers : List TarHeaderSnapshot}
  (hid : ∀ header ∈ headers, ∃ id, plan.identityFor header.path = some id)
include hid

theorem convertStep_convertible {progress next : Progress} {entry : TarEntry}
    {live : TarHeaderSnapshot} (hlive : snapshotEntry entry = .ok live) (hmem : live ∈ headers)
    (h : convertStep plan headers progress entry = .ok next) : Convertible live entry.reader := by
  obtain ⟨live', hlive', h⟩ := bind_eq_ok.1 h
  obtain rfl := Except.ok.inj (hlive'.symm.trans hlive)
  split at h
  · cases h
  obtain ⟨-, h⟩ := check_bind_eq_ok.1 h
  cases hlink : live'.isHardLink with
  | true =>
    rw [hlink, if_pos rfl] at h
    have htype : live'.entryType = .link := by simpa [TarHeaderSnapshot.isHardLink] using hlink
    simpa only [Convertible, htype] using (check_bind_eq_ok.1 h).1
  | false =>
    rw [hlink, if_neg Bool.false_ne_true] at h
    obtain ⟨item, hitem, h⟩ := bind_eq_ok.1 h
    obtain ⟨writer, hwriter, -⟩ := bind_eq_ok.1 h
    obtain ⟨id, hplanned⟩ := hid live' hmem
    exact (memberItem_ok_iff hlink hplanned _).1 ⟨item, writer, hitem, hwriter⟩

variable (hall : ∀ header ∈ headers, ∃ reader, Convertible header reader)
include hall

theorem foldlM_deferred_ok {links : List Bytes}
    (hlinks : ∀ path ∈ links, path ∈ headers.map TarHeaderSnapshot.path) (writer : TempWriter) :
    ∃ writer', links.foldlM (fun writer path => do
      let item ← deferredItem plan headers path
      writeItem writer item) writer = .ok writer' := by
  induction links generalizing writer with
  | nil => exact ⟨writer, rfl⟩
  | cons path links ih =>
    obtain ⟨hpath, hrest⟩ := forall_mem_cons.1 hlinks
    obtain ⟨header, hmem, rfl⟩ := mem_map.1 hpath
    have hfound : (headers.find? fun other => other.path = header.path).isSome = true :=
      find?_isSome.2 ⟨header, hmem, by simp⟩
    obtain ⟨snapshot, hfind⟩ := Option.isSome_iff_exists.1 hfound
    obtain ⟨reader, hconvertible⟩ := hall snapshot (mem_of_find?_eq_some hfind)
    obtain ⟨id, hplanned⟩ := hid header hmem
    obtain ⟨record, hrecord, hlength⟩ :=
      buildRecord_ok id (plan.nlinkFor header.path) hconvertible
    obtain ⟨writer₁, hwrite⟩ := (writeItem_entry_ok_iff writer record).2 hlength
    obtain ⟨writer', hfold⟩ := ih hrest writer₁
    refine ⟨writer', ?_⟩
    rw [foldlM_cons]
    refine bind_eq_ok.2 ⟨writer₁, bind_eq_ok.2 ⟨.entry record, ?_, hwrite⟩, hfold⟩
    rw [deferredItem, hfind]
    simp only [hplanned, hrecord]
    rfl

/-- The links that wait have headers. -/
def Waiting (headers : List TarHeaderSnapshot) (pending : PathMap (List Bytes)) : Prop :=
  ∀ (target : Bytes) (links : List Bytes), pending[target]? = some links →
    ∀ path ∈ links, path ∈ headers.map TarHeaderSnapshot.path

theorem convertStep_ok {progress : Progress} {entry : TarEntry} {live : TarHeaderSnapshot}
    {rest : List TarHeaderSnapshot} (hlive : snapshotEntry entry = .ok live)
    (hmem : live ∈ headers) (hplanned : progress.planned = live :: rest)
    (hwaiting : Waiting headers progress.pending) (hconvertible : Convertible live entry.reader) :
    ∃ next, convertStep plan headers progress entry = .ok next ∧ next.planned = rest ∧
      Waiting headers next.pending := by
  rw [convertStep, hlive, hplanned]
  simp only [bind, Except.bind, ne_eq, not_true_eq_false, or_self, failIf, if_false]
  cases hlink : live.isHardLink with
  | true =>
    have htype : live.entryType = .link := by simpa [TarHeaderSnapshot.isHardLink] using hlink
    simp only [Convertible, htype] at hconvertible
    simp only [if_true, hconvertible]
    exact ⟨_, rfl, rfl, hwaiting⟩
  | false =>
    obtain ⟨id, hidentity⟩ := hid live hmem
    obtain ⟨item, writer, hitem, hwriter⟩ :=
      (memberItem_ok_iff hlink hidentity progress.writer).2 hconvertible
    simp only [Bool.false_eq_true, if_false, hitem, hwriter]
    cases hpending : progress.pending[live.path]? with
    | none => exact ⟨_, rfl, rfl, hwaiting⟩
    | some links =>
      obtain ⟨writer', hfold⟩ := foldlM_deferred_ok hid hall (hwaiting _ _ hpending) writer
      simp only [bind, Except.bind] at hfold
      simp only [hfold]
      refine ⟨_, rfl, rfl, fun target waiting hget => ?_⟩
      rw [getElem?_erase_path] at hget
      split at hget
      · cases hget
      · exact hwaiting target waiting hget

theorem foldlM_convertStep_ok {tar : List TarEntry} {lives : List TarHeaderSnapshot}
    (h : List.Forall₂ (fun entry live => snapshotEntry entry = .ok live ∧ live ∈ headers ∧
      Convertible live entry.reader) tar lives) {progress : Progress}
    (hplanned : progress.planned = lives) (hwaiting : Waiting headers progress.pending) :
    ∃ final, tar.foldlM (convertStep plan headers) progress = .ok final := by
  induction h generalizing progress with
  | nil => exact ⟨progress, rfl⟩
  | cons hentry _ ih =>
    obtain ⟨hlive, hmem, hconvertible⟩ := hentry
    obtain ⟨next, hstep, hrest, hwaiting'⟩ :=
      convertStep_ok hid hall hlive hmem hplanned hwaiting hconvertible
    obtain ⟨final, hfold⟩ := ih hrest hwaiting'
    exact ⟨final, by rw [foldlM_cons]; exact bind_eq_ok.2 ⟨next, hstep, hfold⟩⟩

omit hall

theorem convertible_of_foldlM {tar : List TarEntry} {lives : List TarHeaderSnapshot}
    (h : List.Forall₂ (fun entry live => snapshotEntry entry = .ok live ∧ live ∈ headers) tar lives)
    {progress final : Progress} (hfold : tar.foldlM (convertStep plan headers) progress = .ok final) :
    List.Forall₂ (fun entry live => Convertible live entry.reader) tar lives := by
  induction h generalizing progress with
  | nil => exact .nil
  | cons hentry _ ih =>
    rw [foldlM_cons] at hfold
    obtain ⟨next, hstep, hrest⟩ := bind_eq_ok.1 hfold
    exact .cons (convertStep_convertible hid hentry.1 hentry.2 hstep) (ih hrest)

end

/-- Both passes run through; what is left is the check of the targets. -/
structure BothPasses (hash : KeyOrder) (tar : List TarEntry) (headers : List TarHeaderSnapshot)
    (progress : Progress) : Prop where
  first : tar.mapM snapshotEntry = .ok headers
  second : tar.foldlM (convertStep (planLinks hash headers) headers)
    ⟨[], headers, (planLinks hash headers).pending, (planLinks hash headers).missing⟩ = .ok progress

section
variable {hash : KeyOrder} {tar : List TarEntry} {headers : List TarHeaderSnapshot}
  {progress : Progress}

theorem BothPasses.planned (h : BothPasses hash tar headers progress) : progress.planned = [] := by
  have hlen := (foldlM_convertStep_planned h.second).1
  have hheaders := (mapM_eq_ok.1 h.first).length_eq
  simp only at hlen
  exact length_eq_zero_iff.1 (by omega)

theorem bothPasses_iff (hash : KeyOrder) (hfirst : tar.mapM snapshotEntry = .ok headers) :
    (∃ progress, BothPasses hash tar headers progress) ↔
      List.Forall₂ (fun entry header => Convertible header entry.reader) tar headers := by
  have hid : ∀ header ∈ headers, ∃ id, (planLinks hash headers).identityFor header.path = some id :=
    fun header => exists_identity_planLinks hash
  have hsnapshots := mapM_eq_ok.1 hfirst
  have hlives : List.Forall₂ (fun entry live => snapshotEntry entry = .ok live ∧ live ∈ headers) tar
      headers :=
    forall₂_iff_get.2 ⟨hsnapshots.length_eq, fun i hi hj => ⟨hsnapshots.get hi hj, get_mem _ _⟩⟩
  constructor
  · rintro ⟨progress, h⟩
    exact convertible_of_foldlM hid hlives h.second
  · intro hconvertible
    have hall : ∀ header ∈ headers, ∃ reader, Convertible header reader := by
      intro header hmem
      obtain ⟨entry, -, hentry⟩ := exists_left_of_forall₂ hconvertible hmem
      exact ⟨entry.reader, hentry⟩
    have hboth : List.Forall₂ (fun entry live => snapshotEntry entry = .ok live ∧ live ∈ headers ∧
        Convertible live entry.reader) tar headers := by
      refine forall₂_iff_get.2 ⟨hlives.length_eq, fun i hi hj => ?_⟩
      exact ⟨(hlives.get hi hj).1, (hlives.get hi hj).2, hconvertible.get hi hj⟩
    have hwaiting : Waiting headers (planLinks hash headers).pending := by
      intro target links hlinks path hpath
      rw [pending_planLinks] at hlinks
      obtain ⟨rfl, -⟩ := collectLinks_eq_some.1 hlinks
      obtain ⟨header, hmem, -, -, rfl⟩ := mem_linksTo.1 hpath
      exact mem_map_of_mem hmem
    let start : Progress :=
      ⟨[], headers, (planLinks hash headers).pending, (planLinks hash headers).missing⟩
    obtain ⟨progress, hfold⟩ : ∃ progress,
        tar.foldlM (convertStep (planLinks hash headers) headers) start = .ok progress :=
      foldlM_convertStep_ok hid hall hboth rfl hwaiting
    exact ⟨progress, hfirst, hfold⟩

/-- A link whose target no member carries other than a link. -/
def DanglingLink (headers : List TarHeaderSnapshot) : Prop :=
  ∃ link ∈ headers, link.isHardLink = true ∧ link.target ∉ knownTargets headers

theorem danglingLink_of_group (hne : linksTo headers target ≠ [])
    (h : target ∉ knownTargets headers) : DanglingLink headers := by
  obtain ⟨p, hp⟩ := exists_mem_of_ne_nil _ hne
  obtain ⟨link, hmem, hlink, rfl, -⟩ := mem_linksTo.1 hp
  exact ⟨link, hmem, hlink, h⟩

section

variable (h : BothPasses hash tar headers progress)
include h

theorem BothPasses.mem_pending : target ∈ progress.pending.keys ↔
      linksTo headers target ≠ [] ∧ target ∉ knownTargets headers := by
  obtain ⟨-, -, -, hpending⟩ := foldlM_convertStep h.first h.second
  rw [Std.ExtTreeMap.mem_keys, Std.ExtTreeMap.mem_iff_isSome_getElem?, hpending,
    getElem?_foldl_erase, pending_planLinks, ne_eq, ← collectLinks_eq_none, ← ne_eq,
    ← Option.isSome_iff_ne_none]
  split <;> simp [*]

theorem BothPasses.dangling_iff :
    progress.pending.keys ≠ [] ∨ progress.missing ≠ [] ↔ DanglingLink headers := by
  constructor
  · rintro (hne | hne)
    · obtain ⟨target, htarget⟩ := exists_mem_of_ne_nil _ hne
      obtain ⟨hlinks, hunknown⟩ := h.mem_pending.1 htarget
      exact danglingLink_of_group hlinks hunknown
    · obtain ⟨target, htarget⟩ := exists_mem_of_ne_nil _ hne
      obtain ⟨hlinks, hunknown⟩ :=
        mem_missing_planLinks.1 ((foldlM_convertStep_planned h.second).2 htarget)
      exact danglingLink_of_group hlinks hunknown
  · rintro ⟨link, hmem, hlink, hunknown⟩
    have hgroup : linksTo headers link.target ≠ [] :=
      ne_nil_of_mem (mem_linksTo.2 ⟨link, hmem, hlink, rfl, rfl⟩)
    exact .inl (ne_nil_of_mem (h.mem_pending.2 ⟨hgroup, hunknown⟩))

theorem BothPasses.convert_eq : ∃ targets, convert hash tar tar =
      (failIf (progress.pending.keys ≠ [] ∨ progress.missing ≠ []) (missingTargets targets) >>=
        fun _ => writeTrailer progress.writer) := by
  refine ⟨", ".intercalate ((hash.order progress.pending.keys ++ progress.missing).map text), ?_⟩
  unfold convert
  rw [h.first]
  simp only [bind, Except.bind]
  rw [h.second]
  simp only
  rw [failIf, if_neg (not_not.2 h.planned)]
  rfl

theorem BothPasses.convert_of_dangling (hdangling : DanglingLink headers) :
    ∃ targets, convert hash tar tar = .error (missingTargets targets) := by
  obtain ⟨targets, heq⟩ := h.convert_eq
  refine ⟨targets, heq.trans ?_⟩
  rw [failIf, if_pos (h.dangling_iff.2 hdangling)]
  rfl

theorem BothPasses.convert_of_met
    (hmet : ¬ DanglingLink headers) : convert hash tar tar = writeTrailer progress.writer := by
  obtain ⟨targets, heq⟩ := h.convert_eq
  refine heq.trans ?_
  rw [failIf, if_neg fun hne => hmet (h.dangling_iff.1 hne)]
  rfl

end

theorem bothPasses_or_otherwise (hash : KeyOrder) (tar : List TarEntry) :
    (∃ headers progress, BothPasses hash tar headers progress) ∨
      ∃ report, Otherwise report ∧ convert hash tar tar = .error report := by
  cases hfirst : tar.mapM snapshotEntry with
  | error report =>
    refine .inr ⟨report, Fails.mapM fails_snapshotEntry tar report hfirst, ?_⟩
    rw [convert, hfirst]
    rfl
  | ok headers =>
    cases hsecond : tar.foldlM (convertStep (planLinks hash headers) headers)
        ⟨[], headers, (planLinks hash headers).pending, (planLinks hash headers).missing⟩ with
    | error report =>
      refine .inr ⟨report, Fails.foldlM (fails_convertStep _ _) _ tar report hsecond, ?_⟩
      unfold convert
      rw [hfirst]
      simp only [bind, Except.bind]
      rw [hsecond]
    | ok progress => exact .inl ⟨headers, progress, hfirst, hsecond⟩

theorem convert_eq_missing : (∃ targets, convert hash tar tar = .error (missingTargets targets)) ↔
      ∃ headers progress, BothPasses hash tar headers progress ∧ DanglingLink headers := by
  constructor
  · rintro ⟨targets, herror⟩
    rcases bothPasses_or_otherwise hash tar with ⟨headers, progress, h⟩ | ⟨report, hother, h⟩
    · refine ⟨headers, progress, h, by_contra fun hmet => ?_⟩
      rw [h.convert_of_met hmet] at herror
      exact fails_writeEntry _ _ _ herror targets rfl
    · rw [h] at herror
      exact absurd (Except.error.inj herror) (hother targets)
  · rintro ⟨headers, progress, h, hdangling⟩
    exact h.convert_of_dangling hdangling

theorem BothPasses.congr (h : BothPasses hash tar headers progress) (hmet : ¬ DanglingLink headers)
    (hash' : KeyOrder) : BothPasses hash' tar headers progress := by
  have hknown : ∀ link ∈ headers, link.isHardLink = true → link.target ∈ knownTargets headers :=
    fun link hmem hlink => by_contra fun hunknown => hmet ⟨link, hmem, hlink, hunknown⟩
  refine ⟨h.first, ?_⟩
  rw [← planLinks_congr hknown hash hash']
  exact h.second

theorem convert_hash_irrelevant {bytes : TempWriter} (hash' : KeyOrder)
    (h : convert hash tar tar = .ok bytes) : convert hash' tar tar = .ok bytes := by
  rcases bothPasses_or_otherwise hash tar with ⟨headers, progress, hpasses⟩ | ⟨report, -, herror⟩
  · have hmet : ¬ DanglingLink headers := by
      intro hdangling
      obtain ⟨targets, herror⟩ := hpasses.convert_of_dangling hdangling
      rw [h] at herror
      cases herror
    rw [(hpasses.congr hmet hash').convert_of_met hmet, ← hpasses.convert_of_met hmet, h]
  · rw [h] at herror
    cases herror

end

/-- A target that is the path of a member is the path of one that is not a link itself. -/
def NoLinkToLink (headers : List TarHeaderSnapshot) : Prop :=
  ∀ link ∈ headers, link.isHardLink = true →
    link.target ∈ headers.map TarHeaderSnapshot.path → link.target ∈ knownTargets headers

/-- A link's target is no member's path. -/
def MissingTarget (headers : List TarHeaderSnapshot) : Prop :=
  ∃ link ∈ headers, link.isHardLink = true ∧ link.target ∉ headers.map TarHeaderSnapshot.path

theorem danglingLink_iff :
    DanglingLink headers ↔ MissingTarget headers ∨ ¬ NoLinkToLink headers := by
  constructor
  · rintro ⟨link, hmem, hlink, hunknown⟩
    by_cases hpath : link.target ∈ headers.map TarHeaderSnapshot.path
    · exact .inr fun hdirect => hunknown (hdirect link hmem hlink hpath)
    · exact .inl ⟨link, hmem, hlink, hpath⟩
  · rintro (⟨link, hmem, hlink, hpath⟩ | hchained)
    · refine ⟨link, hmem, hlink, fun hknown => hpath ?_⟩
      obtain ⟨member, hmember, -, heq⟩ := mem_knownTargets.1 hknown
      exact heq ▸ mem_map_of_mem hmember
    · by_contra hmet
      exact hchained fun link hmem hlink _ => by_contra fun hunknown =>
        hmet ⟨link, hmem, hlink, hunknown⟩

def reversedOrder : KeyOrder := ⟨List.reverse, fun keys => keys.reverse_perm⟩

def chainedLinks : List TarEntry := [tarFile "a" "1", tarLink "b" "a", tarLink "c" "b"]

end Jyth.Image.Cpio
