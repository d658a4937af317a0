import Jyth.Boot.Overlay
import Jyth.Image.ArchiveNames
import Jyth.Image.OverlaySpec

/-!
# What overlay validation means

`GuestPath::parse` returns canonical paths: relative, without empty components,
`.` or `..`, and fixed by another parse, with or without a leading separator.
`validate_entries` is about the components of those paths, not about the order
of the entries (`overlay_paths_validated`).

The archive that `flatten` writes is the base that the assembly of a boot image merges with
such entries: the reader of the `cpio` crate finds there what the writer of `image-core` was
given (`flattened_base_boots`).
-/

namespace Jyth.Boot

open Format Jyth.Image List GuestPath

namespace GuestPath

/-! ## Canonical paths are fixed -/

section
variable {path : GuestPath} (h : Canonical path)
include h

theorem Canonical.chars_eq_cons : ∃ c rest, path.chars = c :: rest ∧ c ≠ separator := by
  cases hchars : path.chars with
  | nil =>
    have hmem : [] ∈ path.components := by
      rw [components, hchars]
      decide
    exact absurd rfl (h.plain _ hmem).nonempty
  | cons c rest =>
    refine ⟨c, rest, rfl, ?_⟩
    rintro rfl
    -- a leading separator has an empty component before it
    have hprefix : [] ++ [separator] <+: path.chars := ⟨rest, hchars.symm⟩
    obtain ⟨⟨others, heq⟩, -⟩ := (Segments.append_sep_prefix_iff _ _ _).1 hprefix
    have hmem : [] ∈ path.components := by
      rw [components, ← heq]
      exact mem_append_left _ (by decide)
    exact (h.plain _ hmem).nonempty rfl

theorem Canonical.parse_eq (lead : List Char) (hlead : lead = [] ∨ lead = [separator]) :
    parse (String.ofList (lead ++ path.chars)) = .ok path := by
  obtain ⟨c, rest, hchars, hc⟩ := h.chars_eq_cons
  have hnul : nul ∉ path.chars := h.not_mem (by decide) fun _ hplain => hplain.noNul
  have hback : backslash ∉ path.chars := h.not_mem (by decide) fun _ hplain => hplain.noBackslash
  have hmap : (lead ++ path.chars).map (fun c => if c = backslash then separator else c) =
      lead ++ path.chars := by
    refine (map_congr_left fun c hmem => if_neg ?_).trans (map_id _)
    rintro rfl
    rcases mem_append.1 hmem with hmem | hmem
    · rcases hlead with rfl | rfl <;> exact absurd hmem (by decide)
    · exact hback hmem
  have hdrop : (lead ++ path.chars).dropWhile (· = separator) = path.chars := by
    rcases hlead with rfl | rfl <;> simp [hchars, hc]
  have hraw : path.chars.splitOn separator = path.components := rfl
  have hne : path.components ≠ [] := splitOn_ne_nil _ _
  have hfilter : path.components.filter (· ≠ [period]) = path.components :=
    filter_eq_self.2 fun component hmem => by simpa using (h.plain component hmem).notDot
  have hfind : path.components.find? (fun c => c ≠ [] ∧ c ≠ [period]) = path.components.head? := by
    obtain ⟨first, others, heq⟩ := exists_cons_of_ne_nil hne
    have hfirst := h.plain first (heq ▸ mem_cons_self)
    rw [heq, find?_cons_of_pos (by simp [hfirst.nonempty, hfirst.notDot]), head?_cons]
  simp only [parse, String.toList_ofList, hmap, hdrop, hraw]
  refine check_bind_eq_ok.2 ⟨failIf_eq_ok.2 ?_, ?_⟩
  · intro hmem
    rcases mem_append.1 hmem with hmem | hmem
    · rcases hlead with rfl | rfl <;> exact absurd hmem (by decide)
    · exact hnul hmem
  refine check_bind_eq_ok.2 ⟨failIf_eq_ok.2 ?_, ?_⟩
  · rcases hlead with rfl | rfl <;> simp [hchars, Ne.symm hc]
  refine check_bind_eq_ok.2 ⟨failIf_eq_ok.2 (by simp [hchars]), ?_⟩
  refine check_bind_eq_ok.2 ⟨failIf_eq_ok.2 ?_, ?_⟩
  · rw [hfind, h.noDrive]
    decide
  refine bind_eq_ok.2 ⟨path.components, (canonicalComponents_eq_ok _ _ _).2
    ⟨fun component hmem => ⟨(h.plain component hmem).nonempty, (h.plain component hmem).notParent⟩,
      hfilter.symm⟩, ?_⟩
  refine check_bind_eq_ok.2 ⟨failIf_eq_ok.2 hne, ?_⟩
  rw [intercalate_components]
  exact check_bind_eq_ok.2 ⟨failIf_eq_ok.2 (Nat.not_le.2 h.fits), rfl⟩

end

end GuestPath

/-! ## Ancestors -/

/-- A directory above. -/
def GuestPath.IsAncestor (p q : GuestPath) : Prop :=
  p.components <+: q.components ∧ p ≠ q

variable {path parent : List Char}

theorem beforeLastSeparator_eq_some (h : beforeLastSeparator path = some parent) :
    ∃ last, separator ∉ last ∧ path = parent ++ separator :: last := by
  unfold beforeLastSeparator at h
  split_ifs at h with hsep
  obtain rfl := Option.some.inj h
  have hsplit : path.reverse.takeWhile (· ≠ separator) ++
      path.reverse.dropWhile (· ≠ separator) = path.reverse := takeWhile_append_dropWhile
  obtain ⟨c, rest, hdrop⟩ : ∃ c rest,
      path.reverse.dropWhile (· ≠ separator) = c :: rest := by
    refine exists_cons_of_ne_nil fun hnil => ?_
    have hall := dropWhile_eq_nil_iff.1 hnil _ (mem_reverse.2 hsep)
    simp at hall
  obtain rfl : c = separator := by
    have hhead := head_dropWhile_not (l := path.reverse) (· ≠ separator)
      (by rw [hdrop]; exact cons_ne_nil _ _)
    simp only [hdrop] at hhead
    exact not_not.1 (decide_eq_false_iff_not.1 hhead)
  refine ⟨(path.reverse.takeWhile (· ≠ separator)).reverse, fun hmem => ?_, ?_⟩
  · simpa using mem_takeWhile_imp (mem_reverse.1 hmem)
  · rw [hdrop] at hsplit ⊢
    have hrev := congrArg List.reverse hsplit
    simpa using hrev.symm

theorem append_separator_prefix_iff {t p last : List Char} (hlast : separator ∉ last) :
    t ++ [separator] <+: p ++ separator :: last ↔ t = p ∨ t ++ [separator] <+: p := by
  constructor
  · rintro ⟨r, heq⟩
    rw [append_assoc, singleton_append] at heq
    rcases append_eq_append_iff.1 heq with ⟨mid, hp, hr⟩ | ⟨mid, ht, hr⟩
    · cases mid with
      | nil => exact .inl (by simpa using hp.symm)
      | cons c mid =>
        obtain ⟨rfl, -⟩ := cons.inj hr
        exact .inr ⟨mid, by simpa using hp.symm⟩
    · cases mid with
      | nil => exact .inl (by simpa using ht)
      | cons c mid =>
        obtain ⟨-, rfl⟩ := cons.inj hr
        exact absurd (by simp) hlast
  · rintro (rfl | ⟨r, rfl⟩)
    · exact ⟨last, by simp⟩
    · exact ⟨r ++ separator :: last, by simp⟩

theorem mem_parents {fuel : Nat} (hfuel : path.length ≤ fuel) :
    parent ∈ parents fuel path ↔ parent ++ [separator] <+: path := by
  induction fuel generalizing path with
  | zero =>
    obtain rfl : path = [] := length_eq_zero_iff.1 (Nat.le_zero.1 hfuel)
    simp [parents]
  | succ fuel ih =>
    rw [parents]
    cases hbefore : beforeLastSeparator path with
    | none =>
      simp only [not_mem_nil, false_iff]
      rintro ⟨r, rfl⟩
      simp [beforeLastSeparator] at hbefore
    | some p =>
      obtain ⟨last, hlast, rfl⟩ := beforeLastSeparator_eq_some hbefore
      have hlen : p.length ≤ fuel := by
        rw [length_append, length_cons] at hfuel
        omega
      rw [append_separator_prefix_iff hlast, mem_cons, ih hlen]

theorem isAncestor_iff {p q : GuestPath} :
    p.IsAncestor q ↔ p.chars ∈ parents q.chars.length q.chars := by
  have hne : p ≠ q ↔ p.chars ≠ q.chars := by
    rw [ne_eq, mk.injEq]
  rw [mem_parents (Nat.le_refl _), Segments.append_sep_prefix_iff, GuestPath.IsAncestor, hne]
  rfl

/-- No file stands above another entry. -/
def NoFileAncestor (parsed : List ParsedEntry) : Prop :=
  ∀ p ∈ parsed, ∀ q ∈ parsed, p.2.tag = .file → ¬ p.1.IsAncestor q.1

theorem ancestors_iff {parsed : List ParsedEntry} (h : Distinct parsed) :
    (∀ name ∈ registryOf parsed, NoFileAbove (registryOf parsed) name) ↔ NoFileAncestor parsed := by
  have hpath : ∀ q : GuestPath, ((fromUtf8? q.cpioName).getD "").toList = q.chars := by
    intro q
    rw [fromUtf8?_cpioName, Option.getD_some, String.toList_ofList]
  have hmem : ∀ name, name ∈ registryOf parsed ↔ ∃ q ∈ parsed, q.name = name := by
    intro name
    rw [Std.ExtTreeMap.mem_iff_isSome_getElem?, Option.isSome_iff_exists]
    constructor
    · rintro ⟨kind, hkind⟩
      obtain ⟨q, hq, hname, -⟩ := (getElem?_registryOf h.nodup _ _).1 hkind
      exact ⟨q, hq, hname⟩
    · rintro ⟨q, hq, hname⟩
      exact ⟨q.2.tag, (getElem?_registryOf h.nodup _ _).2 ⟨q, hq, hname, rfl⟩⟩
  constructor
  · intro habove p hp q hq hfile hancestor
    have hnone := habove q.name ((hmem _).2 ⟨q, hq, rfl⟩)
    simp only [NoFileAbove, ParsedEntry.name, hpath] at hnone
    refine hnone p.1.chars (isAncestor_iff.1 hancestor) ?_
    exact (getElem?_registryOf h.nodup _ _).2 ⟨p, hp, rfl, hfile⟩
  · intro hnone name hname
    obtain ⟨q, hq, rfl⟩ := (hmem name).1 hname
    simp only [NoFileAbove, ParsedEntry.name, hpath]
    intro parent hparent hfile
    obtain ⟨p, hp, hpname, hkind⟩ := (getElem?_registryOf h.nodup _ _).1 hfile
    have hpeq : p.1 = ⟨parent⟩ := cpioName_injective hpname
    refine hnone p hp q hq hkind (isAncestor_iff.2 ?_)
    rw [hpeq]
    exact hparent

/-! ## `validate_entries` -/

/-- What `validate_entries` asks of the entries it has parsed. -/
structure WellPlaced (parsed : List ParsedEntry) : Prop where
  free : ∀ p ∈ parsed, p.1.isReserved = false
  distinct : (parsed.map Prod.fst).Nodup
  files : NoFileAncestor parsed

theorem acceptable_iff (parsed : List ParsedEntry) : Acceptable parsed ↔ WellPlaced parsed := by
  have hnodup : (parsed.map ParsedEntry.name).Nodup ↔ (parsed.map Prod.fst).Nodup := by
    rw [← nodup_map_iff cpioName_injective, map_map]
    rfl
  constructor
  · intro h
    exact ⟨h.distinct.free, hnodup.1 h.distinct.nodup, (ancestors_iff h.distinct).1 h.ancestors⟩
  · intro h
    have hdistinct : Distinct parsed := ⟨h.free, hnodup.2 h.distinct⟩
    exact ⟨hdistinct, (ancestors_iff hdistinct).2 h.files⟩

theorem validateEntries_ok_iff (entries : List GuestOverlayEntry) :
    (∃ v, validateEntries entries = .ok v) ↔
      ∃ parsed, List.Forall₂ (fun entry p => parseEntry entry = .ok p) entries parsed ∧
        WellPlaced parsed := by
  constructor
  · rintro ⟨v, hv⟩
    obtain ⟨parsed, hparsed, haccept, -⟩ := (validateEntries_eq_ok _ _).1 hv
    exact ⟨parsed, hparsed, (acceptable_iff parsed).1 haccept⟩
  · rintro ⟨parsed, hparsed, hplaced⟩
    exact ⟨_, (validateEntries_eq_ok _ _).2 ⟨parsed, hparsed, (acceptable_iff parsed).2 hplaced, rfl⟩⟩

/-- The overlay archive of a call: the entries are validated, `/init` is added. -/
def overlayArchive [NewcReader] (entries : List GuestOverlayEntry) (init : Bytes) :
    Except BootImageError Bytes := do
  let v ← validateEntries entries
  orOverlay (overlayToCpio (withInit v.files init) v.dirs)

theorem validateEntries_perm_iff {entries entries' : List GuestOverlayEntry}
    (h : entries.Perm entries') (v : ValidatedOverlay) :
    validateEntries entries = .ok v ↔ validateEntries entries' = .ok v :=
  ⟨validateEntries_perm h, validateEntries_perm h.symm⟩

/-- Parsed paths are canonical; validation is about the places the entries have,
and neither its verdict nor the archive depends on their order. -/
theorem overlay_paths_validated [NewcReader] :
    (∀ (raw : String) (path : GuestPath), parse raw = .ok path →
      path.chars.head? ≠ some separator ∧
      (∀ component ∈ path.components, component ≠ [] ∧ component ≠ [period] ∧
        component ≠ [period, period]) ∧ parse (String.ofList path.chars) = .ok path ∧
      parse path.displayPath = .ok path) ∧
    (∀ entries : List GuestOverlayEntry, (∃ v, validateEntries entries = .ok v) ↔
      ∃ parsed, List.Forall₂ (fun entry p => parseEntry entry = .ok p) entries parsed ∧
        WellPlaced parsed) ∧ ∀ entries entries' : List GuestOverlayEntry, entries.Perm entries' →
      (∀ v, validateEntries entries = .ok v ↔ validateEntries entries' = .ok v) ∧
      ∀ init bytes, overlayArchive entries init = .ok bytes ↔
        overlayArchive entries' init = .ok bytes := by
  refine ⟨fun raw path hparse => ?_, validateEntries_ok_iff, fun entries entries' hperm =>
    ⟨validateEntries_perm_iff hperm, fun init bytes => ?_⟩⟩
  · have hcanonical := canonical_of_parse hparse
    obtain ⟨c, rest, hchars, hc⟩ := hcanonical.chars_eq_cons
    refine ⟨by simpa [hchars] using hc, fun component hmem => ?_, ?_, ?_⟩
    · have hplain := hcanonical.plain component hmem
      exact ⟨hplain.nonempty, hplain.notDot, hplain.notParent⟩
    · exact hcanonical.parse_eq [] (.inl rfl)
    · have hshown : path.displayPath = String.ofList ([separator] ++ path.chars) := by
        rw [displayPath, String.ofList_append]
        rfl
      rw [hshown]
      exact hcanonical.parse_eq [separator] (.inr rfl)
  · rw [overlayArchive, overlayArchive, bind_eq_ok, bind_eq_ok]
    simp only [validateEntries_perm_iff hperm]

/-- A directory and a file in it, and the path of the file. -/
theorem overlay_paths_hostname : parse "etc/hostname" = .ok ⟨"etc/hostname".toList⟩ ∧
      ∀ v, validateEntries [⟨"/etc", .directory 0o755⟩, ⟨"./etc/hostname", .file [] 0o644 ""⟩] = .ok v ↔
        validateEntries [⟨"./etc/hostname", .file [] 0o644 ""⟩, ⟨"/etc", .directory 0o755⟩] = .ok v := by
  constructor
  · exact (overlay_paths_validated.1 "/etc/./hostname" ⟨"etc/hostname".toList⟩ (by decide)).2.2.1
  · exact (overlay_paths_validated.2.2 _ _ (.swap _ _ _)).1

/-! ## From layers to a boot image -/

variable {items : List Item} {base init : Bytes} {layers : List Layer}
  {state : PathMap Image.Metadata} {spool : Spool} {entries : List GuestOverlayEntry}
  {v : ValidatedOverlay}

theorem complete_of_written [NewcReader] (h : writeArchive items = .ok base)
    (hnames : ∀ item ∈ items, NameOk item.record.name ∧ item.record.name ≠ trailerName) :
    Complete base (items.map fun item => archiveEntry item.stored.record) (items.flatMap Item.bytes)
      trailerEntry := by
  obtain ⟨w, hitems, hlast⟩ := bind_eq_ok.1 h
  obtain ⟨rfl, hsizes⟩ := writeItems_eq_ok hitems
  have hok : ∀ record ∈ items.map (·.stored.record), RecordOk record := by
    intro record hmem
    obtain ⟨item, hitem, rfl⟩ := mem_map.1 hmem
    exact ⟨(hnames item hitem).1, (hnames item hitem).2, hsizes item hitem⟩
  rw [writeTrailer, writeEntry_eq _ _ (by decide)] at hlast
  obtain rfl := Except.ok.inj hlast
  have hbody := body_records hok
  rw [map_map, flatMap_map] at hbody
  refine complete_of_reads hbody ?_
  rw [bytes_trailer]
  exact NewcReader.reads_new nameOk_trailer 0

/-- **Flattened layers boot.**  Layers whose names are UTF-8 without NUL, and not the trailer's,
flatten to a base that every overlay in order is merged with; the image holds the entries of the
flattened state, then those of the overlay. -/
theorem flattened_base_boots [NewcReader] (hstate : buildState layers = .ok (state, spool))
    (hnames : ∀ p ∈ state, NameOk p ∧ p ≠ trailerName) (hbase : runBlocking layers = .ok base)
    (hv : validateEntries entries = .ok v)
    (hsize : ∀ file ∈ withInit v.files init, file.data.length < 2 ^ 32) :
    ∃ image items, assemble base entries init = .ok image ∧ Emits state spool items ∧
      parseArchive image = .ok ((items.map (fun item => archiveEntry item.stored.record) ++
        (overlayRecords (withInit v.files init) v.dirs).map archiveEntry, trailerEntry), []) := by
  rw [runBlocking, hstate] at hbase
  obtain ⟨items, hitems, hwrite⟩ := emit_eq_ok.1 hbase
  have hcomplete := complete_of_written hwrite fun item hitem =>
    hnames _ ((hitems.name_iff _).1 ⟨item, hitem, rfl⟩)
  have hoverlay := body_records fun record h => recordOk_of_mem hv hsize h
  exact ⟨_, items, (assemble_eq_ok _ _ _ _).2 ⟨v, hv, (buildImage_eq_ok hv base _).2
    ⟨hsize, _, _, _, hcomplete, rfl⟩⟩, hitems,
    parseArchive_complete (hcomplete.whole.append hoverlay)⟩

theorem fileRemoved_boots : ∃ base image, runBlocking fileRemoved = .ok base ∧
    assemble base [] [1] = .ok image := by
  obtain ⟨state, hstate, hkeys⟩ : ∃ state, buildState fileRemoved = .ok state ∧
    state.1.keys = [utf8 "d"] := ⟨_, rfl, by decide +kernel⟩
  have hnames : ∀ p ∈ state.1, NameOk p ∧ p ≠ trailerName := by
    intro p hp
    rw [← Std.ExtTreeMap.mem_keys, hkeys, mem_singleton] at hp
    subst hp
    refine ⟨⟨by decide, ?_, by decide⟩, by decide⟩
    rw [(fromUtf8?_eq_some _ "d").2 rfl]
    rfl
  obtain ⟨base, hbase⟩ : ∃ base, runBlocking fileRemoved = .ok base := ⟨_, rfl⟩
  obtain ⟨image, -, himage, -⟩ := flattened_base_boots hstate hnames hbase
    (rfl : validateEntries [] = .ok ⟨[], []⟩) (by decide : ∀ file ∈ withInit [] [1], _)
  exact ⟨base, image, hbase, himage⟩

end Jyth.Boot
