import Jyth.Image.ConvertCalls

/-!
# The names of archive entries

When `normalize_path` accepts its own
result, and which names an archive gets: `convert` writes the normalized paths of
the members and `flatten` the paths of its state, in front of the trailer.

    normalizePath raw = .ok path → (normalizePath path = .ok path ↔ path[1]? ≠ some colon)
    a reader finds every entry unless one of them is named like the trailer
-/

namespace Jyth.Image

open Format Cpio List Option Item

/-! ## What `normalize_path` returns -/

theorem backslash_not_mem_folded (cursor : Bytes) : backslash ∉ folded cursor := by
  intro hmem
  obtain ⟨b, -, hb⟩ := mem_map.1 hmem
  split at hb
  · exact absurd hb (by decide)
  · contradiction

variable {path : Bytes}

theorem folded_of_not_mem (h : backslash ∉ path) : folded path = path := by
  have hsame : path.map (fun b => if b = backslash then slash else b) = path.map id := by
    refine map_congr_left fun b hb => if_neg ?_
    rintro rfl
    exact h hb
  exact hsame.trans (map_id path)

variable {b : UInt8} {segments : List Bytes}

theorem mem_folded (hslash : b ≠ slash) (hback : b ≠ backslash) (cursor : Bytes) :
    b ∈ folded cursor ↔ b ∈ cursor := by
  constructor
  · intro h
    obtain ⟨c, hc, hb⟩ := mem_map.1 h
    split at hb
    · exact absurd hb.symm hslash
    · rwa [← hb]
  · intro h
    exact mem_map.2 ⟨b, h, if_neg hback⟩

theorem mem_stripLeading (hdot : b ≠ dot) (hslash : b ≠ slash) (hback : b ≠ backslash)
    (path : Bytes) : b ∈ stripLeading path ↔ b ∈ path := by
  fun_induction stripLeading path with
  | case1 b₀ b₁ rest h ih =>
    have h₀ : b ≠ b₀ := fun heq => hdot (heq.trans h.1)
    have h₁ : b ≠ b₁ := by
      rintro rfl
      exact h.2.elim hslash hback
    rw [ih, mem_cons, mem_cons, or_iff_right h₀, or_iff_right h₁]
  | case2 => rfl
  | case3 => rfl

theorem mem_stripTrailing (hslash : b ≠ slash) (hback : b ≠ backslash) (path : Bytes) :
    b ∈ stripTrailing path ↔ b ∈ path := by
  unfold stripTrailing
  split
  · next hlast =>
    rcases eq_nil_or_concat' path with rfl | ⟨front, last, rfl⟩
    · rfl
    · rw [getLast?_concat, some.injEq, some.injEq] at hlast
      have hne : b ≠ last := by
        rintro rfl
        exact hlast.elim hslash hback
      rw [dropLast_concat, mem_append, mem_singleton, or_iff_left hne]
  · rfl

theorem drive_stripTrailing (path : Bytes) :
    (folded (stripTrailing path))[1]? = some colon ↔ path[1]? = some colon := by
  have hfold : ∀ cursor : Bytes, (folded cursor)[1]? = some colon ↔ cursor[1]? = some colon := by
    intro cursor
    rw [folded, getElem?_map, map_eq_some_iff]
    constructor
    · rintro ⟨b, hb, hcolon⟩
      split at hcolon
      · exact absurd hcolon (by decide)
      · rwa [hcolon] at hb
    · intro hb
      exact ⟨colon, hb, by decide⟩
  rw [hfold]
  unfold stripTrailing
  split
  · next hlast =>
    rcases path with _ | ⟨b₀, _ | ⟨b₁, _ | ⟨b₂, rest⟩⟩⟩
    · rfl
    · simp
    · -- the separator that is dropped is no colon
      have hne : b₁ ≠ colon := by
        rintro rfl
        have hsep : colon = slash ∨ colon = backslash := by simpa using hlast
        exact absurd hsep (by decide)
      simp [hne]
    · simp
  · rfl

/-! ## Normalizing again -/

theorem walkSegments_of_plain {raw : Bytes} {done : List Bytes} (hne : done ≠ [])
    (hdone : ∀ segment ∈ done, Plain segment) (hplain : ∀ segment ∈ segments, Plain segment) :
    walkSegments raw (joinSlash done) segments = .ok (joinSlash (done ++ segments)) := by
  induction segments generalizing done with
  | nil => rw [append_nil, walkSegments]; rfl
  | cons segment segments ih =>
    obtain ⟨hsegment, hrest⟩ := forall_mem_cons.1 hplain
    obtain ⟨hout, hlast⟩ := joinSlash_last hne hdone
    have hjoin : joinSlash done ++ [slash] ++ segment = joinSlash (done ++ [segment]) :=
      (Segments.intercalate_concat slash hne segment).symm
    have hplains : ∀ s ∈ done ++ [segment], Plain s := by
      simpa [or_imp, forall_and] using ⟨hdone, hsegment⟩
    rw [walkSegments, if_neg hsegment.nonempty, if_neg hsegment.notDotDot, if_neg hsegment.notDot]
    simp only [if_pos (And.intro hout hlast), hjoin]
    rw [ih (by simp) hplains hrest, append_assoc, singleton_append]

theorem walkSegments_nil_of_plain {raw : Bytes} (hne : segments ≠ [])
    (hplain : ∀ segment ∈ segments, Plain segment) :
    walkSegments raw [] segments = .ok (joinSlash segments) := by
  cases segments with
  | nil => exact absurd rfl hne
  | cons first rest =>
    obtain ⟨hfirst, hrest⟩ := forall_mem_cons.1 hplain
    have hsingle : [] ++ first = joinSlash [first] := intercalate_singleton.symm
    rw [walkSegments, if_neg hfirst.nonempty, if_neg hfirst.notDotDot, if_neg hfirst.notDot]
    simp only [ne_eq, not_true, false_and, if_false, hsingle]
    exact walkSegments_of_plain (cons_ne_nil _ _) (fun s hs => by rwa [mem_singleton.1 hs]) hrest

theorem stripLeading_of_not_dot (hslash : ¬ [dot, slash] <+: path)
    (hback : backslash ∉ path) : stripLeading path = path := by
  rcases path with _ | ⟨b₀, _ | ⟨b₁, rest⟩⟩
  · rfl
  · rfl
  rw [stripLeading, if_neg]
  rintro ⟨rfl, rfl | rfl⟩
  · exact hslash ⟨rest, rfl⟩
  · exact hback (by simp)

theorem Normalized.head_ne_slash (h : Normalized path) : path ≠ [] ∧ path.head? ≠ some slash := by
  rcases h with rfl | ⟨segments, hne, hplain, rfl⟩
  · decide
  obtain ⟨first, rest, rfl⟩ := exists_cons_of_ne_nil hne
  have hfirst := hplain first mem_cons_self
  obtain ⟨b, bs, rfl⟩ := exists_cons_of_ne_nil hfirst.nonempty
  have hb : b ≠ slash := fun heq => hfirst.noSlash (by simp [heq])
  cases rest with
  | nil => simp [joinSlash, hb]
  | cons next rest => simp [joinSlash, intercalate_cons_cons, hb]

theorem Normalized.components (h : Normalized path) :
    path = rootPath ∨ ∀ c ∈ path.splitOn slash, Plain c := by
  rcases h with rfl | ⟨segments, hne, hplain, rfl⟩
  · exact .inl rfl
  · refine .inr ?_
    rwa [splitOn_joinSlash hne hplain]

theorem normalizePath_of_normalized (h : Normalized path) (hback : backslash ∉ path)
    (hdrive : path[1]? ≠ some colon) : normalizePath path = .ok path := by
  obtain ⟨hne, hhead⟩ := h.head_ne_slash
  have hheadBack : path.head? ≠ some backslash := fun heq => hback (mem_of_mem_head? heq)
  have hlead : stripLeading path = path := stripLeading_of_not_dot h.not_startsWith_dotSlash hback
  have hfold := folded_of_not_mem hback
  unfold normalizePath
  refine check_bind_eq_ok.2 ⟨failIf_eq_ok.2 hdrive, ?_⟩
  refine check_bind_eq_ok.2 ⟨failIf_eq_ok.2 (not_or.2 ⟨hhead, hheadBack⟩), ?_⟩
  refine check_bind_eq_ok.2 ⟨failIf_eq_ok.2 hne, ?_⟩
  rcases h with rfl | ⟨segments, hsegments, hplain, rfl⟩
  · rfl
  have hlast := (joinSlash_last hsegments hplain).2
  have htrail : stripTrailing (joinSlash segments) = joinSlash segments :=
    if_neg (not_or.2 ⟨hlast, fun heq => hback (mem_of_getLast? heq)⟩)
  have hsplit : ((joinSlash segments).map fun b => if b = backslash then slash else b).splitOn slash =
      segments := by
    rw [show (joinSlash segments).map _ = joinSlash segments from hfold]
    exact splitOn_joinSlash hsegments hplain
  simp only [hlead, htrail, if_neg hne]
  rw [hsplit, walkSegments_nil_of_plain hsegments hplain]
  exact check_bind_eq_ok.2 ⟨failIf_eq_ok.2 hne, rfl⟩

/-- A relative name without backslash, dots and empty components. -/
structure CleanName (path : Bytes) : Prop where
  relative : path.head? ≠ some slash
  noBackslash : backslash ∉ path
  components : path = rootPath ∨ ∀ c ∈ path.splitOn slash, c ≠ [] ∧ c ≠ [dot] ∧ c ≠ [dot, dot]

/-- A clean name without NUL and drive prefix. -/
structure SafeName (path : Bytes) : Prop extends CleanName path where
  noNul : 0 ∉ path
  noDrive : path[1]? ≠ some colon

section
variable {raw path : Bytes} (h : normalizePath raw = .ok path)
include h

theorem noBackslash_of_normalizePath : backslash ∉ path := by
  rcases normalizePath_cases h with ⟨-, rfl⟩ | ⟨rfl, -⟩
  · decide
  · exact backslash_not_mem_folded _

theorem cleanName_of_normalizePath : CleanName path := by
  have hnorm := normalizePath_eq_ok h
  refine ⟨hnorm.head_ne_slash.2, noBackslash_of_normalizePath h, ?_⟩
  refine hnorm.components.imp_right fun hplain c hc => ?_
  exact ⟨(hplain c hc).nonempty, (hplain c hc).notDot, (hplain c hc).notDotDot⟩

theorem nul_mem_iff : 0 ∈ path ↔ 0 ∈ raw := by
  rw [← mem_stripLeading (b := 0) (by decide) (by decide) (by decide) raw,
    ← mem_stripTrailing (b := 0) (by decide) (by decide) (stripLeading raw)]
  rcases normalizePath_cases h with ⟨hempty, rfl⟩ | ⟨rfl, -⟩
  · rw [hempty]
    decide
  · exact mem_folded (by decide) (by decide) _

theorem drive_iff : path[1]? = some colon ↔ (stripLeading raw)[1]? = some colon := by
  rw [← drive_stripTrailing (stripLeading raw)]
  rcases normalizePath_cases h with ⟨hempty, rfl⟩ | ⟨rfl, -⟩
  · rw [hempty]
    decide
  · rfl

theorem normalizePath_again_iff : normalizePath path = .ok path ↔ path[1]? ≠ some colon := by
  constructor
  · intro hagain
    unfold normalizePath at hagain
    rw [check_bind_eq_ok, failIf_eq_ok] at hagain
    exact hagain.1
  · exact normalizePath_of_normalized (normalizePath_eq_ok h) (noBackslash_of_normalizePath h)

end

/-! ## What a written archive holds -/

theorem bytes_of_read {ε : Type} {n : Nat} {s s' : Source ε} {bs : Bytes}
    (h : s.read n = (.ok bs, s')) : s.bytes = bs ++ s'.bytes ∧ bs.length ≤ n := by
  cases s with
  | nil =>
    cases h
    exact ⟨rfl, Nat.zero_le n⟩
  | cons answer s =>
    cases answer with
    | fault e => cases h
    | data b rest =>
      rw [Source.read] at h
      split at h
      · next hle =>
        cases h
        exact ⟨rfl, hle⟩
      · cases h
        refine ⟨?_, length_take_le _ _⟩
        rw [Source.bytes_append, Source.bytes_ofBytes, ← append_assoc, take_append_drop]
        rfl

variable {w' w : TempWriter}

theorem copyLoop_eq_ok {fuel remaining : Nat} {reader reader' : Source String}
    (hfuel : remaining ≤ fuel) (h : copyLoop fuel remaining w reader = .ok (w', reader')) :
    w' = w ++ reader.bytes.take remaining ∧ remaining ≤ reader.bytes.length := by
  induction fuel generalizing remaining w reader with
  | zero =>
    obtain rfl : remaining = 0 := by omega
    cases h
    simp
  | succ fuel ih =>
    rw [copyLoop] at h
    split at h
    · next hzero =>
      cases h
      simp [hzero]
    split at h
    · cases h
    · next bs rest hread =>
      obtain ⟨hbytes, hlen⟩ := bytes_of_read hread
      have hle : bs.length ≤ remaining := by omega
      split at h
      · cases h
      · next hpos =>
        obtain ⟨rfl, hrest⟩ := ih (by omega) h
        rw [hbytes, take_append, take_of_length_le hle, append_assoc, length_append]
        exact ⟨rfl, by omega⟩

theorem writeItem_eq_ok {item : Item} (h : writeItem w item = .ok w') :
    w' = w ++ item.bytes ∧ item.body.length < 2 ^ 32 := by
  cases item with
  | entry record =>
    have hsize : record.body.bytes.length < 2 ^ 32 := by
      cases hbody : record.body with
      | empty => exact Nat.two_pow_pos 32
      | owned bytes =>
        rw [writeItem, writeEntry, hbody] at h
        by_contra hle
        simp only [Body.bytes, not_lt] at hle
        simp only [if_pos hle] at h
        cases h
    exact ⟨Except.ok.inj (h.symm.trans (writeEntry_eq w record hsize)), hsize⟩
  | streaming record size reader =>
    simp only [writeItem, writeStreamingEntry, copyExactly] at h
    cases hcopy : copyLoop size.toNat size.toNat
        (w ++ encodeHeader record size (record.name.length + 1)) reader with
    | error report =>
      rw [hcopy] at h
      cases h
    | ok copied =>
      obtain ⟨w₁, reader'⟩ := copied
      rw [hcopy] at h
      obtain ⟨rfl, hle⟩ := copyLoop_eq_ok (Nat.le_refl _) hcopy
      have hbody : (reader.bytes.take size.toNat).length = size.toNat := length_take_of_le hle
      refine ⟨(Except.ok.inj h).symm.trans ?_, ?_⟩
      · simp [Item.bytes, Item.record, Item.body, hbody, getD_padBytes]
      · rw [body, hbody]
        exact size.toNat_lt

variable {items : List Item}

theorem writeItems_eq_ok (h : writeItems w items = .ok w') :
    w' = w ++ items.flatMap bytes ∧ ∀ item ∈ items, item.body.length < 2 ^ 32 := by
  rw [writeItems] at h
  induction items generalizing w with
  | nil =>
    rw [foldlM_nil, pure_eq_ok] at h
    simp [h]
  | cons item items ih =>
    rw [foldlM_cons, bind_eq_ok] at h
    obtain ⟨w₁, hitem, h⟩ := h
    obtain ⟨rfl, hsize⟩ := writeItem_eq_ok hitem
    obtain ⟨rfl, hsizes⟩ := ih h
    exact ⟨by rw [flatMap_cons, append_assoc], forall_mem_cons.2 ⟨hsize, hsizes⟩⟩

/-- The same bytes as one call with the body in memory. -/
def Item.stored (item : Item) : Item := .entry { item.record with body := .owned item.body }

/-- A name a header can carry. -/
structure Nameable (name : Bytes) : Prop where
  nulFree : 0 ∉ name
  fits : name.length + 1 < 2 ^ 32

variable {bytes : TempWriter}

/-- A reader finds every entry of an archive that was written, if no entry has
the name of the trailer. -/
theorem readArchive_of_written
    (h : writeArchive items = .ok bytes) (hnames : ∀ item ∈ items, Nameable item.record.name)
    (htrailer : ∀ item ∈ items, item.record.name ≠ trailerName) :
    readArchive bytes = .ok (items.map entryOf, (entry trailer).entryOf) := by
  obtain ⟨w, hitems, hlast⟩ := bind_eq_ok.1 h
  obtain ⟨rfl, hsizes⟩ := writeItems_eq_ok hitems
  have hstored : ∀ item ∈ items.map stored, item.Writable := by
    intro item hmem
    obtain ⟨source, hsource, rfl⟩ := mem_map.1 hmem
    exact ⟨(hnames source hsource).nulFree, (hnames source hsource).fits, hsizes source hsource⟩
  obtain ⟨bytes', hwrite, hread, -⟩ := readArchive_writeArchive (items.map stored) hstored
    (by simpa [stored, record] using htrailer)
  obtain ⟨w', hitems', hlast'⟩ := bind_eq_ok.1 hwrite
  obtain ⟨rfl, -⟩ := writeItems_eq_ok hitems'
  have hsame : (items.map Item.stored).flatMap Item.bytes = items.flatMap Item.bytes := by
    rw [flatMap_map]
    rfl
  rw [hsame, hlast] at hlast'
  obtain rfl := Except.ok.inj hlast'
  rw [hread, List.map_map]
  rfl

/-! ## The names of an archive -/

def writtenNames (items : List Item) : List Bytes :=
  items.map (fun item => item.record.name) ++ [trailer.name]

/-- One trailer, at the end. -/
structure SingleTrailer (names : List Bytes) : Prop where
  once : names.count trailerName = 1
  last : names.getLast? = some trailerName

theorem singleTrailer_iff :
    SingleTrailer (writtenNames items) ↔ ∀ item ∈ items, item.record.name ≠ trailerName := by
  have hcount : (writtenNames items).count trailerName = 1 ↔
      ∀ item ∈ items, item.record.name ≠ trailerName := by
    rw [writtenNames, count_append, show [trailer.name].count trailerName = 1 from rfl,
      Nat.add_eq_right, List.count_eq_zero, List.mem_map]
    exact ⟨fun h item hitem heq => h ⟨item, hitem, heq⟩, fun h ⟨item, hitem, heq⟩ => h item hitem heq⟩
  exact ⟨fun h => hcount.1 h.once, fun h => ⟨hcount.2 h, getLast?_concat⟩⟩

namespace Cpio

theorem deferredItem_name {plan : LinkPlan} {headers : List TarHeaderSnapshot}
    {item : Item} (h : deferredItem plan headers path = .ok item) :
    item.record.name = path ∧ ∃ header ∈ headers, header.path = path := by
  unfold deferredItem at h
  split at h
  · next snapshot hfind =>
    have hpath : snapshot.path = path := by simpa using find?_some hfind
    cases hbuild : buildRecord snapshot (plan.identityFor path) (plan.nlinkFor path) with
    | error report =>
      rw [hbuild] at h
      cases h
    | ok record =>
      rw [hbuild] at h
      cases h
      exact ⟨(buildRecord_eq_ok hbuild).name.trans hpath, snapshot,
        mem_of_find?_eq_some hfind, hpath⟩
  · cases h

section
variable {plan : LinkPlan} {headers : List TarHeaderSnapshot} {pending : PathMap (List Bytes)}
  {tar : List TarEntry} {items : List Item}

theorem Emitted.name_mem (h : Emitted plan headers pending tar items)
    (hlives : ∀ entry ∈ tar, ∀ live, snapshotEntry entry = .ok live → live ∈ headers) :
    ∀ item ∈ items, ∃ header ∈ headers, header.path = item.record.name := by
  induction h with
  | nil => exact fun item hitem => by cases hitem
  | @link pending entry live rest items hlive hlink _ ih =>
    exact ih fun e he => hlives e (mem_cons_of_mem _ he)
  | @member pending entry live rest item links items hlive hlink hitem hlinks _ ih =>
    intro written hwritten
    rw [cons_append, mem_cons, mem_append] at hwritten
    rcases hwritten with rfl | hwritten | hwritten
    · exact ⟨live, hlives entry mem_cons_self live hlive, (memberItem_eq_ok hitem).1.name.symm⟩
    · obtain ⟨path, -, hdeferred⟩ := exists_left_of_forall₂ hlinks hwritten
      obtain ⟨hname, header, hheader, hpath⟩ := deferredItem_name hdeferred
      exact ⟨header, hheader, hpath.trans hname.symm⟩
    · exact ih (fun e he => hlives e (mem_cons_of_mem _ he)) written hwritten

theorem Emitted.exists_name (h : Emitted plan headers pending tar items) :
    ∀ entry ∈ tar, ∀ live, snapshotEntry entry = .ok live → live.isHardLink = false →
      ∀ p ∈ live.path :: (pending[live.path]?).getD [], ∃ item ∈ items, item.record.name = p := by
  induction h with
  | nil => exact fun entry hentry => by cases hentry
  | @link pending entry live rest items hlive hlink _ ih =>
    intro e he live' hlive' hlink'
    rcases mem_cons.1 he with rfl | he
    · obtain rfl := Except.ok.inj (hlive'.symm.trans hlive)
      rw [hlink] at hlink'
      cases hlink'
    · exact ih e he live' hlive' hlink'
  | @member pending entry live rest item links items hlive hlink hitem hlinks _ ih =>
    have hhead : ∀ p ∈ live.path :: (pending[live.path]?).getD [],
        ∃ item' ∈ item :: links ++ items, item'.record.name = p := by
      intro p hp
      rcases mem_cons.1 hp with rfl | hp
      · exact ⟨item, by simp, (memberItem_eq_ok hitem).1.name⟩
      · obtain ⟨link, hmem, hdeferred⟩ := exists_right_of_forall₂ hlinks hp
        exact ⟨link, by simp [hmem], (deferredItem_name hdeferred).1⟩
    intro e he live' hlive' hlink' p hp
    rcases mem_cons.1 he with rfl | he
    · obtain rfl := Except.ok.inj (hlive'.symm.trans hlive)
      exact hhead p hp
    · -- the links of a path are written where the path comes first
      by_cases hsame : live'.path = live.path
      · rw [hsame] at hp
        exact hhead p hp
      · have hp' : p ∈ live'.path :: ((pending.erase live.path)[live'.path]?).getD [] := by
          rwa [getElem?_erase_path, if_neg hsame]
        obtain ⟨item', hmem, hname⟩ := ih e he live' hlive' hlink' p hp'
        exact ⟨item', mem_append_right _ hmem, hname⟩

end

variable {tar : List TarEntry}

theorem mem_headersOf {members : List Member}
    (h : tar.mapM memberOf = .ok members) {header : TarHeaderSnapshot} :
    header ∈ headersOf members ↔ ∃ entry ∈ tar, snapshotEntry entry = .ok header := by
  rw [mapM_eq_ok] at h
  rw [headersOf, List.mem_map]
  constructor
  · rintro ⟨member, hmember, rfl⟩
    obtain ⟨entry, hentry, hof⟩ := exists_left_of_forall₂ h hmember
    obtain ⟨header, hheader, hpure⟩ := bind_eq_ok.1 hof
    obtain rfl := pure_eq_ok.1 hpure
    exact ⟨entry, hentry, hheader⟩
  · rintro ⟨entry, hentry, hheader⟩
    obtain ⟨member, hmember, hof⟩ := exists_right_of_forall₂ h hentry
    exact ⟨member, hmember, by rw [memberOf_eq_ok hof hheader]⟩

theorem convert_names {hash : KeyOrder} (h : convert hash tar tar = .ok bytes) :
    ∃ members items, tar.mapM memberOf = .ok members ∧ writeArchive items = .ok bytes ∧
      ∀ p, (∃ item ∈ items, item.record.name = p) ↔ ∃ member ∈ members, member.path = p := by
  obtain ⟨members, items, hmembers, hitems, hwrite, hknown⟩ := convert_eq_ok h
  refine ⟨members, items, hmembers, hwrite, fun p => ⟨?_, ?_⟩⟩
  · rintro ⟨item, hitem, rfl⟩
    obtain ⟨header, hheader, hname⟩ := hitems.name_mem
      (fun entry hentry live hlive => (mem_headersOf hmembers).2 ⟨entry, hentry, hlive⟩) item hitem
    obtain ⟨member, hmember, rfl⟩ := mem_map.1 hheader
    exact ⟨member, hmember, hname⟩
  · rintro ⟨member, hmember, rfl⟩
    have hheader : member.header ∈ headersOf members := mem_map_of_mem hmember
    cases hlink : member.header.isHardLink with
    | false =>
      obtain ⟨entry, hentry, hlive⟩ := (mem_headersOf hmembers).1 hheader
      exact hitems.exists_name entry hentry _ hlive hlink _ mem_cons_self
    | true =>
      -- the record of a link stands behind the record of its target
      obtain ⟨target, htarget, hnot, hpath⟩ := mem_knownTargets.1 (hknown _ hheader hlink)
      obtain ⟨entry, hentry, hlive⟩ := (mem_headersOf hmembers).1 htarget
      refine hitems.exists_name entry hentry _ hlive hnot _ (mem_cons_of_mem _ ?_)
      rw [pending_planLinks, getD_collectLinks, hpath]
      exact mem_linksTo.2 ⟨member.header, hheader, hlink, rfl, rfl⟩

end Cpio

theorem Emits.name_iff {state : PathMap Metadata} {spool : Spool}
    (h : Emits state spool items) (p : Bytes) :
    (∃ item ∈ items, item.record.name = p) ↔ p ∈ state := by
  constructor
  · rintro ⟨item, hitem, rfl⟩
    obtain ⟨path, metadata, hget, hemit⟩ := h.mem_iff.1 hitem
    rw [emitItem_record hemit, Std.ExtTreeMap.mem_iff_isSome_getElem?]
    show (state[path]?).isSome = true
    rw [hget]
    rfl
  · intro hp
    obtain ⟨metadata, hget⟩ := isSome_iff_exists.1 (Std.ExtTreeMap.mem_iff_isSome_getElem?.1 hp)
    obtain ⟨item, hitem, hemit⟩ := exists_right_of_forall₂ h
      (Std.ExtTreeMap.mem_toList_iff_getElem?_eq_some.2 hget)
    exact ⟨item, hitem, by rw [emitItem_record hemit]; rfl⟩

/-! ## Main results -/

/-- **Normalized names.**  The result of `normalize_path` is relative, without
backslashes and of ordinary components.  It is also free of NULs and drive
prefixes and accepted unchanged exactly when the path had no NUL and, behind its
leading `./`, no drive prefix; the same prefix decides whether a name that
`convert` wrote is accepted again. -/
theorem normalized_names_safe_iff (raw : Bytes) (hash : KeyOrder) (tar : List TarEntry) :
    (∀ path, normalizePath raw = .ok path → CleanName path ∧
        (SafeName path ∧ normalizePath path = .ok path ↔
          0 ∉ raw ∧ (stripLeading raw)[1]? ≠ some colon)) ∧
    ∀ bytes, convert hash tar tar = .ok bytes →
      ∃ items, writeArchive items = .ok bytes ∧ ∀ item ∈ items,
        (normalizePath item.record.name = .ok item.record.name ↔
          item.record.name[1]? ≠ some colon) := by
  constructor
  · intro path h
    have hclean := cleanName_of_normalizePath h
    refine ⟨hclean, ?_⟩
    have hprefix : path[1]? ≠ some colon ↔ (stripLeading raw)[1]? ≠ some colon :=
      not_congr (drive_iff h)
    rw [normalizePath_again_iff h, ← nul_mem_iff h, ← hprefix]
    constructor
    · rintro ⟨hsafe, hdrive⟩
      exact ⟨hsafe.noNul, hdrive⟩
    · rintro ⟨hnul, hdrive⟩
      exact ⟨⟨hclean, hnul, hdrive⟩, hdrive⟩
  · intro bytes h
    obtain ⟨members, items, hmembers, hwrite, hnames⟩ := convert_names h
    refine ⟨items, hwrite, fun item hitem => ?_⟩
    obtain ⟨member, hmember, hpath⟩ := (hnames _).1 ⟨item, hitem, rfl⟩
    obtain ⟨entry, -, hheader⟩ := (mem_headersOf hmembers).1 (mem_map_of_mem hmember)
    obtain ⟨raw, -, hraw⟩ := (snapshotEntry_eq_ok hheader).path
    rw [← hpath]
    exact normalizePath_again_iff hraw

theorem boot_path_kept : SafeName (utf8 "boot/vmlinuz") ∧
      normalizePath (utf8 "boot/vmlinuz") = .ok (utf8 "boot/vmlinuz") := by
  have h : normalizePath (utf8 "./boot/vmlinuz") = .ok (utf8 "boot/vmlinuz") := rfl
  exact ((normalized_names_safe_iff _ sortedOrder []).1 _ h).2.2 ⟨by decide, by decide⟩

set_option maxRecDepth 10000 in
/-- Stripping `./` uncovers a drive prefix, which the next reader refuses; a NUL
stays in the name. -/
theorem drive_prefix_uncovered : normalizePath (utf8 "./c:x") = .ok (utf8 "c:x") ∧
      (∃ report, normalizePath (utf8 "c:x") = .error report) ∧
      normalizePath [0x61, 0, 0x62] = .ok [0x61, 0, 0x62] ∧ ∃ bytes entries last report,
        convert sortedOrder [tarFile "./c:x" "1"] [tarFile "./c:x" "1"] = .ok bytes ∧
        readArchive bytes = .ok (entries, last) ∧ readLayer 0 entries [] = .error report :=
  ⟨rfl, ⟨_, rfl⟩, rfl, _, _, _, _, rfl, rfl, rfl⟩

/-- **One trailer.**  An archive that `convert` or `flatten` writes has one record
named `TRAILER!!!`, the last one, exactly when no member and no path of the state
has that name; a reader that stops there has then seen every entry. -/
theorem single_trailer_iff (hash : KeyOrder) (tar : List TarEntry) (layers : List Layer) :
    (∀ bytes, convert hash tar tar = .ok bytes →
      ∃ members items, tar.mapM memberOf = .ok members ∧ writeArchive items = .ok bytes ∧
        (∀ p, (∃ item ∈ items, item.record.name = p) ↔ ∃ member ∈ members, member.path = p) ∧
        (SingleTrailer (writtenNames items) ↔ ∀ member ∈ members, member.path ≠ trailerName) ∧
        ((∀ member ∈ members, member.path ≠ trailerName ∧ Nameable member.path) →
          readArchive bytes = .ok (items.map entryOf, (entry trailer).entryOf))) ∧
    ∀ bytes, runBlocking layers = .ok bytes →
      ∃ state spool items, buildState layers = .ok (state, spool) ∧ Emits state spool items ∧
        writeArchive items = .ok bytes ∧
        (SingleTrailer (writtenNames items) ↔ trailerName ∉ state) ∧
        ((∀ p ∈ state, p ≠ trailerName ∧ Nameable p) →
          readArchive bytes = .ok (items.map entryOf, (entry trailer).entryOf)) := by
  constructor
  · intro bytes h
    obtain ⟨members, items, hmembers, hwrite, hnames⟩ := convert_names h
    refine ⟨members, items, hmembers, hwrite, hnames, ?_, fun hok => ?_⟩
    · rw [singleTrailer_iff]
      constructor
      · intro hall member hmember heq
        obtain ⟨item, hitem, hname⟩ := (hnames _).2 ⟨member, hmember, heq⟩
        exact hall item hitem hname
      · intro hall item hitem heq
        obtain ⟨member, hmember, hpath⟩ := (hnames _).1 ⟨item, hitem, heq⟩
        exact hall member hmember hpath
    · have hitems : ∀ item ∈ items, item.record.name ≠ trailerName ∧ Nameable item.record.name := by
        intro item hitem
        obtain ⟨member, hmember, hpath⟩ := (hnames _).1 ⟨item, hitem, rfl⟩
        rw [← hpath]
        exact hok member hmember
      exact readArchive_of_written hwrite (fun item hitem => (hitems item hitem).2)
        fun item hitem => (hitems item hitem).1
  · intro bytes h
    obtain ⟨⟨state, spool⟩, hstate, hemit⟩ := bind_eq_ok.1 h
    obtain ⟨items, hitems, hwrite⟩ := emit_eq_ok.1 hemit
    have hnames := hitems.name_iff
    refine ⟨state, spool, items, hstate, hitems, hwrite, ?_, fun hok => ?_⟩
    · rw [singleTrailer_iff, ← hnames, not_exists]
      exact forall_congr' fun item => not_and.symm
    · have hmem : ∀ item ∈ items, item.record.name ∈ state := fun item hitem =>
        (hnames _).1 ⟨item, hitem, rfl⟩
      exact readArchive_of_written hwrite (fun item hitem => (hok _ (hmem item hitem)).2)
        fun item hitem => (hok _ (hmem item hitem)).1

/-- A link that stands before its target: both names are read back. -/
theorem forwardLink_trailer :
    ∃ bytes members items, convert sortedOrder forwardLink forwardLink = .ok bytes ∧
      forwardLink.mapM memberOf = .ok members ∧ SingleTrailer (writtenNames items) ∧
      readArchive bytes = .ok (items.map entryOf, (entry trailer).entryOf) := by
  obtain ⟨bytes, hbytes⟩ : ∃ bytes, convert sortedOrder forwardLink forwardLink = .ok bytes :=
    ⟨_, rfl⟩
  obtain ⟨members, items, hmembers, -, -, hsingle, hread⟩ :=
    (single_trailer_iff sortedOrder forwardLink []).1 _ hbytes
  have hok : ∀ member ∈ members, member.path ≠ trailerName ∧ Nameable member.path := by
    obtain rfl := Except.ok.inj hmembers
    exact forall_mem_cons.2 ⟨⟨by decide, by decide, by decide⟩,
      (forall_mem_singleton).2 ⟨by decide, by decide, by decide⟩⟩
  exact ⟨bytes, members, items, hbytes, hmembers, hsingle.2 fun m hm => (hok m hm).1, hread hok⟩

def trailerNamed : List TarEntry := [tarFile "TRAILER!!!" "1", tarFile "a" "2"]

def layerFile (name content : String) : Entry :=
  { (Item.entry trailer).entryOf with name := utf8 name, mode := 0o100644, body := utf8 content }

/-- `./TRAILER!!!` is no trailer to the reader of the layer. -/
def trailerLayer : Layer where
  entries := [layerFile "./TRAILER!!!" "1", layerFile "a" "2"]
  sizes := by decide

set_option maxRecDepth 10000 in
/-- A reader stops at the first file of the one archive; the files behind it are lost. -/
theorem trailer_named_file :
    (∃ bytes last b rest, convert sortedOrder trailerNamed trailerNamed = .ok bytes ∧
      (readEntries bytes.length).run bytes = .ok (([], last), b :: rest)) ∧
    ∃ bytes last b rest, runBlocking [trailerLayer] = .ok bytes ∧
      (readEntries bytes.length).run bytes = .ok (([], last), b :: rest) :=
  ⟨⟨_, _, _, _, rfl, rfl⟩, _, _, _, _, rfl, rfl⟩

end Jyth.Image
