import Jyth.Boot.Archive
import Jyth.Image.Overlay

/-!
# Guest paths and overlay validation

`GuestPath::parse` and `validate_entries` of `boot-image/src/overlay.rs`.  A
path is its characters; its UTF-8 bytes name it in the archive, and the order of
the bytes is the order of the source's `String`.

    validateEntries entries = .ok v  ↔  all paths parse, are free to use and distinct,
      no file lies above another entry, and v holds the entries sorted by path   (validateEntries_eq_ok)

None of this depends on the order of the entries (`validateEntries_perm`).
-/

namespace Jyth.Boot

open Format Jyth.Image List Option

inductive GuestPathReason
  | nonRepresentable | nulByte | windowsPrefix | parentTraversal | emptyComponent
  | emptyTerminalName | tooLong
deriving DecidableEq

/-- The errors of the assembly.  The two texts of a conflict are the path and
what it conflicts with. -/
inductive BootImageError
  | invalidGuestPath (path : String) (reason : GuestPathReason)
  | duplicateOverlayPath (path : String)
  | overlayPathConflict (path : String) (conflict : String)
  | reservedOverlayPath (path : String)
  | invalidHostPath (path : String)
  | overlay (report : OverlayReport)
  | cache
  | initBuild
deriving DecidableEq

/-! ## `GuestPath` -/

/-- A normalized absolute path in the guest. -/
structure GuestPath where
  chars : List Char
deriving DecidableEq

namespace GuestPath

def nul : Char := Char.ofNat 0
def separator : Char := Char.ofNat 0x2f
def backslash : Char := Char.ofNat 0x5c
def period : Char := Char.ofNat 0x2e

def cpioName (path : GuestPath) : Bytes := utf8 (String.ofList path.chars)

def displayPath (path : GuestPath) : String := "/" ++ String.ofList path.chars

def isReserved (path : GuestPath) : Bool :=
  path.chars = "init".toList ∨ "init/".toList <+: path.chars ∨ path.chars = "TRAILER!!!".toList

def driveLetter (component : List Char) : Bool :=
  match utf8 (String.ofList component) with
  | b₀ :: b₁ :: _ =>
    b₁ = 0x3a ∧ (0x41 ≤ b₀ ∧ b₀ ≤ 0x5a ∨ 0x61 ≤ b₀ ∧ b₀ ≤ 0x7a)
  | _ => false

/-- The component loop: `.` is skipped, empty components and `..` are refused. -/
def canonicalComponents (shown : String) :
    List (List Char) → Except BootImageError (List (List Char))
  | [] => .ok []
  | component :: rest =>
    if component = [] then
      .error (.invalidGuestPath shown
        (if rest = [] then .emptyTerminalName else .emptyComponent))
    else if component = [period, period] then
      .error (.invalidGuestPath shown .parentTraversal)
    else if component = [period] then canonicalComponents shown rest
    else do
      let components ← canonicalComponents shown rest
      return component :: components

/-- A `String` is UTF-8, so the test for a path that is not never fails. -/
def parse (path : String) : Except BootImageError GuestPath := do
  let raw := path.toList
  failIf (nul ∈ raw) (.invalidGuestPath path .nulByte)
  let normalized := raw.map fun c => if c = backslash then separator else c
  failIf ([separator, separator] <+: normalized) (.invalidGuestPath path .windowsPrefix)
  let withoutLeadingSeparators := normalized.dropWhile (· = separator)
  failIf (withoutLeadingSeparators = []) (.invalidGuestPath path .emptyTerminalName)
  let rawComponents := withoutLeadingSeparators.splitOn separator
  let firstComponent := (rawComponents.find? fun c => c ≠ [] ∧ c ≠ [period]).getD []
  failIf (driveLetter firstComponent) (.invalidGuestPath path .windowsPrefix)
  let components ← canonicalComponents path rawComponents
  failIf (components = []) (.invalidGuestPath path .emptyTerminalName)
  let canonical : GuestPath := ⟨[separator].intercalate components⟩
  failIf (2 ^ 32 - 1 ≤ canonical.cpioName.length) (.invalidGuestPath path .tooLong)
  return canonical

theorem fromUtf8?_cpioName (path : GuestPath) :
    fromUtf8? path.cpioName = some (String.ofList path.chars) :=
  (fromUtf8?_eq_some _ _).2 rfl

theorem cpioName_injective : Function.Injective cpioName := by
  intro p q h
  have hs : String.ofList p.chars = String.ofList q.chars := by
    have hp := fromUtf8?_cpioName p
    rw [h, fromUtf8?_cpioName] at hp
    exact (some.inj hp).symm
  have hchars : p.chars = q.chars := by simpa using congrArg String.toList hs
  cases p
  cases q
  exact congrArg GuestPath.mk hchars

variable {c : Char} {guest : GuestPath}

theorem zero_mem_utf8EncodeChar (h : 0 ∈ String.utf8EncodeChar c) : c = nul := by
  have hnat : ∀ n, 0 < n → n < 256 → (0 : UInt8) ≠ UInt8.ofNat n := by
    intro n hpos hlt hzero
    have := congrArg UInt8.toNat hzero
    rw [UInt8.toNat_ofNat'] at this
    simp at this
    omega
  have hval : c.val.toNat = 0 := by
    by_contra hne
    simp only [String.utf8EncodeChar] at h
    split_ifs at h with h1 h2 h3 <;> simp only [mem_cons, not_mem_nil, or_false] at h
    · exact hnat _ (by omega) (by omega) h
    · rcases h with h | h <;> exact hnat _ (by omega) (by omega) h
    · rcases h with h | h | h <;> exact hnat _ (by omega) (by omega) h
    · rcases h with h | h | h | h <;> exact hnat _ (by omega) (by omega) h
  apply Char.ext
  exact UInt32.toNat_inj.1 hval

variable {path : GuestPath}

theorem zero_not_mem_cpioName (h : nul ∉ path.chars) : 0 ∉ path.cpioName := by
  intro hzero
  have hbytes : path.cpioName = path.chars.flatMap String.utf8EncodeChar := by
    simp [cpioName, utf8, utf8Encode]
  rw [hbytes, mem_flatMap] at hzero
  obtain ⟨c, hc, hzero⟩ := hzero
  exact h (zero_mem_utf8EncodeChar hzero ▸ hc)

def components (path : GuestPath) : List (List Char) := path.chars.splitOn separator

/-! ## Canonical paths -/

/-- A component that a guest path may have. -/
structure PlainComponent (component : List Char) : Prop where
  nonempty : component ≠ []
  notDot : component ≠ [period]
  notParent : component ≠ [period, period]
  noSeparator : separator ∉ component
  noBackslash : backslash ∉ component
  noNul : nul ∉ component

/-- What `parse` makes of its input. -/
structure Canonical (path : GuestPath) : Prop where
  plain : ∀ component ∈ path.components, PlainComponent component
  noDrive : driveLetter (path.components.head?.getD []) = false
  fits : path.cpioName.length < 2 ^ 32 - 1

theorem canonicalComponents_eq_ok (shown : String) (raw components : List (List Char)) :
    canonicalComponents shown raw = .ok components ↔
      (∀ component ∈ raw, component ≠ [] ∧ component ≠ [period, period]) ∧
        components = raw.filter (· ≠ [period]) := by
  refine (sieve_eq_ok (f := canonicalComponents shown) (fun c => c = [] ∨ c = [period, period])
    (fun c => c = [period]) rfl ?_ ?_ ?_ raw components).trans ?_
  · rintro component rest (rfl | rfl) components <;> simp [canonicalComponents]
  · intro component rest hrefused hdot
    rw [not_or] at hrefused
    rw [canonicalComponents, if_neg hrefused.1, if_neg hrefused.2, if_pos hdot]
  · intro component rest hrefused hdot
    rw [not_or] at hrefused
    rw [canonicalComponents, if_neg hrefused.1, if_neg hrefused.2, if_neg hdot]
  · simp only [not_or]

theorem intercalate_components (path : GuestPath) :
    [separator].intercalate path.components = path.chars := intercalate_splitOn separator

theorem components_intercalate {components : List (List Char)}
    (hsep : ∀ component ∈ components, separator ∉ component) (hne : components ≠ []) :
    GuestPath.components ⟨[separator].intercalate components⟩ = components :=
  splitOn_intercalate separator hsep hne

theorem mem_of_mem_component {input component : List Char} {p : Char → Bool}
    (hmem : component ∈ ((input.map fun c => if c = backslash then separator else c).dropWhile
      p).splitOn separator) (hc : c ∈ component) : c ∈ input ∧ c ≠ backslash := by
  obtain ⟨c', hinput, heq⟩ := mem_map.1 (dropWhile_subset _ (Segments.mem_of_mem_splitOn hmem hc))
  by_cases hback : c' = backslash
  · rw [if_pos hback] at heq
    exact absurd (heq ▸ hc) (Segments.not_mem_of_mem_splitOn _ _ _ hmem)
  · rw [if_neg hback] at heq
    exact heq ▸ ⟨hinput, hback⟩

theorem canonical_of_parse {path : String} (h : parse path = .ok guest) : Canonical guest := by
  simp only [parse] at h
  rw [check_bind_eq_ok, failIf_eq_ok] at h
  obtain ⟨hnul, h⟩ := h
  rw [check_bind_eq_ok] at h
  obtain ⟨-, h⟩ := h
  rw [check_bind_eq_ok] at h
  obtain ⟨-, h⟩ := h
  rw [check_bind_eq_ok, failIf_eq_ok] at h
  obtain ⟨hdrive, h⟩ := h
  obtain ⟨components, hcomponents, h⟩ := bind_eq_ok.1 h
  rw [check_bind_eq_ok, failIf_eq_ok] at h
  obtain ⟨hne, h⟩ := h
  rw [check_bind_eq_ok, failIf_eq_ok, pure_eq_ok] at h
  obtain ⟨hlen, rfl⟩ := h
  generalize hraw : splitOn separator _ = raw at hdrive hcomponents
  obtain ⟨hall, rfl⟩ := (canonicalComponents_eq_ok _ _ _).1 hcomponents
  have hplain : ∀ component ∈ raw.filter (· ≠ [period]), PlainComponent component := by
    intro component hmem
    obtain ⟨hmem, hdot⟩ := mem_filter.1 hmem
    obtain ⟨hempty, hparent⟩ := hall component hmem
    rw [← hraw] at hmem
    exact ⟨hempty, by simpa using hdot, hparent, Segments.not_mem_of_mem_splitOn _ _ _ hmem,
      fun hc => (mem_of_mem_component hmem hc).2 rfl, fun hc => hnul (mem_of_mem_component hmem hc).1⟩
  have hback := components_intercalate (fun component hmem => (hplain component hmem).noSeparator) hne
  refine ⟨by rwa [hback], ?_, by omega⟩
  have hfind : raw.find? (fun c => c ≠ [] ∧ c ≠ [period]) = (raw.filter (· ≠ [period])).head? := by
    rw [← head?_filter]
    refine congrArg head? (filter_congr fun component hmem => ?_)
    simp [(hall component hmem).1]
  rw [hback, ← hfind]
  exact Bool.eq_false_iff.2 hdrive

theorem Canonical.not_mem (h : Canonical path) (hsep : c ≠ separator)
    (hplain : ∀ component, PlainComponent component → c ∉ component) : c ∉ path.chars := by
  intro hmem
  rw [← intercalate_components] at hmem
  rcases Segments.mem_intercalate hmem with heq | ⟨component, hcomponent, hc⟩
  · exact hsep heq
  · exact hplain component (h.plain component hcomponent) hc

theorem nameOk_of_parse {path : String} (h : parse path = .ok guest) : NameOk guest.cpioName := by
  have hcanonical := canonical_of_parse h
  have hnul : nul ∉ guest.chars := hcanonical.not_mem (by decide) fun _ hplain => hplain.noNul
  refine ⟨zero_not_mem_cpioName hnul, ?_, ?_⟩
  · rw [fromUtf8?_cpioName]
    rfl
  · have hfits := hcanonical.fits
    omega

end GuestPath

/-! ## `validate_entries` -/

inductive OverlayEntryKind
  | file (content : Bytes) (mode : UInt32) (origin : String)
  | directory (mode : UInt32)
deriving DecidableEq

structure GuestOverlayEntry where
  path : String
  kind : OverlayEntryKind
deriving DecidableEq

inductive EntryKind
  | file | directory
deriving DecidableEq

def EntryKind.label : EntryKind → String
  | file => "file"
  | directory => "directory"

structure ResolvedFile where
  path : GuestPath
  mode : UInt32
  data : Bytes
  origin : String
deriving DecidableEq

structure ValidatedDir where
  path : GuestPath
  mode : UInt32
deriving DecidableEq

structure ValidatedOverlay where
  files : List ResolvedFile
  dirs : List ValidatedDir
deriving DecidableEq

def registerOverlayPath (registry : PathMap EntryKind) (path : GuestPath) (kind : EntryKind) :
    Except BootImageError (PathMap EntryKind) :=
  if path.isReserved then .error (.reservedOverlayPath path.displayPath)
  else match registry[path.cpioName]? with
    | none => .ok (registry.insert path.cpioName kind)
    | some previous =>
      if previous = kind then .error (.duplicateOverlayPath path.displayPath)
      else .error (.overlayPathConflict path.displayPath
        ("already registered as a " ++ previous.label))

/-- What the loop over the entries has collected. -/
structure Collected where
  registry : PathMap EntryKind
  files : List ResolvedFile
  dirs : List ValidatedDir

def OverlayEntryKind.tag : OverlayEntryKind → EntryKind
  | file _ _ _ => .file
  | directory _ => .directory

def fileOf : GuestPath × OverlayEntryKind → Option ResolvedFile
  | (path, .file content mode origin) => some ⟨path, mode, content, origin⟩
  | (_, .directory _) => none

def dirOf : GuestPath × OverlayEntryKind → Option ValidatedDir
  | (_, .file _ _ _) => none
  | (path, .directory mode) => some ⟨path, mode⟩

def parseEntry (entry : GuestOverlayEntry) :
    Except BootImageError (GuestPath × OverlayEntryKind) := do
  let path ← GuestPath.parse entry.path
  return (path, entry.kind)

def collect (state : Collected) (parsed : GuestPath × OverlayEntryKind) :
    Except BootImageError Collected := do
  let registry ← registerOverlayPath state.registry parsed.1 parsed.2.tag
  return ⟨registry, state.files ++ (fileOf parsed).toList, state.dirs ++ (dirOf parsed).toList⟩

def beforeLastSeparator (path : List Char) : Option (List Char) :=
  if GuestPath.separator ∈ path then
    some (path.reverse.dropWhile (· ≠ GuestPath.separator)).tail.reverse
  else none

/-- The parents of a path, nearest first.  Each is shorter than the one before,
so the length of the path is fuel enough. -/
def parents : Nat → List Char → List (List Char)
  | 0, _ => []
  | fuel + 1, path =>
    match beforeLastSeparator path with
    | none => []
    | some parent => parent :: parents fuel parent

def checkAncestors (registry : PathMap EntryKind) (name : Bytes) : Except BootImageError Unit :=
  let path := ((fromUtf8? name).getD "").toList
  match (parents path.length path).find? fun parent =>
      registry[GuestPath.cpioName ⟨parent⟩]? = some .file with
  | none => .ok ()
  | some parent => .error (.overlayPathConflict (GuestPath.displayPath ⟨path⟩)
      ("file ancestor /" ++ String.ofList parent))

def sortByPath {β : Type} (path : β → GuestPath) (l : List β) : List β :=
  l.insertionSort fun a b => (compare (path a).cpioName (path b).cpioName).isLE

def validateEntries (entries : List GuestOverlayEntry) : Except BootImageError ValidatedOverlay := do
  let state ← entries.foldlM (fun state entry => parseEntry entry >>= collect state) ⟨∅, [], []⟩
  state.registry.keys.forM (checkAncestors state.registry)
  return ⟨sortByPath ResolvedFile.path state.files, sortByPath ValidatedDir.path state.dirs⟩

/-! ### What is accepted -/

abbrev ParsedEntry := GuestPath × OverlayEntryKind

def ParsedEntry.name (parsed : ParsedEntry) : Bytes := parsed.1.cpioName

def registryOf (parsed : List ParsedEntry) : PathMap EntryKind :=
  parsed.foldl (fun registry p => registry.insert p.name p.2.tag) ∅

def collected (parsed : List ParsedEntry) : Collected :=
  ⟨registryOf parsed, parsed.filterMap fileOf, parsed.filterMap dirOf⟩

theorem registryOf_concat (parsed : List ParsedEntry) (p : ParsedEntry) :
    registryOf (parsed ++ [p]) = (registryOf parsed).insert p.name p.2.tag := by
  rw [registryOf, foldl_append]
  rfl

variable {parsed : List ParsedEntry}

open ParsedEntry

theorem getElem?_registryOf (h : (parsed.map name).Nodup) (name : Bytes) (kind : EntryKind) :
    (registryOf parsed)[name]? = some kind ↔ ∃ p ∈ parsed, p.name = name ∧ p.2.tag = kind := by
  induction parsed using reverseRecOn with
  | nil => simp [registryOf]
  | append_singleton parsed p ih =>
    rw [map_append, nodup_append] at h
    obtain ⟨hnodup, -, hdisjoint⟩ := h
    rw [registryOf_concat, getElem?_insert_path]
    by_cases hname : name = p.name
    · rw [if_pos hname]
      constructor
      · intro hkind
        exact ⟨p, by simp, hname.symm, some.inj hkind⟩
      · rintro ⟨q, hq, hqname, rfl⟩
        rcases mem_append.1 hq with hq | hq
        · exact absurd (hqname.trans hname) (hdisjoint _ (mem_map_of_mem hq) _ (by simp))
        · rw [mem_singleton.1 hq]
    · rw [if_neg hname, ih hnodup]
      constructor
      · rintro ⟨q, hq, hrest⟩
        exact ⟨q, mem_append_left _ hq, hrest⟩
      · rintro ⟨q, hq, hqname, hkind⟩
        rcases mem_append.1 hq with hq | hq
        · exact ⟨q, hq, hqname, hkind⟩
        · exact absurd (mem_singleton.1 hq ▸ hqname.symm) hname

theorem registerOverlayPath_eq_ok (registry registry' : PathMap EntryKind) (path : GuestPath)
    (kind : EntryKind) : registerOverlayPath registry path kind = .ok registry' ↔
      path.isReserved = false ∧ registry[path.cpioName]? = none ∧
        registry' = registry.insert path.cpioName kind := by
  unfold registerOverlayPath
  cases hreserved : path.isReserved with
  | true => simp
  | false =>
    cases hfound : registry[path.cpioName]? with
    | none => simp [eq_comm]
    | some previous => by_cases h : previous = kind <;> simp [h]

/-- Entries are collected when none is reserved and no two have the same path. -/
structure Distinct (parsed : List ParsedEntry) : Prop where
  free : ∀ p ∈ parsed, p.1.isReserved = false
  nodup : (parsed.map ParsedEntry.name).Nodup

theorem getElem?_registryOf_eq_none (h : (parsed.map name).Nodup) (name : Bytes) :
    (registryOf parsed)[name]? = none ↔ name ∉ parsed.map ParsedEntry.name := by
  rw [eq_none_iff_forall_ne_some]
  constructor
  · intro hnone hmem
    obtain ⟨p, hp, hname⟩ := mem_map.1 hmem
    exact hnone p.2.tag ((getElem?_registryOf h name _).2 ⟨p, hp, hname, rfl⟩)
  · intro hmem kind hkind
    obtain ⟨p, hp, hname, -⟩ := (getElem?_registryOf h name kind).1 hkind
    exact hmem (mem_map.2 ⟨p, hp, hname⟩)

variable {entries : List GuestOverlayEntry} {p : ParsedEntry}

theorem distinct_concat : Distinct (parsed ++ [p]) ↔
      Distinct parsed ∧ p.1.isReserved = false ∧ p.name ∉ parsed.map name := by
  constructor
  · rintro ⟨hfree, hnodup⟩
    rw [map_append, nodup_append] at hnodup
    refine ⟨⟨fun q hq => hfree q (mem_append_left _ hq), hnodup.1⟩, hfree p (by simp), ?_⟩
    intro hmem
    exact hnodup.2.2 _ hmem _ (by simp) rfl
  · rintro ⟨⟨hfree, hnodup⟩, hp, hmem⟩
    refine ⟨fun q hq => ?_, ?_⟩
    · rcases mem_append.1 hq with hq | hq
      · exact hfree q hq
      · rw [mem_singleton.1 hq]
        exact hp
    · rw [map_append, nodup_append]
      refine ⟨hnodup, by simp, ?_⟩
      intro a ha b hb
      rw [map_singleton, mem_singleton] at hb
      rintro rfl
      exact hmem (hb ▸ ha)

def Collected.add (state : Collected) (p : ParsedEntry) : Collected :=
  ⟨state.registry.insert p.name p.2.tag, state.files ++ (fileOf p).toList,
    state.dirs ++ (dirOf p).toList⟩

theorem collect_eq_ok (state state' : Collected) (p : ParsedEntry) : collect state p = .ok state' ↔
      p.1.isReserved = false ∧ state.registry[p.name]? = none ∧ state' = state.add p := by
  rw [collect, bind_eq_ok]
  constructor
  · rintro ⟨registry, hregister, h⟩
    obtain ⟨hfree, hnone, rfl⟩ := (registerOverlayPath_eq_ok _ _ _ _).1 hregister
    exact ⟨hfree, hnone, (pure_eq_ok.1 h).symm⟩
  · rintro ⟨hfree, hnone, rfl⟩
    exact ⟨_, (registerOverlayPath_eq_ok _ _ _ _).2 ⟨hfree, hnone, rfl⟩, rfl⟩

theorem collected_concat (parsed : List ParsedEntry) (p : ParsedEntry) :
    collected (parsed ++ [p]) = (collected parsed).add p := by
  have hone : ∀ {β : Type} (f : ParsedEntry → Option β), [p].filterMap f = (f p).toList := by
    intro β f
    cases h : f p <;> simp [h]
  simp only [collected, Collected.add, registryOf_concat, filterMap_append, hone]

theorem foldlM_collect (parsed : List ParsedEntry) (state : Collected) :
    parsed.foldlM collect ⟨∅, [], []⟩ = .ok state ↔ Distinct parsed ∧ state = collected parsed := by
  induction parsed using reverseRecOn generalizing state with
  | nil =>
    rw [foldlM_nil, pure_eq_ok]
    exact ⟨fun h => ⟨⟨by simp, by simp⟩, h.symm⟩, fun h => h.2.symm⟩
  | append_singleton parsed p ih =>
    rw [foldlM_append, bind_eq_ok, collected_concat, distinct_concat]
    simp only [foldlM_cons, foldlM_nil, ih, bind_pure]
    constructor
    · rintro ⟨_, ⟨hdistinct, rfl⟩, h⟩
      obtain ⟨hfree, hnone, rfl⟩ := (collect_eq_ok _ _ _).1 h
      exact ⟨⟨hdistinct, hfree, (getElem?_registryOf_eq_none hdistinct.nodup _).1 hnone⟩, rfl⟩
    · rintro ⟨⟨hdistinct, hfree, hmem⟩, rfl⟩
      exact ⟨_, ⟨hdistinct, rfl⟩, (collect_eq_ok _ _ _).2
        ⟨hfree, (getElem?_registryOf_eq_none hdistinct.nodup _).2 hmem, rfl⟩⟩

/-- No parent of the name is registered as a file. -/
def NoFileAbove (registry : PathMap EntryKind) (name : Bytes) : Prop :=
  let path := ((fromUtf8? name).getD "").toList
  ∀ parent ∈ parents path.length path, registry[GuestPath.cpioName ⟨parent⟩]? ≠ some .file

theorem checkAncestors_eq_ok (registry : PathMap EntryKind) (name : Bytes) :
    checkAncestors registry name = .ok () ↔ NoFileAbove registry name := by
  simp only [checkAncestors, NoFileAbove]
  split
  · next hfind => simpa using hfind
  · next parent hfind =>
    have hmem := mem_of_find?_eq_some hfind
    have hfile := find?_some hfind
    simp only [reduceCtorEq, false_iff, not_forall]
    exact ⟨parent, hmem, by simpa using hfile⟩

/-- Distinct names, none of them below a file. -/
structure Acceptable (parsed : List ParsedEntry) : Prop where
  distinct : Distinct parsed
  ancestors : ∀ name ∈ registryOf parsed, NoFileAbove (registryOf parsed) name

def validated (parsed : List ParsedEntry) : ValidatedOverlay :=
  ⟨sortByPath ResolvedFile.path (parsed.filterMap fileOf),
    sortByPath ValidatedDir.path (parsed.filterMap dirOf)⟩

theorem validateEntries_eq_ok (entries : List GuestOverlayEntry) (v : ValidatedOverlay) :
    validateEntries entries = .ok v ↔
      ∃ parsed, List.Forall₂ (fun entry p => parseEntry entry = .ok p) entries parsed ∧
        Acceptable parsed ∧ v = validated parsed := by
  rw [validateEntries, bind_eq_ok]
  simp only [check_bind_eq_ok, forM_eq_ok, checkAncestors_eq_ok, pure_eq_ok, foldlM_bind_eq_ok,
    foldlM_collect, Std.ExtTreeMap.mem_keys]
  constructor
  · rintro ⟨_, ⟨parsed, hparsed, hdistinct, rfl⟩, hancestors, rfl⟩
    exact ⟨parsed, hparsed, ⟨hdistinct, hancestors⟩, rfl⟩
  · rintro ⟨parsed, hparsed, h, rfl⟩
    exact ⟨_, ⟨parsed, hparsed, h.distinct, rfl⟩, h.ancestors, rfl⟩

theorem fileOf_path (p : ParsedEntry) (file : ResolvedFile) (h : fileOf p = some file) :
    file.path = p.1 := by
  obtain ⟨path, kind⟩ := p
  cases kind <;> simp only [fileOf, some.injEq, reduceCtorEq] at h
  rw [← h]

theorem dirOf_path (p : ParsedEntry) (dir : ValidatedDir) (h : dirOf p = some dir) :
    dir.path = p.1 := by
  obtain ⟨path, kind⟩ := p
  cases kind <;> simp only [dirOf, some.injEq, reduceCtorEq] at h
  rw [← h]

/-- A path that can be written and is not reserved. -/
structure PathOk (path : GuestPath) : Prop where
  name : NameOk path.cpioName
  free : path.isReserved = false

theorem pathOk_of_parsed (h : List.Forall₂ (fun entry p => parseEntry entry = .ok p) entries parsed)
    (hfree : ∀ p ∈ parsed, p.1.isReserved = false) (hp : p ∈ parsed) : PathOk p.1 := by
  obtain ⟨entry, -, hparse⟩ := exists_left_of_forall₂ h hp
  obtain ⟨path, hpath, hpure⟩ := bind_eq_ok.1 hparse
  cases hpure
  exact ⟨GuestPath.nameOk_of_parse hpath, hfree _ hp⟩

variable {v : ValidatedOverlay}

theorem validateEntries_paths (h : validateEntries entries = .ok v) :
    (∀ file ∈ v.files, PathOk file.path) ∧ ∀ dir ∈ v.dirs, PathOk dir.path := by
  obtain ⟨parsed, hparsed, haccept, rfl⟩ := (validateEntries_eq_ok _ _).1 h
  constructor
  · intro file hfile
    obtain ⟨p, hp, hof⟩ := mem_filterMap.1 ((mem_insertionSort _).1 hfile)
    rw [fileOf_path p file hof]
    exact pathOk_of_parsed hparsed haccept.distinct.free hp
  · intro dir hdir
    obtain ⟨p, hp, hof⟩ := mem_filterMap.1 ((mem_insertionSort _).1 hdir)
    rw [dirOf_path p dir hof]
    exact pathOk_of_parsed hparsed haccept.distinct.free hp

/-! ### The order of the entries -/

theorem registryOf_perm {parsed' : List ParsedEntry} (h : parsed.Perm parsed')
    (hnodup : (parsed.map name).Nodup) : registryOf parsed = registryOf parsed' := by
  have hnodup' := (h.map name).nodup_iff.1 hnodup
  apply Std.ExtTreeMap.ext_getElem?
  intro name
  apply ext
  intro kind
  rw [getElem?_registryOf hnodup, getElem?_registryOf hnodup']
  simp only [h.mem_iff]

section
variable {β : Type} (path : β → GuestPath)

/-- The order `sort_by` sorts by. -/
def pathLE (a b : β) : Prop := (compare (path a).cpioName (path b).cpioName).isLE

instance : DecidableRel (pathLE path) := fun _ _ => inferInstanceAs (Decidable (_ = true))

instance : Std.Total (pathLE path) := ⟨fun a b => by
  have hswap : compare (path b).cpioName (path a).cpioName =
      (compare (path a).cpioName (path b).cpioName).swap := Std.OrientedCmp.eq_swap
  unfold pathLE
  rw [hswap]
  cases compare (path a).cpioName (path b).cpioName <;> decide⟩

instance : IsTrans β (pathLE path) := ⟨fun _ _ _ h h' => Std.TransOrd.isLE_trans h h'⟩

theorem sortByPath_eq (l : List β) : sortByPath path l = l.insertionSort (pathLE path) := rfl

variable {path}

theorem sortByPath_perm {l l' : List β} (h : l.Perm l')
    (hnodup : (l.map fun b => (path b).cpioName).Nodup) : sortByPath path l = sortByPath path l' := by
  rw [sortByPath_eq, sortByPath_eq]
  refine List.Perm.eq_of_pairwise ?_ (pairwise_insertionSort _ _)
    (pairwise_insertionSort _ _)
    ((perm_insertionSort _ l).trans (h.trans (perm_insertionSort _ l').symm))
  intro a b ha hb hab hba
  have ha : a ∈ l := (mem_insertionSort _).1 ha
  have hb : b ∈ l := h.mem_iff.2 ((mem_insertionSort _).1 hb)
  have hname := Std.LawfulEqCmp.eq_of_compare (Std.OrientedCmp.isLE_antisymm hab hba)
  exact inj_on_of_nodup_map hnodup ha hb hname

end

variable {parsed parsed' : List ParsedEntry}

theorem Acceptable.perm (h : Acceptable parsed)
    (hperm : parsed.Perm parsed') : Acceptable parsed' := by
  have hregistry := registryOf_perm hperm h.distinct.nodup
  refine ⟨⟨fun p hp => h.distinct.free p (hperm.mem_iff.2 hp),
    (hperm.map name).nodup_iff.1 h.distinct.nodup⟩, ?_⟩
  rw [← hregistry]
  exact h.ancestors

theorem nodup_filterMap {β : Type} {f : ParsedEntry → Option β} {path : β → GuestPath}
    (hf : ∀ p b, f p = some b → path b = p.1) {parsed : List ParsedEntry}
    (h : (parsed.map name).Nodup) :
    ((parsed.filterMap f).map fun b => (path b).cpioName).Nodup := by
  have hpairwise : parsed.Pairwise fun p q => p.name ≠ q.name := pairwise_map.1 h
  refine pairwise_map.2 (hpairwise.filterMap f fun p q hne b hb b' hb' => ?_)
  rw [hf p b hb, hf q b' hb']
  exact hne

theorem validated_perm (h : parsed.Perm parsed')
    (hnodup : (parsed.map name).Nodup) : validated parsed = validated parsed' := by
  rw [validated, validated,
    sortByPath_perm (h.filterMap fileOf) (nodup_filterMap fileOf_path hnodup),
    sortByPath_perm (h.filterMap dirOf) (nodup_filterMap dirOf_path hnodup)]

theorem validateEntries_perm {entries entries' : List GuestOverlayEntry}
    (h : entries.Perm entries') (hv : validateEntries entries = .ok v) :
    validateEntries entries' = .ok v := by
  obtain ⟨parsed, hparsed, haccept, rfl⟩ := (validateEntries_eq_ok _ _).1 hv
  obtain ⟨parsed', hparsed', hperm⟩ := perm_comp_forall₂ h.symm hparsed
  exact (validateEntries_eq_ok _ _).2 ⟨parsed', hparsed', haccept.perm hperm.symm,
    validated_perm hperm.symm haccept.distinct.nodup⟩

end Jyth.Boot
