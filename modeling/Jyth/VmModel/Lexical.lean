import Jyth.Lib.Format

/-!
# Lexical normalization

`normalize_lexically` of `vm-model/src/path.rs` over the components of any Windows path, as the
standard library reads them.  The result is put together with `PathBuf::push`, which reads each
name as a path of its own: the name `D:b` below `C:\a` takes the place of all that was pushed
before.  Names with a `/` in them, which only a verbatim path can have, are left out.

    absolute → the claim holds ↔ a `..` escapes, or no name starts with a drive
                                                                  (normalized_path_iff)
-/

namespace Jyth.Lexical

open Format List

inductive PathError
  | notAbsolute | escapesRoot
deriving DecidableEq

abbrev Name := List UInt16

def colon : UInt16 := 0x3a
def backslash : UInt16 := 0x5c

def isDriveLetter (u : UInt16) : Bool := (0x41 ≤ u && u ≤ 0x5a) || (0x61 ≤ u && u ≤ 0x7a)

/-- What `components` yields behind the prefix and the root. -/
inductive Part
  | curDir | parentDir | normal (name : Name)
deriving DecidableEq

/-- A path that was read: the text of its prefix, and what is behind it. -/
structure ParsedPath where
  volume : Name
  rooted : Bool
  parts : List Part
deriving DecidableEq

def ParsedPath.isAbsolute (path : ParsedPath) : Bool := path.volume ≠ [] && path.rooted

/-- A path that is built. -/
structure PathBuf where
  volume : Name
  rooted : Bool
  names : List Name
deriving DecidableEq

def PathBuf.parse (path : PathBuf) : ParsedPath := ⟨path.volume, path.rooted, path.names.map .normal⟩

/-- The name starts with a drive, so that it has a prefix where it is read on its own. -/
def hasDrive : Name → Bool
  | letter :: second :: _ => isDriveLetter letter && second = colon
  | _ => false

def PathBuf.push (path : PathBuf) (name : Name) : PathBuf :=
  if hasDrive name then ⟨name.take 2, false, if name.length = 2 then [] else [name.drop 2]⟩
  else { path with names := path.names ++ [name] }

def normalizeStep (path : PathBuf) : Part → Except PathError PathBuf
  | .curDir => .ok path
  | .parentDir =>
    if path.names = [] then .error .escapesRoot else .ok { path with names := path.names.dropLast }
  | .normal name => .ok (path.push name)

/-- Prefix and root are pushed first. -/
def normalizeLexically (path : ParsedPath) : Except PathError PathBuf := do
  failIf (path.isAbsolute = false) .notAbsolute
  path.parts.foldlM normalizeStep ⟨path.volume, path.rooted, []⟩

/-! ## What the parts denote -/

/-- Where a part leads from below the root, in a tree without links. -/
def follow (names : List Name) : Part → List Name
  | .curDir => names
  | .parentDir => names.dropLast
  | .normal name => names ++ [name]

def ParsedPath.location (path : ParsedPath) : List Name := path.parts.foldl follow []

def Part.isNormal : Part → Bool
  | .normal _ => true
  | _ => false

/-- Some of the first parts lead above the root. -/
def Escapes (parts : List Part) : Prop :=
  ∃ front, front <+: parts ∧ front.countP Part.isNormal < front.count .parentDir

/-- No name starts with a drive. -/
def Plain (parts : List Part) : Prop :=
  ∀ name, .normal name ∈ parts → hasDrive name = false

/-! ## The loop -/

section Loop

variable {parts : List Part} {part : Part} {path result : PathBuf}

theorem push_of_plain {name : Name} (h : hasDrive name = false) (path : PathBuf) :
    path.push name = { path with names := path.names ++ [name] } :=
  if_neg (by simp [h])

theorem length_push_le (path : PathBuf) (name : Name) :
    (path.push name).names.length ≤ path.names.length + 1 := by
  unfold PathBuf.push
  split
  · dsimp only
    split <;> simp
  · simp

/-- A step goes no deeper than the part leads; a drive only loses depth. -/
theorem normalizeStep_depth (h : normalizeStep path part = .ok result) :
    result.names.length + [part].count .parentDir ≤
      path.names.length + [part].countP Part.isNormal := by
  cases part with
  | curDir =>
    cases h
    exact Nat.le_refl _
  | parentDir =>
    rw [normalizeStep] at h
    split at h
    · cases h
    · next hne =>
      cases h
      have hpos := length_pos_of_ne_nil hne
      show path.names.dropLast.length + 1 ≤ path.names.length + 0
      rw [length_dropLast]
      omega
  | normal name =>
    cases h
    exact length_push_le path name

theorem foldlM_depth (h : parts.foldlM normalizeStep path = .ok result) :
    result.names.length + parts.count .parentDir ≤
      path.names.length + parts.countP Part.isNormal := by
  induction parts generalizing path with
  | nil =>
    cases h
    exact Nat.le_refl _
  | cons part parts ih =>
    obtain ⟨next, hnext, hrest⟩ := (bind_eq_ok ..).1 h
    have hstep := normalizeStep_depth hnext
    have hloop := ih hrest
    rw [← singleton_append, count_append, countP_append]
    omega

theorem foldlM_error {e : PathError} (h : parts.foldlM normalizeStep path = .error e) :
    e = .escapesRoot := by
  induction parts generalizing path with
  | nil => cases h
  | cons part parts ih =>
    rw [foldlM_cons] at h
    cases hnext : normalizeStep path part with
    | ok next =>
      rw [hnext] at h
      exact ih h
    | error e' =>
      rw [hnext] at h
      cases h
      cases part with
      | curDir => cases hnext
      | normal name => cases hnext
      | parentDir =>
        rw [normalizeStep] at hnext
        split at hnext
        · exact (Except.error.inj hnext).symm
        · cases hnext

theorem foldlM_of_escapes (h : Escapes parts) {path : PathBuf} (hroot : path.names = []) :
    parts.foldlM normalizeStep path = .error .escapesRoot := by
  obtain ⟨front, ⟨rest, rfl⟩, hlt⟩ := h
  rw [foldlM_append]
  cases hfront : front.foldlM normalizeStep path with
  | ok result =>
    have hdepth := foldlM_depth hfront
    rw [hroot, length_nil] at hdepth
    omega
  | error e =>
    rw [foldlM_error hfront]
    rfl

/-- Below the root, names that are pushed as they are lead where the parts lead. -/
theorem foldlM_of_plain {names : List Name} (hplain : Plain parts)
    (hbelow : ∀ front, front <+: parts →
      front.count .parentDir ≤ names.length + front.countP Part.isNormal) (volume : Name)
    (rooted : Bool) : parts.foldlM normalizeStep ⟨volume, rooted, names⟩ =
      .ok ⟨volume, rooted, parts.foldl follow names⟩ := by
  induction parts generalizing names with
  | nil => rfl
  | cons part parts ih =>
    have hrest : Plain parts := fun name hmem => hplain name (mem_cons_of_mem _ hmem)
    have hfirst := hbelow [part] ⟨parts, rfl⟩
    have hstep : normalizeStep ⟨volume, rooted, names⟩ part =
        .ok ⟨volume, rooted, follow names part⟩ := by
      cases part with
      | curDir => rfl
      | parentDir =>
        refine if_neg fun hnil => ?_
        rw [show names = [] from hnil] at hfirst
        exact absurd hfirst (by decide)
      | normal name => exact congrArg Except.ok (push_of_plain (hplain name mem_cons_self) _)
    have hdepth : (follow names part).length + [part].count .parentDir =
        names.length + [part].countP Part.isNormal := by
      cases part with
      | curDir => rfl
      | parentDir =>
        have hpos : 1 ≤ names.length + 0 := hfirst
        show names.dropLast.length + 1 = names.length + 0
        rw [length_dropLast]
        omega
      | normal name => simp [follow, Part.isNormal]
    rw [foldlM_cons, hstep]
    refine ih hrest fun front hfront => ?_
    have hall := hbelow (part :: front) ((prefix_cons_inj part).2 hfront)
    rw [← singleton_append, count_append, countP_append] at hall
    omega

/-- The root is lost with the first name that starts with a drive. -/
theorem foldlM_rooted (h : parts.foldlM normalizeStep path = .ok result)
    (hrooted : result.rooted = true) : path.rooted = true ∧ Plain parts := by
  induction parts generalizing path with
  | nil =>
    cases h
    exact ⟨hrooted, fun _ => nofun⟩
  | cons part parts ih =>
    obtain ⟨next, hnext, hrest⟩ := (bind_eq_ok ..).1 h
    obtain ⟨hroot, hplain⟩ := ih hrest
    suffices hstep : path.rooted = true ∧ ∀ name, part = .normal name → hasDrive name = false by
      refine ⟨hstep.1, fun name hmem => ?_⟩
      rcases mem_cons.1 hmem with hname | hmem
      · exact hstep.2 name hname.symm
      · exact hplain name hmem
    cases part with
    | curDir =>
      cases hnext
      exact ⟨hroot, fun _ => nofun⟩
    | parentDir =>
      rw [normalizeStep] at hnext
      split at hnext
      · cases hnext
      · cases hnext
        exact ⟨hroot, fun _ => nofun⟩
    | normal name =>
      cases hnext
      by_cases hdrive : hasDrive name = true
      · rw [PathBuf.push, if_pos hdrive] at hroot
        cases hroot
      · have hname := Bool.not_eq_true _ ▸ hdrive
        rw [push_of_plain hname] at hroot
        exact ⟨hroot, fun other heq => Part.normal.inj heq ▸ hname⟩

theorem mem_foldl_follow {name : Name} {below : List Name} (h : name ∈ parts.foldl follow below) :
    name ∈ below ∨ .normal name ∈ parts := by
  induction parts generalizing below with
  | nil => exact .inl h
  | cons part parts ih =>
    rcases ih h with hbelow | hmem
    · cases part with
      | curDir => exact .inl hbelow
      | parentDir => exact .inl (mem_of_mem_dropLast hbelow)
      | normal other =>
        rcases mem_append.1 hbelow with hbelow | hother
        · exact .inl hbelow
        · rw [mem_singleton.1 hother]
          exact .inr mem_cons_self
    · exact .inr (mem_cons_of_mem _ hmem)

end Loop

/-! ## The normal form -/

variable {path : ParsedPath}

theorem ParsedPath.mem_location {name : Name} (h : name ∈ path.location) :
    .normal name ∈ path.parts :=
  (mem_foldl_follow h).resolve_left not_mem_nil

theorem normalizeLexically_of_absolute (h : path.isAbsolute = true) :
    normalizeLexically path = path.parts.foldlM normalizeStep ⟨path.volume, path.rooted, []⟩ := by
  rw [normalizeLexically, failIf, if_neg (by simp [h])]
  rfl

theorem normalizeLexically_of_plain (h : path.isAbsolute = true) (hplain : Plain path.parts)
    (hstays : ¬Escapes path.parts) :
    normalizeLexically path = .ok ⟨path.volume, path.rooted, path.location⟩ := by
  rw [normalizeLexically_of_absolute h]
  refine foldlM_of_plain hplain (fun front hfront => ?_) _ _
  by_contra hlt
  rw [length_nil, Nat.zero_add] at hlt
  exact hstays ⟨front, hfront, Nat.lt_of_not_le hlt⟩

/-- What is its own location escapes nowhere. -/
theorem not_escapes_normal (names : List Name) : ¬Escapes (names.map .normal) := by
  rintro ⟨front, hfront, hlt⟩
  have hzero : front.count .parentDir = 0 := count_eq_zero.2 fun hmem => by
    obtain ⟨name, -, hname⟩ := mem_map.1 (hfront.subset hmem)
    cases hname
  omega

theorem location_normal (volume : Name) (rooted : Bool) (names : List Name) :
    ParsedPath.location ⟨volume, rooted, names.map .normal⟩ = names := by
  suffices h : ∀ below, (names.map .normal).foldl follow below = below ++ names from h []
  induction names with
  | nil => exact fun below => (append_nil below).symm
  | cons name names ih => exact fun below => (ih _).trans (append_assoc ..)

/-- **Lexical normalization.**  An absolute path escapes just if some of its first parts have
more `..` than names, and otherwise the result has its prefix and root and those of its names
that lead to the same place, and is its own normal form: this holds exactly if the path escapes
or no name of it starts with a drive. -/
theorem normalized_path_iff (path : ParsedPath) (habsolute : path.isAbsolute = true) :
    ((Escapes path.parts → normalizeLexically path = .error .escapesRoot) ∧
      (¬Escapes path.parts → ∃ result, normalizeLexically path = .ok result ∧
        result.volume = path.volume ∧ result.rooted = true ∧
        (∀ name ∈ result.names, .normal name ∈ path.parts) ∧
        result.names = path.location ∧
        normalizeLexically result.parse = .ok result)) ↔
      Escapes path.parts ∨ Plain path.parts := by
  have hrooted : path.rooted = true := (Bool.and_eq_true_iff.1 habsolute).2
  constructor
  · rintro ⟨-, hstays⟩
    refine or_iff_not_imp_left.2 fun hescapes => ?_
    obtain ⟨result, hresult, -, hroot, -⟩ := hstays hescapes
    rw [normalizeLexically_of_absolute habsolute] at hresult
    exact (foldlM_rooted hresult hroot).2
  · intro h
    refine ⟨fun hescapes => ?_, fun hstays => ?_⟩
    · rw [normalizeLexically_of_absolute habsolute]
      exact foldlM_of_escapes hescapes rfl
    · have hplain := h.resolve_left hstays
      refine ⟨_, normalizeLexically_of_plain habsolute hplain hstays, rfl, hrooted,
        fun name hname => ParsedPath.mem_location hname, rfl, ?_⟩
      have hagain : normalizeLexically ⟨path.volume, path.rooted, path.location.map .normal⟩ = _ :=
        normalizeLexically_of_plain habsolute (fun name hname => ?_) (not_escapes_normal _)
      · rwa [location_normal] at hagain
      · obtain ⟨other, hother, heq⟩ := mem_map.1 hname
        exact hplain name (Part.normal.inj heq ▸ ParsedPath.mem_location hother)

/-- `C:\a\..\b`. -/
def dottedPath : ParsedPath := ⟨[0x43, colon], true, [.normal [0x61], .parentDir, .normal [0x62]]⟩

theorem normalized_dottedPath :
    normalizeLexically dottedPath = .ok ⟨[0x43, colon], true, [[0x62]]⟩ ∧
      normalizeLexically ⟨[0x43, colon], true, [.normal [0x62]]⟩ =
        .ok ⟨[0x43, colon], true, [[0x62]]⟩ := by
  have hok : normalizeLexically dottedPath = .ok ⟨[0x43, colon], true, [[0x62]]⟩ := rfl
  obtain ⟨hescapes, hstays⟩ := (normalized_path_iff dottedPath rfl).2
    (.inr (by simp [Plain, dottedPath, hasDrive]))
  obtain ⟨result, hresult, -, -, -, -, hagain⟩ := hstays fun h => by
    cases (hescapes h).symm.trans hok
  cases hok.symm.trans hresult
  exact ⟨hok, hagain⟩

/-- `C:\a\D:b` becomes the relative path `D:b`. -/
theorem drive_name_replaces :
    normalizeLexically ⟨[0x43, colon], true, [.normal [0x61], .normal [0x44, colon, 0x62]]⟩ =
      .ok ⟨[0x44, colon], false, [[0x62]]⟩ := rfl

end Jyth.Lexical
