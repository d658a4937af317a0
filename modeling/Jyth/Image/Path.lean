import Jyth.Image.Newc
import Jyth.Lib.Segments

/-!
# Archive paths

`normalize_path` of `ops/cpio.rs` and the path helpers of `ops/flatten.rs`.  A
path is its UTF-8 bytes, so that the separators are bytes and the order of the
source's `BTreeMap<String, _>` is the order of byte strings.

The component view (`components`) is what the overlay semantics is stated in:
the root marker `.` has no components, and every other path has those between
its separators.
-/

namespace Jyth.Image

open Format List Segments

def slash : UInt8 := 0x2f
def backslash : UInt8 := 0x5c
def dot : UInt8 := 0x2e
def colon : UInt8 := 0x3a

def rootPath : Bytes := [dot]

def text (path : Bytes) : String := (fromUtf8? path).getD ""

def unsafePath (message : String) : Report := ⟨.unsafePath, some message⟩

def joinSlash (segments : List Bytes) : Bytes := [slash].intercalate segments

/-! ## `normalize_path` -/

def stripLeading : Bytes → Bytes
  | b₀ :: b₁ :: rest =>
    if b₀ = dot ∧ (b₁ = slash ∨ b₁ = backslash) then stripLeading rest else b₀ :: b₁ :: rest
  | path => path

def stripTrailing (path : Bytes) : Bytes :=
  if path.getLast? = some slash ∨ path.getLast? = some backslash then path.dropLast else path

/-- The component walk; `out` is the path assembled so far. -/
def walkSegments (raw : Bytes) (out : Bytes) : List Bytes → Except Report Bytes
  | [] => return out
  | segment :: segments =>
    if segment = [] then
      throw (unsafePath ("path contains an empty component: " ++ text raw))
    else if segment = [dot, dot] then
      throw (unsafePath ("path contains a `..` component: " ++ text raw))
    else if segment = [dot] then
      if out ≠ [] then
        throw (unsafePath ("path contains an interior `.` component: " ++ text raw))
      else walkSegments raw [dot] segments
    else
      let out := if out ≠ [] ∧ out.getLast? ≠ some slash then out ++ [slash] else out
      walkSegments raw (out ++ segment) segments

def normalizePath (raw : Bytes) : Except Report Bytes := do
  failIf (raw[1]? = some colon)
    (unsafePath ("path contains a Windows drive prefix: " ++ text raw))
  failIf (raw.head? = some slash ∨ raw.head? = some backslash)
    (unsafePath ("path is absolute: " ++ text raw))
  failIf (raw = []) (unsafePath ("path is empty: " ++ text raw))
  let cursor := stripLeading raw
  if cursor = [] then return rootPath
  let cursor := stripTrailing cursor
  if cursor = [] then return rootPath
  let normalized := cursor.map fun b => if b = backslash then slash else b
  let out ← walkSegments raw [] (normalized.splitOn slash)
  failIf (out = []) (unsafePath ("path is empty after normalization: " ++ text raw))
  return out

/-- A segment that names an entry of its directory. -/
structure Plain (segment : Bytes) : Prop where
  nonempty : segment ≠ []
  notDot : segment ≠ [dot]
  notDotDot : segment ≠ [dot, dot]
  noSlash : slash ∉ segment

/-- The root marker, or ordinary components between separators. -/
def Normalized (path : Bytes) : Prop :=
  path = rootPath ∨ ∃ segments, segments ≠ [] ∧ (∀ segment ∈ segments, Plain segment) ∧
    path = joinSlash segments

variable {path raw : Bytes} {segments : List Bytes} {q p : Bytes}

theorem splitOn_joinSlash (hne : segments ≠ []) (hplain : ∀ segment ∈ segments, Plain segment) :
    (joinSlash segments).splitOn slash = segments :=
  splitOn_intercalate slash (fun segment hmem => (hplain segment hmem).noSlash) hne

theorem joinSlash_last (hne : segments ≠ []) (hplain : ∀ segment ∈ segments, Plain segment) :
    joinSlash segments ≠ [] ∧ (joinSlash segments).getLast? ≠ some slash := by
  obtain ⟨front, last, rfl⟩ := eq_nil_or_concat' segments |>.resolve_left hne
  have hlast := hplain last (by simp)
  obtain ⟨before, hsplit⟩ : ∃ before, joinSlash (front ++ [last]) = before ++ last := by
    by_cases hfront : front = []
    · exact ⟨[], by simp [hfront, joinSlash]⟩
    · exact ⟨_, intercalate_concat slash hfront last⟩
  rw [hsplit]
  refine ⟨by simp [hlast.nonempty], fun h => hlast.noSlash ?_⟩
  rw [getLast?_append_of_ne_nil _ hlast.nonempty] at h
  exact mem_of_getLast? h

theorem walkSegments_cons_eq_ok {out segment : Bytes}
    (hslash : slash ∉ segment) (h : walkSegments raw out (segment :: segments) = .ok path) :
    segment = [dot] ∧ out = [] ∧ walkSegments raw [dot] segments = .ok path ∨
      Plain segment ∧ walkSegments raw
        ((if out ≠ [] ∧ out.getLast? ≠ some slash then out ++ [slash] else out) ++ segment)
        segments = .ok path := by
  rw [walkSegments] at h
  by_cases hempty : segment = []
  · rw [if_pos hempty] at h
    cases h
  by_cases hdotdot : segment = [dot, dot]
  · rw [if_neg hempty, if_pos hdotdot] at h
    cases h
  rw [if_neg hempty, if_neg hdotdot] at h
  by_cases hdot : segment = [dot]
  · rw [if_pos hdot] at h
    by_cases hout : out ≠ []
    · rw [if_pos hout] at h
      cases h
    · rw [if_neg hout] at h
      exact .inl ⟨hdot, not_not.1 hout, h⟩
  · rw [if_neg hdot] at h
    exact .inr ⟨⟨hempty, hdot, hdotdot, hslash⟩, h⟩

theorem walkSegments_eq_ok {done : List Bytes} (hne : done ≠ [])
    (hdone : ∀ segment ∈ done, Plain segment) (hslash : ∀ segment ∈ segments, slash ∉ segment)
    (h : walkSegments raw (joinSlash done) segments = .ok path) :
    path = joinSlash (done ++ segments) ∧ ∀ segment ∈ done ++ segments, Plain segment := by
  induction segments generalizing done with
  | nil =>
    obtain rfl : joinSlash done = path := Except.ok.inj h
    rw [append_nil]
    exact ⟨rfl, hdone⟩
  | cons segment segments ih =>
    obtain ⟨hout, hlast⟩ := joinSlash_last hne hdone
    rcases walkSegments_cons_eq_ok (hslash segment mem_cons_self) h with
      ⟨-, hnil, -⟩ | ⟨hplain, hnext⟩
    · exact absurd hnil hout
    have hjoin : joinSlash done ++ [slash] ++ segment = joinSlash (done ++ [segment]) :=
      (intercalate_concat slash hne segment).symm
    rw [if_pos ⟨hout, hlast⟩, hjoin] at hnext
    have hplains : ∀ s ∈ done ++ [segment], Plain s := by
      simpa [or_imp, forall_and] using ⟨hdone, hplain⟩
    have hrest := ih (by simp) hplains (fun s hs => hslash s (mem_cons_of_mem _ hs)) hnext
    rwa [append_assoc, singleton_append] at hrest

theorem not_dotSlash_stripLeading (path : Bytes) (b : UInt8) (rest : Bytes) :
    stripLeading path = dot :: b :: rest → b ≠ slash ∧ b ≠ backslash := by
  fun_induction stripLeading path with
  | case1 b₀ b₁ rest' h ih => exact ih
  | case2 b₀ b₁ rest' h =>
    rintro heq
    simp only [cons.injEq] at heq
    obtain ⟨rfl, rfl, -⟩ := heq
    simpa using h
  | case3 path h =>
    rintro rfl
    exact absurd rfl (h dot b rest)

theorem stripTrailing_startsWith (path : Bytes) : stripTrailing path <+: path := by
  unfold stripTrailing
  split
  · exact dropLast_prefix path
  · exact prefix_rfl

theorem not_dot_cons {cursor : Bytes} (hcursor : cursor <+: stripLeading raw) (next : Bytes)
    (rest : List Bytes) : (cursor.map fun b => if b = backslash then slash else b).splitOn slash ≠
      [dot] :: next :: rest := by
  intro h
  have hjoin := congrArg [slash].intercalate h
  rw [intercalate_splitOn, intercalate_cons_cons] at hjoin
  rcases cursor with _ | ⟨b₀, _ | ⟨b₁, tail⟩⟩
  · simp at hjoin
  · simp at hjoin
  simp only [map_cons, cons_append, nil_append, cons.injEq] at hjoin
  obtain ⟨h₀, h₁, -⟩ := hjoin
  obtain ⟨behind, hbehind⟩ := hcursor
  have hb₀ : b₀ = dot := by
    by_cases hb : b₀ = backslash
    · rw [if_pos hb] at h₀
      exact absurd h₀ (by decide)
    · rwa [if_neg hb] at h₀
  subst hb₀
  obtain ⟨hslash, hback⟩ := not_dotSlash_stripLeading raw b₁ (tail ++ behind) hbehind.symm
  rw [if_neg hback] at h₁
  exact hslash h₁

/-- A walk from the start joins the components, which are ordinary unless there is
only a `.`. -/
theorem walkSegments_nil_eq_ok (hne : segments ≠ [])
    (hslash : ∀ segment ∈ segments, slash ∉ segment)
    (hdot : ∀ next rest, segments ≠ [dot] :: next :: rest)
    (h : walkSegments raw [] segments = .ok path) :
    path = joinSlash segments ∧ (segments = [[dot]] ∨ ∀ segment ∈ segments, Plain segment) := by
  cases segments with
  | nil => exact absurd rfl hne
  | cons first rest =>
    rcases walkSegments_cons_eq_ok (hslash first mem_cons_self) h with
      ⟨rfl, -, hroot⟩ | ⟨hplain, hnext⟩
    · cases rest with
      | nil => exact ⟨(Except.ok.inj hroot).symm, .inl rfl⟩
      | cons next rest => exact absurd rfl (hdot next rest)
    · have hsingle : joinSlash [first] = first := intercalate_singleton
      rw [if_neg (by simp), nil_append, ← hsingle] at hnext
      obtain ⟨hpath, hall⟩ := walkSegments_eq_ok (cons_ne_nil _ _)
        (fun s hs => by rwa [mem_singleton.1 hs])
        (fun s hs => hslash s (mem_cons_of_mem _ hs)) hnext
      exact ⟨hpath, .inr hall⟩

/-- Backslashes become separators. -/
def folded (cursor : Bytes) : Bytes := cursor.map fun b => if b = backslash then slash else b

theorem normalizePath_cases (h : normalizePath raw = .ok path) :
    stripTrailing (stripLeading raw) = [] ∧ path = rootPath ∨
      path = folded (stripTrailing (stripLeading raw)) ∧
        (path = rootPath ∨ ∀ segment ∈ path.splitOn slash, Plain segment) := by
  unfold normalizePath at h
  simp only [check_bind_eq_ok] at h
  obtain ⟨-, -, -, h⟩ := h
  by_cases hlead : stripLeading raw = []
  · rw [if_pos hlead] at h
    rw [hlead]
    exact .inl ⟨rfl, (Except.ok.inj h).symm⟩
  by_cases htrail : stripTrailing (stripLeading raw) = []
  · rw [if_neg hlead, if_pos htrail] at h
    exact .inl ⟨htrail, (Except.ok.inj h).symm⟩
  rw [if_neg hlead, if_neg htrail, bind_eq_ok] at h
  obtain ⟨out, hwalk, h⟩ := h
  rw [check_bind_eq_ok] at h
  obtain rfl : out = path := Except.ok.inj h.2
  obtain ⟨hjoin, hall⟩ := walkSegments_nil_eq_ok (splitOn_ne_nil _ _)
    (fun segment hmem => not_mem_of_mem_splitOn slash _ segment hmem)
    (fun next rest => not_dot_cons (stripTrailing_startsWith (stripLeading raw)) next rest) hwalk
  have hpath : out = folded (stripTrailing (stripLeading raw)) :=
    hjoin.trans (intercalate_splitOn slash)
  refine .inr ⟨hpath, hall.imp (fun hdot => ?_) fun hplain => ?_⟩
  · rw [hjoin, hdot]
    rfl
  · rw [hpath]
    exact hplain

/-- **What `normalize_path` accepts** it turns into the root marker or ordinary
components. -/
theorem normalizePath_eq_ok (h : normalizePath raw = .ok path) : Normalized path := by
  rcases normalizePath_cases h with ⟨-, hroot⟩ | ⟨-, hroot | hplain⟩
  · exact .inl hroot
  · exact .inl hroot
  · exact .inr ⟨_, splitOn_ne_nil _ _, hplain, (intercalate_splitOn slash).symm⟩

/-! ## Names and parents -/

def baseName (path : Bytes) : Bytes := (path.splitOn slash).getLast?.getD path

/-- The part before the last separator, empty for a top-level entry. -/
def parentDirOf (path : Bytes) : Bytes := joinSlash (path.splitOn slash).dropLast

theorem parentDirOf_ne_rootPath (h : Normalized path) : parentDirOf path ≠ rootPath := by
  rcases h with rfl | ⟨segments, hne, hplain, rfl⟩
  · decide
  rw [parentDirOf, splitOn_joinSlash hne hplain]
  intro hroot
  have hfront : ∀ segment ∈ segments.dropLast, Plain segment := fun s hs =>
    hplain s (mem_of_mem_dropLast hs)
  by_cases hnil : segments.dropLast = []
  · rw [hnil] at hroot
    cases hroot
  · have hsplit := splitOn_joinSlash hnil hfront
    rw [hroot] at hsplit
    exact (hfront [dot] (by rw [← hsplit]; decide)).notDot rfl

theorem Normalized.not_startsWith_dotSlash (h : Normalized path) :
    ¬ rootPath ++ [slash] <+: path := by
  rcases h with rfl | ⟨segments, hne, hplain, rfl⟩
  · decide
  intro hpre
  have hsplit := ((append_sep_prefix_iff slash rootPath _).1 hpre).1
  rw [splitOn_joinSlash hne hplain] at hsplit
  exact (hplain [dot] (hsplit.subset (by decide))).notDot rfl

/-! ## Symlink targets -/

/-- The lexical step of the kernel on one component: `.` and empty components
are skipped, `..` drops a component. -/
def pushComponent (normalized : List Bytes) (component : Bytes) : List Bytes :=
  if component = [] ∨ component = [dot] then normalized
  else if component = [dot, dot] then normalized.dropLast
  else normalized ++ [component]

def joinSymlinkTarget (symlinkPath target remainder : Bytes) : Option Bytes :=
  if target = [] then none
  else
    let parent :=
      if target.head? ≠ some slash ∧ slash ∈ symlinkPath then
        (parentDirOf symlinkPath).splitOn slash
      else []
    some (joinSlash ((parent ++ target.splitOn slash ++ remainder.splitOn slash).foldl
      pushComponent []))

/-! ## Components -/

def components (path : Bytes) : List Bytes := if path = rootPath then [] else path.splitOn slash

/-- `q` is below `p`. -/
def Below (p q : Bytes) : Prop := components p <+: components q ∧ p ≠ q

instance (p q : Bytes) : Decidable (Below p q) := inferInstanceAs (Decidable (_ ∧ _))

theorem components_rootPath : components rootPath = [] := if_pos rfl

theorem components_of_ne (h : path ≠ rootPath) : components path = path.splitOn slash := if_neg h

theorem components_ne_nil (h : path ≠ rootPath) : components path ≠ [] := by
  rw [components_of_ne h]
  exact splitOn_ne_nil slash path

theorem components_injective : Function.Injective components := by
  intro p q h
  by_cases hp : p = rootPath
  · by_cases hq : q = rootPath
    · rw [hp, hq]
    · rw [hp, components_rootPath] at h
      exact absurd h.symm (components_ne_nil hq)
  · by_cases hq : q = rootPath
    · rw [hq, components_rootPath] at h
      exact absurd h (components_ne_nil hp)
    · rw [components_of_ne hp, components_of_ne hq] at h
      exact splitOn_injective slash h

theorem below_iff_startsWith (hp : p ≠ rootPath) : Below p q ↔ p ++ [slash] <+: q := by
  unfold Below
  by_cases hq : q = rootPath
  · constructor
    · rintro ⟨hpre, -⟩
      rw [hq, components_rootPath, prefix_nil] at hpre
      exact absurd hpre (components_ne_nil hp)
    · intro hpre
      have hlen := hpre.length_le
      rw [hq] at hpre hlen
      simp only [rootPath, length_append, length_cons, length_nil] at hlen
      obtain rfl : p = [] := length_eq_zero_iff.1 (by omega)
      exact absurd hpre (by decide)
  · rw [components_of_ne hp, components_of_ne hq]
    exact (append_sep_prefix_iff slash p q).symm

theorem below_rootPath : Below rootPath q ↔ q ≠ rootPath := by
  unfold Below
  rw [components_rootPath]
  exact ⟨fun h => h.2.symm, fun h => ⟨List.nil_prefix, h.symm⟩⟩

theorem components_prefix_iff : components p <+: components q ↔ q = p ∨ Below p q := by
  constructor
  · intro h
    by_cases hpq : q = p
    · exact .inl hpq
    · exact .inr ⟨h, Ne.symm hpq⟩
  · rintro (rfl | h)
    · exact prefix_rfl
    · exact h.1

theorem Below.trans {r : Bytes} (hpq : Below p q) (hqr : Below q r) : Below p r := by
  refine ⟨hpq.1.trans hqr.1, ?_⟩
  rintro rfl
  exact hpq.2 (components_injective (hpq.1.eq_of_length_le hqr.1.length_le))

end Jyth.Image
