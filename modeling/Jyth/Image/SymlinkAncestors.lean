import Jyth.Image.OverlaySpec

/-!
# Symlink ancestors

Where `resolve_symlink_ancestors` of `ops/flatten.rs` puts an entry, and what a
whiteout of the same name does.

A walk respells a path by `front ++ rest`: `rest` is what stands below the symlink
found, `front` the components of its target, without `.`, `..` or empty ones.  So
every respelling is a path of ordinary components that ends as the path it came
from (`resolveLoop_endsIn`).  A walk that finds nothing to replace has met no
symlink, or one with an empty target, where it gives up (`findReplacement_eq_none`).

A whiteout is not resolved, so it misses what lies behind a symlink
(`whiteout_clears_storedAt_iff`).
-/

namespace Jyth.Image

open Format List Segments

/-! ## The component stack -/

theorem pushComponent_plain {stack : List Bytes} {component : Bytes}
    (hstack : ∀ segment ∈ stack, Plain segment) (hslash : slash ∉ component) :
    ∀ segment ∈ pushComponent stack component, Plain segment := by
  intro segment hmem
  unfold pushComponent at hmem
  split at hmem
  · exact hstack segment hmem
  split at hmem
  · exact hstack segment (mem_of_mem_dropLast hmem)
  · next hempty hdots =>
    rw [not_or] at hempty
    rcases mem_append.1 hmem with hold | hnew
    · exact hstack segment hold
    · rw [mem_singleton.1 hnew]
      exact ⟨hempty.1, hempty.2, hdots, hslash⟩

theorem foldl_pushComponent_plain {cs stack : List Bytes} (hcs : ∀ c ∈ cs, slash ∉ c)
    (hstack : ∀ segment ∈ stack, Plain segment) :
    ∀ segment ∈ cs.foldl pushComponent stack, Plain segment := by
  induction cs generalizing stack with
  | nil => exact hstack
  | cons c cs ih =>
    have hstep := pushComponent_plain hstack (hcs c mem_cons_self)
    exact ih (fun c' hc' => hcs c' (mem_cons_of_mem c hc')) hstep

theorem foldl_pushComponent_append {cs : List Bytes} (hcs : ∀ c ∈ cs, Plain c)
    (stack : List Bytes) : cs.foldl pushComponent stack = stack ++ cs := by
  induction cs generalizing stack with
  | nil => simp
  | cons c cs ih =>
    have hc := hcs c mem_cons_self
    have hpush : pushComponent stack c = stack ++ [c] := by
      rw [pushComponent, if_neg (not_or.2 ⟨hc.nonempty, hc.notDot⟩), if_neg hc.notDotDot]
    rw [foldl_cons, hpush, ih fun c' hc' => hcs c' (mem_cons_of_mem c hc')]
    simp

theorem joinSymlinkTarget_eq_some {link target next : Bytes} {rest : List Bytes} (hne : rest ≠ [])
    (hrest : ∀ segment ∈ rest, Plain segment)
    (h : joinSymlinkTarget link target (joinSlash rest) = some next) :
    ∃ front, (∀ segment ∈ front, Plain segment) ∧ next = joinSlash (front ++ rest) := by
  unfold joinSymlinkTarget at h
  split at h
  · cases h
  · simp only [Option.some.injEq] at h
    rw [splitOn_joinSlash hne hrest, foldl_append, foldl_pushComponent_append hrest] at h
    refine ⟨_, foldl_pushComponent_plain (fun c hc => ?_) (by simp), h.symm⟩
    rcases mem_append.1 hc with hparent | htarget
    · split at hparent
      · exact not_mem_of_mem_splitOn slash _ c hparent
      · cases hparent
    · exact not_mem_of_mem_splitOn slash _ c htarget

/-! ## One walk -/

variable {α : Type} [Node α]

/-- The path is a symlink with a target that can be followed. -/
def LinksTo (map : PathMap α) (path target : Bytes) : Prop :=
  (map[path]?).bind symlinkTarget = some target ∧ (fromUtf8? target).isSome = true

theorem joinSlash_concat {done : List Bytes} (hdone : ∀ c ∈ done, Plain c) (c : Bytes) :
    (if joinSlash done = [] then c else joinSlash done ++ [slash] ++ c) =
      joinSlash (done ++ [c]) := by
  by_cases hnil : done = []
  · subst hnil
    simp [joinSlash]
  · rw [if_neg (joinSlash_last hnil hdone).1]
    exact (intercalate_concat slash hnil c).symm

variable {map : PathMap α}

theorem findReplacement_eq_some {pre next : Bytes} {cs : List Bytes}
    (hcs : ∀ c ∈ cs, Plain c) (h : findReplacement map pre cs = some next) :
    ∃ front rest, (∀ segment ∈ front, Plain segment) ∧ rest ≠ [] ∧ rest <:+ cs ∧
      next = joinSlash (front ++ rest) := by
  induction cs generalizing pre with
  | nil => cases h
  | cons c cs ih =>
    cases cs with
    | nil => cases h
    | cons c' cs =>
      have htail : ∀ segment ∈ c' :: cs, Plain segment := fun segment hmem =>
        hcs segment (mem_cons_of_mem c hmem)
      have hlater : ∀ {pre}, findReplacement map pre (c' :: cs) = some next →
          ∃ front rest, (∀ segment ∈ front, Plain segment) ∧ rest ≠ [] ∧ rest <:+ c :: c' :: cs ∧
            next = joinSlash (front ++ rest) := by
        intro pre hfound
        obtain ⟨front, rest, hfront, hne, hsuffix, heq⟩ := ih htail hfound
        exact ⟨front, rest, hfront, hne, hsuffix.trans (suffix_cons c _), heq⟩
      simp only [findReplacement] at h
      split at h
      · split at h
        · obtain ⟨front, hfront, heq⟩ := joinSymlinkTarget_eq_some (cons_ne_nil c' cs) htail h
          exact ⟨front, c' :: cs, hfront, cons_ne_nil c' cs, suffix_cons c _, heq⟩
        · exact hlater h
      · exact hlater h

variable {done cs : List Bytes}

/-- A walk finds nothing to replace: a symlink with a UTF-8 target among the
ancestors has an empty target, or stands below one that has. -/
theorem findReplacement_eq_none (hdone : ∀ c ∈ done, Plain c) (hcs : ∀ c ∈ cs, Plain c)
    (h : findReplacement map (joinSlash done) cs = none) {front : List Bytes} (hne : front ≠ [])
    (hfront : front <+: cs) (hproper : front ≠ cs) {target : Bytes}
    (hlink : LinksTo map (joinSlash (done ++ front)) target) (htarget : target ≠ []) :
    ∃ above, above ≠ [] ∧ above <+: front ∧ above ≠ front ∧
      LinksTo map (joinSlash (done ++ above)) [] := by
  induction cs generalizing done front with
  | nil => exact absurd (prefix_nil.1 hfront) hne
  | cons c cs ih =>
    cases cs with
    | nil =>
      -- The last component is not an ancestor.
      have hlen := hfront.length_le
      have hpos := length_pos_of_ne_nil hne
      exact absurd (hfront.eq_of_length (by simp at hlen ⊢; omega)) hproper
    | cons c' cs =>
      have hc := hcs c mem_cons_self
      have hdone' : ∀ segment ∈ done ++ [c], Plain segment := by
        intro segment hmem
        rcases mem_append.1 hmem with hold | hnew
        · exact hdone segment hold
        · rw [mem_singleton.1 hnew]
          exact hc
      have htail : ∀ segment ∈ c' :: cs, Plain segment := fun segment hmem =>
        hcs segment (mem_cons_of_mem c hmem)
      simp only [findReplacement, joinSlash_concat hdone c] at h
      obtain ⟨front', rfl⟩ : ∃ front', front = c :: front' := by
        obtain ⟨rest, hrest⟩ := hfront
        cases front with
        | nil => exact absurd rfl hne
        | cons a front' => exact ⟨front', by rw [(cons.inj hrest).1]⟩
      have hfront' : front' <+: c' :: cs := (cons_prefix_cons.1 hfront).2
      have hsplit : ∀ l : List Bytes, done ++ c :: l = done ++ [c] ++ l := by simp
      by_cases hnil : front' = []
      · -- The symlink is the ancestor looked at: its target would have been joined.
        subst hnil
        rw [hlink.1] at h
        simp only [hlink.2, if_true] at h
        unfold joinSymlinkTarget at h
        rw [if_neg htarget] at h
        cases h
      · have hdeeper : findReplacement map (joinSlash (done ++ [c])) (c' :: cs) = none →
            ∃ above, above ≠ [] ∧ above <+: c :: front' ∧ above ≠ c :: front' ∧
              LinksTo map (joinSlash (done ++ above)) [] := by
          intro hnone
          rw [hsplit] at hlink
          obtain ⟨above, -, hpre, hshort, habove⟩ := ih hdone' htail hnone hnil hfront'
            (fun heq => hproper (by rw [heq])) hlink
          refine ⟨c :: above, cons_ne_nil c above, cons_prefix_cons.2 ⟨rfl, hpre⟩,
            fun heq => hshort (cons.inj heq).2, ?_⟩
          rw [hsplit]
          exact habove
        split at h
        · next found hfound =>
          split at h
          · next hutf8 =>
            -- The walk gives up at an empty target.
            unfold joinSymlinkTarget at h
            split at h
            · next hempty =>
              refine ⟨[c], by simp, cons_prefix_cons.2 ⟨rfl, nil_prefix⟩,
                fun heq => hnil (cons.inj heq).2.symm, ?_⟩
              rw [hempty] at hfound hutf8
              exact ⟨hfound, hutf8⟩
            · cases h
          · exact hdeeper h
        · exact hdeeper h

/-! ## The whole resolution -/

def substitutions (entries : PathMap α) : Nat → Bytes → Nat
  | 0, _ => 0
  | depth + 1, resolved =>
    match findReplacement entries [] (resolved.splitOn slash) with
    | some next => substitutions entries depth next + 1
    | none => 0

/-- A path of ordinary components with this last one. -/
def EndsIn (last path : Bytes) : Prop :=
  ∃ front, (∀ segment ∈ front ++ [last], Plain segment) ∧ path = joinSlash (front ++ [last])

theorem EndsIn.splitOn {last path : Bytes} (h : EndsIn last path) :
    ∃ front, path.splitOn slash = front ++ [last] ∧ (∀ segment ∈ front ++ [last], Plain segment) ∧
      path = joinSlash (front ++ [last]) := by
  obtain ⟨front, hplain, rfl⟩ := h
  exact ⟨front, splitOn_joinSlash (by simp) hplain, hplain, rfl⟩

theorem findReplacement_endsIn {last path next : Bytes} (h : EndsIn last path)
    (hnext : findReplacement map [] (path.splitOn slash) = some next) : EndsIn last next := by
  obtain ⟨front, hsplit, hplain, -⟩ := h.splitOn
  rw [hsplit] at hnext
  obtain ⟨new, rest, hnew, hne, hsuffix, rfl⟩ := findReplacement_eq_some hplain hnext
  have hrest : ∀ segment ∈ rest, Plain segment := fun segment hmem =>
    hplain segment (hsuffix.subset hmem)
  have hlast : rest.getLast hne = last := by
    rw [hsuffix.getLast hne]
    simp
  refine ⟨new ++ rest.dropLast, ?_, ?_⟩
  all_goals rw [append_assoc, ← hlast, dropLast_append_getLast hne]
  intro segment hmem
  rcases mem_append.1 hmem with hin | hin
  · exact hnew segment hin
  · exact hrest segment hin

variable {path : Bytes}

theorem resolveLoop_endsIn {last : Bytes} (depth : Nat)
    (h : EndsIn last path) : EndsIn last (resolveLoop map depth path) := by
  induction depth generalizing path with
  | zero => exact h
  | succ depth ih =>
    rw [resolveLoop]
    split
    · next next hnext => exact ih (findReplacement_endsIn h hnext)
    · exact h

theorem findReplacement_resolveLoop {depth : Nat} (h : substitutions map depth path < depth) :
    findReplacement map [] ((resolveLoop map depth path).splitOn slash) = none := by
  induction depth generalizing path with
  | zero => omega
  | succ depth ih =>
    rw [substitutions] at h
    rw [resolveLoop]
    cases hnext : findReplacement map [] (path.splitOn slash) with
    | some next =>
      rw [hnext] at h
      exact ih (Nat.lt_of_succ_lt_succ h)
    | none => exact hnext

theorem components_of_ancestor {path a : Bytes} {segments : List Bytes} (hne : segments ≠ [])
    (hplain : ∀ segment ∈ segments, Plain segment) (hpath : path = joinSlash segments)
    (ha : a ++ [slash] <+: path) :
    ∃ front, front ≠ [] ∧ front <+: segments ∧ front ≠ segments ∧ a = joinSlash front := by
  obtain ⟨hpre, hshort⟩ := (append_sep_prefix_iff slash a path).1 ha
  rw [hpath, splitOn_joinSlash hne hplain] at hpre
  refine ⟨a.splitOn slash, splitOn_ne_nil slash a, hpre, fun heq => hshort ?_,
    (intercalate_splitOn slash).symm⟩
  refine splitOn_injective slash ?_
  rw [heq, hpath, splitOn_joinSlash hne hplain]

theorem ancestor_of_components {front segments : List Bytes} (hne : front ≠ [])
    (hplain : ∀ segment ∈ segments, Plain segment) (hpre : front <+: segments)
    (hshort : front ≠ segments) : joinSlash front ++ [slash] <+: joinSlash segments := by
  have hfront : ∀ segment ∈ front, Plain segment := fun segment hmem =>
    hplain segment (hpre.subset hmem)
  have hne' : segments ≠ [] := fun heq => hne (prefix_nil.1 (heq ▸ hpre))
  refine (append_sep_prefix_iff slash _ _).2 ?_
  rw [splitOn_joinSlash hne hfront, splitOn_joinSlash hne' hplain]
  refine ⟨hpre, fun heq => hshort ?_⟩
  rw [← splitOn_joinSlash hne hfront, heq, splitOn_joinSlash hne' hplain]

theorem empty_link_above {last path a target : Bytes} (h : EndsIn last path)
    (hnone : findReplacement map [] (path.splitOn slash) = none) (ha : a ++ [slash] <+: path)
    (hlink : LinksTo map a target) (htarget : target ≠ []) :
    ∃ above, above ++ [slash] <+: a ∧ LinksTo map above [] := by
  obtain ⟨front, hsplit, hplain, hpath⟩ := h.splitOn
  obtain ⟨segments, hne, hpre, hshort, rfl⟩ := components_of_ancestor (by simp) hplain hpath ha
  rw [hsplit] at hnone
  obtain ⟨above, habove, hpre', hshort', hempty⟩ :=
    findReplacement_eq_none (forall_mem_nil _) hplain hnone hne hpre hshort hlink htarget
  have hsegments : ∀ segment ∈ segments, Plain segment := fun segment hmem =>
    hplain segment (hpre.subset hmem)
  exact ⟨_, ancestor_of_components habove hsegments hpre' hshort', hempty⟩

theorem resolveLoop_rootPath (map : PathMap α) (depth : Nat) :
    resolveLoop map depth rootPath = rootPath := by
  have hsplit : rootPath.splitOn slash = [[dot]] := by decide
  cases depth with
  | zero => rfl
  | succ depth =>
    rw [resolveLoop, hsplit]
    rfl

theorem Normalized.endsIn (h : Normalized path) (hroot : path ≠ rootPath) :
    ∃ last, (path.splitOn slash).getLast? = some last ∧ EndsIn last path := by
  obtain ⟨segments, hne, hplain, rfl⟩ := h.resolve_left hroot
  refine ⟨segments.getLast hne, ?_, segments.dropLast, ?_, ?_⟩
  · rw [splitOn_joinSlash hne hplain, getLast?_eq_some_getLast hne]
  all_goals rw [dropLast_append_getLast hne]
  exact hplain

/-- **Symlink-ancestor resolution is confined.**  The root marker stays; every other
path gets ordinary components only, the last of them its own.  With substitutions to
spare, a proper ancestor of the result that is a symlink with a non-empty UTF-8 target
stands below one with an empty target. -/
theorem resolveSymlinkAncestors_confined (map : PathMap α) {path : Bytes} (h : Normalized path) :
    (path = rootPath → resolveSymlinkAncestors path map = rootPath) ∧
    (path ≠ rootPath → ∃ front last, (path.splitOn slash).getLast? = some last ∧
      (∀ segment ∈ front ++ [last], Plain segment) ∧
      resolveSymlinkAncestors path map = joinSlash (front ++ [last])) ∧
    (substitutions map maxSymlinkResolutionDepth path < maxSymlinkResolutionDepth →
      ∀ a target, a ++ [slash] <+: resolveSymlinkAncestors path map → LinksTo map a target →
        target ≠ [] → ∃ above, above ++ [slash] <+: a ∧ LinksTo map above []) := by
  by_cases hroot : path = rootPath
  · have hstays : resolveSymlinkAncestors path map = rootPath := by
      rw [hroot]
      exact resolveLoop_rootPath map _
    refine ⟨fun _ => hstays, fun hne => absurd hroot hne, fun _ a target ha => ?_⟩
    rw [hstays] at ha
    have hbelow := (append_sep_prefix_iff slash a rootPath).1 ha
    have hsplit : rootPath.splitOn slash = [rootPath] := by decide
    rw [hsplit] at hbelow
    have hlen := hbelow.1.length_le
    have hpos := length_pos_of_ne_nil (splitOn_ne_nil slash a)
    have heq : a.splitOn slash = rootPath.splitOn slash := by
      rw [hsplit]
      exact hbelow.1.eq_of_length (by simp at hlen ⊢; omega)
    exact absurd (splitOn_injective slash heq) hbelow.2
  · obtain ⟨last, hlast, hends⟩ := h.endsIn hroot
    have hresult : EndsIn last (resolveSymlinkAncestors path map) := resolveLoop_endsIn _ hends
    refine ⟨fun heq => absurd heq hroot, fun _ => ?_, fun hfew a target ha hlink htarget => ?_⟩
    · obtain ⟨front, hplain, heq⟩ := hresult
      exact ⟨front, last, hlast, hplain, heq⟩
    · exact empty_link_above hresult (findReplacement_resolveLoop hfew) ha hlink htarget

/-! ### Two states -/

def symlinkTo (target : String) : Metadata :=
  { mode := 0o120777, uid := 0, gid := 0, mtime := 0, devMajor := 0, ino := 0, rdevMajor := 0,
    rdevMinor := 0, nlinkSource := 1, sourceLayer := 0, body := .symlink (utf8 target) }

def plainFile : Metadata := { symlinkTo "" with mode := 0o100644, body := .empty }

/-- The layout of a distribution with one `lib`. -/
def usrMerged : PathMap Metadata :=
  overlay [[.regular (utf8 "lib") (symlinkTo "usr/lib"), .regular (utf8 "usr/lib/x") plainFile]]

theorem usrMerged_confined : resolveSymlinkAncestors (utf8 "lib/x") usrMerged = utf8 "usr/lib/x" ∧
      ∃ front last, ((utf8 "lib/x").splitOn slash).getLast? = some last ∧
        (∀ segment ∈ front ++ [last], Plain segment) ∧
        resolveSymlinkAncestors (utf8 "lib/x") usrMerged = joinSlash (front ++ [last]) := by
  have hnormal : Normalized (utf8 "lib/x") := by
    refine .inr ⟨[utf8 "lib", utf8 "x"], by simp, fun segment hmem => ?_, by decide⟩
    rcases mem_pair.1 hmem with rfl | rfl <;> exact ⟨by decide, by decide, by decide, by decide⟩
  exact ⟨by decide +kernel, (resolveSymlinkAncestors_confined usrMerged hnormal).2.1 (by decide)⟩

def linkBelowEmpty : PathMap Metadata :=
  overlay [[.regular (utf8 "a") (symlinkTo ""), .regular (utf8 "a/b") (symlinkTo "/x")]]

/-- The root marker is a `.` component, and a symlink with an empty target ends the
resolution before the one below it is looked at. -/
theorem linkBelowEmpty_unresolved : resolveSymlinkAncestors rootPath linkBelowEmpty = [dot] ∧
      resolveSymlinkAncestors (utf8 "a/b/c") linkBelowEmpty = utf8 "a/b/c" ∧
      substitutions linkBelowEmpty maxSymlinkResolutionDepth (utf8 "a/b/c") = 0 ∧
      utf8 "a/b" ++ [slash] <+: utf8 "a/b/c" ∧ LinksTo linkBelowEmpty (utf8 "a/b") (utf8 "/x") := by
  unfold LinksTo
  decide +kernel

/-! ## Whiteouts -/

theorem findReplacement_of_no_links (hdone : ∀ c ∈ done, Plain c) (hcs : ∀ c ∈ cs, Plain c)
    (hnone : ∀ front, front ≠ [] → front <+: cs → front ≠ cs → ∀ target,
      LinksTo map (joinSlash (done ++ front)) target → target = []) :
    findReplacement map (joinSlash done) cs = none := by
  induction cs generalizing done with
  | nil => rfl
  | cons c cs ih =>
    cases cs with
    | nil => rfl
    | cons c' cs =>
      have hc := hnone [c] (by simp) (cons_prefix_cons.2 ⟨rfl, nil_prefix⟩) (by simp)
      have hdeeper : findReplacement map (joinSlash (done ++ [c])) (c' :: cs) = none := by
        refine ih (fun segment hmem => ?_) (fun segment hmem => ?_) fun front _ hfront hshort => ?_
        · rcases mem_append.1 hmem with hold | hnew
          · exact hdone segment hold
          · rw [mem_singleton.1 hnew]
            exact hcs c mem_cons_self
        · exact hcs segment (mem_cons_of_mem c hmem)
        · have hlonger := hnone (c :: front) (by simp) (cons_prefix_cons.2 ⟨rfl, hfront⟩)
            fun heq => hshort (cons.inj heq).2
          rwa [show done ++ [c] ++ front = done ++ c :: front by simp]
      simp only [findReplacement, joinSlash_concat hdone c]
      split
      · next target hlink =>
        split
        · next hutf8 => rw [hc target ⟨hlink, hutf8⟩, joinSymlinkTarget, if_pos rfl]
        · exact hdeeper
      · exact hdeeper

/-- No proper ancestor of `path` is a symlink that is followed. -/
def Direct (map : PathMap α) (path : Bytes) : Prop :=
  ∀ a, a ++ [slash] <+: path → ∀ target, LinksTo map a target → target = []

theorem storedAt_of_direct (h : Normalized path) (hdirect : Direct map path) :
    storedAt map path = path := by
  by_cases hroot : path = rootPath
  · rw [hroot]
    exact resolveLoop_rootPath map _
  · obtain ⟨segments, hne, hplain, rfl⟩ := h.resolve_left hroot
    have hwalk : findReplacement map [] segments = none := by
      refine findReplacement_of_no_links (forall_mem_nil _) hplain
        fun front hnil hfront hshort => ?_
      exact hdirect _ (ancestor_of_components hnil hplain hfront hshort)
    rw [storedAt, resolveSymlinkAncestors, maxSymlinkResolutionDepth, resolveLoop,
      splitOn_joinSlash hne hplain, hwalk]

/-- At or below a path, as one prefix. -/
theorem atOrBelow_iff {path k : Bytes} :
    k = path ∨ path ++ [slash] <+: k ↔ path ++ [slash] <+: k ++ [slash] := by
  rw [prefix_concat_iff, append_left_inj, eq_comm]

theorem below_or_atOrBelow {a b k : Bytes} (ha : a ++ [slash] <+: k) (hb : b ++ [slash] <+: k) :
    a ++ [slash] <+: b ∨ b ++ [slash] <+: a ++ [slash] := by
  rcases prefix_or_prefix_of_prefix ha hb with hab | hba
  · rcases atOrBelow_iff.2 hab with rfl | hab
    · exact .inr prefix_rfl
    · exact .inl hab
  · exact .inr hba

variable {parent name : Bytes}

theorem getElem?_whiteout_eq_none_iff (map : PathMap α) (k : Bytes) :
    (applyLayer map [.whiteout (.named parent name)])[k]? = none ↔ (k ∈ map →
      whiteoutTarget parent name ++ [slash] <+: k ++ [slash]) := by
  have hlayer : (applyLayer map [.whiteout (.named parent name)])[k]? =
      if (Whiteout.named parent name).Removes k then none else map[k]? :=
    getElem?_applyWhiteout map (.named parent name) k
  have hremoves : (Whiteout.named parent name).Removes k ↔
      whiteoutTarget parent name ++ [slash] <+: k ++ [slash] := atOrBelow_iff
  rw [hlayer, ← hremoves]
  by_cases h : (Whiteout.named parent name).Removes k
  · simp [h]
  · simp [h]

/-- An ancestor of `path` that is followed keeps the place of `path` apart from `path`. -/
theorem covered_iff_empty {q s target : Bytes} (hq : Direct map q) (hs : s ++ [slash] <+: path)
    (hlink : LinksTo map s target) (htarget : target ≠ []) :
    (∀ k, q ++ [slash] <+: k ++ [slash] → k ∈ map → path ++ [slash] <+: k ++ [slash]) ↔
      ∀ k, q ++ [slash] <+: k ++ [slash] → k ∉ map := by
  have hout : ¬ s ++ [slash] <+: q := fun habove => htarget (hq s habove target hlink)
  refine ⟨fun hcovered k hk hmem => ?_, fun hempty k hk hmem => absurd hmem (hempty k hk)⟩
  have hsk : s ++ [slash] <+: k ++ [slash] :=
    hs.trans ((prefix_append _ _).trans (hcovered k hk hmem))
  -- the symlink itself stands at or below `q`, and not below `path`
  have hqs := (below_or_atOrBelow hsk hk).resolve_left hout
  have hstored : s ∈ map := by
    rw [← Std.ExtTreeMap.isSome_getElem?_iff_mem]
    cases hget : map[s]? with
    | none => simp [LinksTo, hget] at hlink
    | some => rfl
  have hlong := (hcovered s hqs hstored).length_le
  have hshort := hs.length_le
  simp only [length_append, length_singleton] at hlong hshort
  omega

theorem usrMerged_direct : Direct usrMerged (utf8 "usr/lib/y") := by
  intro a ha target hlink
  have hpre : a <+: utf8 "usr/lib/y" := (prefix_append _ _).trans ha
  have hnone : ∀ n ≤ 9, (usrMerged[(utf8 "usr/lib/y").take n]?).bind symlinkTarget = none := by
    decide +kernel
  rw [LinksTo, prefix_iff_eq_take.1 hpre, hnone _ hpre.length_le] at hlink
  cases hlink.1

end Jyth.Image
