import Jyth.Image.ArchiveNames

/-!
# Kernel entry paths

`KernelPath::parse` of `kernel/src/spec/path.rs` and the guard of
`extract_kernel`, which hands the canonical form to `normalize_path`.  The two
normalizers agree on a canonical form unless dropping a leading `.` has brought a
drive prefix to the front (`kernel_path_agrees_iff`).
-/

namespace Jyth.Kernel

open Format List Jyth.Image

inductive KernelPathError
  | empty | nulByte | absolute | windowsDrivePrefix | uncPrefix | parentComponent | emptyComponent
  | nonUtf8
deriving DecidableEq

structure KernelPath where
  canonical : Bytes
deriving DecidableEq

def isSeparator (b : UInt8) : Bool := b = slash ∨ b = backslash

namespace KernelPath

/-- The component loop: `.` is dropped, an empty component and `..` are errors. -/
def keepComponents : List Bytes → Except KernelPathError (List Bytes)
  | [] => .ok []
  | component :: rest =>
    if component = [] then .error .emptyComponent
    else if component = [dot] then keepComponents rest
    else if component = [dot, dot] then .error .parentComponent
    else do
      let components ← keepComponents rest
      return component :: components

def parse (value : Bytes) : Except KernelPathError KernelPath := do
  failIf (value = []) .empty
  failIf (0 ∈ value) .nulByte
  failIf (value[1]? = some colon) .windowsDrivePrefix
  failIf (value.head? = some backslash) .uncPrefix
  failIf (value.head? = some slash) .absolute
  let components ← keepComponents (value.splitOnP isSeparator)
  failIf (components = []) .empty
  return ⟨joinSlash components⟩

end KernelPath

/-- `Path::is_absolute` of the host. -/
structure Host where
  isAbsolute : Bytes → Bool
  rooted : ∀ path, isAbsolute path = true →
    path.head? = some slash ∨ path.head? = some backslash ∨ path[1]? = some colon

/-- Where only a leading `/` makes a path absolute. -/
def unixHost : Host where
  isAbsolute := fun path => path.head? = some slash
  rooted := fun path h => .inl (by simpa using h)

/-- The guard in front of the walk: the name to look for. -/
def validateRequestPath (host : Host) (path : Bytes) : Except Report Bytes := do
  failIf (path = []) (unsafePath "kernel request path is empty")
  failIf (host.isAbsolute path) (unsafePath ("kernel request path is absolute: " ++ text path))
  failIf (path[1]? = some colon)
    (unsafePath ("kernel request path contains a Windows drive prefix: " ++ text path))
  normalizePath path

/-! ## Canonical forms -/

theorem splitOnP_isSeparator (value : Bytes) :
    value.splitOnP isSeparator = (folded value).splitOn slash := by
  unfold splitOn
  induction value with
  | nil => rfl
  | cons b value ih =>
    rw [show folded (b :: value) = (if b = backslash then slash else b) :: folded value from rfl,
      splitOnP_cons_eq_if_modifyHead, splitOnP_cons_eq_if_modifyHead, ih]
    by_cases hback : b = backslash
    · simp [isSeparator, hback]
    · by_cases hslash : b = slash <;> simp [isSeparator, hback, hslash]

open KernelPath

theorem keepComponents_eq_ok (raw components : List Bytes) : keepComponents raw = .ok components ↔
      (∀ component ∈ raw, component ≠ [] ∧ component ≠ [dot, dot]) ∧
        components = raw.filter (· ≠ [dot]) := by
  refine (sieve_eq_ok (f := keepComponents) (fun c => c = [] ∨ c = [dot, dot])
    (fun c => c = [dot]) rfl ?_ ?_ ?_ raw components).trans ?_
  · rintro component rest (rfl | rfl) components <;> simp [keepComponents]
  · intro component rest hrefused hdot
    rw [not_or] at hrefused
    rw [keepComponents, if_neg hrefused.1, if_pos hdot]
  · intro component rest hrefused hdot
    rw [not_or] at hrefused
    rw [keepComponents, if_neg hrefused.1, if_neg hdot, if_neg hrefused.2]
  · simp only [not_or]

/-- What `parse` returns. -/
structure Canonical (path : Bytes) : Prop where
  segments : ∃ segments, segments ≠ [] ∧ (∀ segment ∈ segments, Plain segment) ∧
    path = joinSlash segments
  noBackslash : backslash ∉ path
  noNul : 0 ∉ path

theorem Canonical.normalized {path : Bytes} (h : Canonical path) : Normalized path :=
  .inr h.segments

theorem mem_joinSlash_filter {b : UInt8} {value : Bytes} (hslash : b ≠ slash)
    (h : b ∈ joinSlash (((folded value).splitOn slash).filter (· ≠ [dot]))) : b ∈ folded value := by
  rcases Segments.mem_intercalate h with heq | ⟨segment, hsegment, hb⟩
  · exact absurd heq hslash
  · exact Segments.mem_of_mem_splitOn (mem_filter.1 hsegment).1 hb

theorem canonical_of_parse {value : Bytes} {path : KernelPath} (h : parse value = .ok path) :
    Canonical path.canonical := by
  simp only [parse, check_bind_eq_ok, failIf_eq_ok] at h
  obtain ⟨-, hnul, -, -, -, h⟩ := h
  obtain ⟨components, hkeep, h⟩ := bind_eq_ok.1 h
  rw [check_bind_eq_ok, failIf_eq_ok, pure_eq_ok] at h
  obtain ⟨hne, rfl⟩ := h
  rw [splitOnP_isSeparator] at hkeep
  obtain ⟨hall, rfl⟩ := (keepComponents_eq_ok _ _).1 hkeep
  refine ⟨⟨_, hne, fun segment hmem => ?_, rfl⟩, fun hback => ?_, fun hzero => ?_⟩
  · obtain ⟨hmem, hdot⟩ := mem_filter.1 hmem
    exact ⟨(hall segment hmem).1, by simpa using hdot, (hall segment hmem).2,
      Segments.not_mem_of_mem_splitOn _ _ _ hmem⟩
  · exact backslash_not_mem_folded value (mem_joinSlash_filter (by decide) hback)
  · refine hnul ((mem_folded (by decide) (by decide) value).1 ?_)
    exact mem_joinSlash_filter (by decide) hzero

theorem getElem?_joinSlash (a b : UInt8) (segment : Bytes) (segments : List Bytes) :
    (joinSlash ((a :: b :: segment) :: segments))[1]? = some b := by
  cases segments <;> simp [joinSlash, intercalate, intersperse]

theorem getElem?_joinSlash_singleton (a : UInt8) (segments : List Bytes) :
    (joinSlash ([a] :: segments))[1]? ≠ some colon := by
  cases segments with
  | nil => simp [joinSlash, intercalate]
  | cons segment segments =>
    have hsecond : (joinSlash ([a] :: segment :: segments))[1]? = some slash := by
      simp [joinSlash, intercalate, intersperse]
    rw [hsecond]
    decide

/-- Dropping every `.` leaves the first two bytes that dropping the leading ones leaves. -/
theorem drive_filter_iff (value : Bytes)
    (hne : ∀ component ∈ value.splitOnP isSeparator, component ≠ []) :
    (joinSlash ((value.splitOnP isSeparator).filter (· ≠ [dot])))[1]? = some colon ↔
      (stripLeading value)[1]? = some colon := by
  fun_induction stripLeading value with
  | case1 b₀ b₁ rest hlead ih =>
    obtain ⟨rfl, hsep⟩ := hlead
    have hsplit : (dot :: b₁ :: rest).splitOnP isSeparator =
        [dot] :: rest.splitOnP isSeparator := by
      simp [splitOnP_cons_eq_if_modifyHead, isSeparator, hsep, show dot ≠ slash by decide,
        show dot ≠ backslash by decide]
    rw [hsplit] at hne ⊢
    rw [filter_cons_of_neg (by simp)]
    exact ih fun component hmem => hne component (mem_cons_of_mem _ hmem)
  | case2 b₀ b₁ rest hlead =>
    have hfirst : isSeparator b₀ = false := by
      by_contra hsep
      refine hne [] ?_ rfl
      rw [splitOnP_cons_eq_if_modifyHead, if_pos (by simpa using hsep)]
      exact mem_cons_self
    by_cases hsep : isSeparator b₁ = true
    · have hdot : b₀ ≠ dot := fun heq => hlead ⟨heq, by simpa [isSeparator] using hsep⟩
      have hsplit : (b₀ :: b₁ :: rest).splitOnP isSeparator =
          [b₀] :: rest.splitOnP isSeparator := by
        simp [splitOnP_cons_eq_if_modifyHead, hfirst, hsep]
      rw [hsplit, filter_cons_of_pos (by simpa using hdot)]
      refine iff_of_false (getElem?_joinSlash_singleton _ _) fun hcolon => ?_
      obtain rfl : b₁ = colon := Option.some.inj hcolon
      exact absurd hsep (by decide)
    · obtain ⟨segment, segments, hrest⟩ := exists_cons_of_ne_nil
        (splitOnP_ne_nil isSeparator rest)
      have hsplit : (b₀ :: b₁ :: rest).splitOnP isSeparator =
          (b₀ :: b₁ :: segment) :: segments := by
        simp [splitOnP_cons_eq_if_modifyHead, hfirst, hsep, hrest]
      rw [hsplit, filter_cons_of_pos (by simp), getElem?_joinSlash]
      rfl
  | case3 value hshort =>
    rcases value with _ | ⟨b, _ | ⟨b', rest⟩⟩
    · exact absurd rfl (hne [] (by simp))
    · by_cases hsep : isSeparator b = true
      · exact absurd rfl (hne [] (by simp [splitOnP_cons_eq_if_modifyHead, hsep]))
      · have hsplit : [b].splitOnP isSeparator = [[b]] := by
          simp [splitOnP_cons_eq_if_modifyHead, hsep]
        rw [hsplit]
        by_cases hdot : b = dot <;> simp [hdot, joinSlash, intercalate]
    · exact absurd rfl (hshort b b' rest)

theorem drive_canonical_iff {value : Bytes} {path : KernelPath} (h : parse value = .ok path) :
    path.canonical[1]? = some colon ↔ (stripLeading value)[1]? = some colon := by
  simp only [parse, check_bind_eq_ok] at h
  obtain ⟨-, -, -, -, -, h⟩ := h
  obtain ⟨components, hkeep, h⟩ := bind_eq_ok.1 h
  rw [check_bind_eq_ok, pure_eq_ok] at h
  obtain ⟨-, rfl⟩ := h
  obtain ⟨hall, rfl⟩ := (keepComponents_eq_ok _ _).1 hkeep
  exact drive_filter_iff value fun component hmem => (hall component hmem).1

section
variable {path : Bytes} (h : Canonical path)
include h

theorem Canonical.parse_iff : parse path = .ok ⟨path⟩ ↔ path[1]? ≠ some colon := by
  obtain ⟨hne, hhead⟩ := h.normalized.head_ne_slash
  constructor
  · intro hparse
    simp only [parse, check_bind_eq_ok, failIf_eq_ok] at hparse
    exact hparse.2.2.1
  · intro hdrive
    obtain ⟨segments, hsegments, hplain, rfl⟩ := h.segments
    have hsplit : (joinSlash segments).splitOnP isSeparator = segments := by
      rw [splitOnP_isSeparator, folded_of_not_mem h.noBackslash]
      exact splitOn_joinSlash hsegments hplain
    have hkeep : keepComponents segments = .ok segments := by
      refine (keepComponents_eq_ok _ _).2 ⟨fun segment hmem =>
        ⟨(hplain segment hmem).nonempty, (hplain segment hmem).notDotDot⟩, ?_⟩
      exact (filter_eq_self.2 fun segment hmem => by
        simpa using (hplain segment hmem).notDot).symm
    simp only [parse, check_bind_eq_ok, failIf_eq_ok, hsplit]
    refine ⟨hne, h.noNul, hdrive, fun hback => h.noBackslash (mem_of_mem_head? hback), hhead, ?_⟩
    refine bind_eq_ok.2 ⟨segments, hkeep, ?_⟩
    exact check_bind_eq_ok.2 ⟨failIf_eq_ok.2 hsegments, rfl⟩

theorem Canonical.validateRequestPath_iff (host : Host) :
    validateRequestPath host path = .ok path ↔ path[1]? ≠ some colon := by
  obtain ⟨hne, hhead⟩ := h.normalized.head_ne_slash
  simp only [validateRequestPath, check_bind_eq_ok, failIf_eq_ok]
  constructor
  · intro hvalid
    exact hvalid.2.2.1
  · intro hdrive
    refine ⟨hne, fun habsolute => ?_, hdrive,
      normalizePath_of_normalized h.normalized h.noBackslash hdrive⟩
    rcases host.rooted path habsolute with hroot | hroot | hroot
    · exact hhead hroot
    · exact h.noBackslash (mem_of_mem_head? hroot)
    · exact hdrive hroot

end

theorem normalizePath_eq_iff {raw name requested : Bytes} (h : normalizePath raw = .ok name)
    (hdrive : requested[1]? ≠ some colon) :
    normalizePath name = .ok requested ↔ name = requested := by
  constructor
  · intro hagain
    by_cases hname : name[1]? = some colon
    · unfold normalizePath at hagain
      rw [check_bind_eq_ok, failIf_eq_ok] at hagain
      exact absurd hname hagain.1
    · exact Except.ok.inj (((normalizePath_again_iff h).2 hname).symm.trans hagain)
  · rintro rfl
    exact (normalizePath_again_iff h).2 hdrive

/-- The canonical form of a path is a fixpoint of both normalizers, and finds the entry that
`convert` wrote under its name, exactly if the path has no drive prefix behind its leading
`./`. -/
theorem kernel_path_agrees_iff (host : Host) (value : Bytes) (path : KernelPath)
    (h : parse value = .ok path) :
    (parse path.canonical = .ok path ↔ (stripLeading value)[1]? ≠ some colon) ∧
    (validateRequestPath host path.canonical = .ok path.canonical ↔
      (stripLeading value)[1]? ≠ some colon) ∧
    ((stripLeading value)[1]? ≠ some colon → ∀ raw name, normalizePath raw = .ok name →
      (normalizePath name = .ok path.canonical ↔ name = path.canonical)) := by
  have hcanonical := canonical_of_parse h
  rw [ne_eq, ← drive_canonical_iff h]
  exact ⟨hcanonical.parse_iff, hcanonical.validateRequestPath_iff host,
    fun hdrive raw name hname => normalizePath_eq_iff hname hdrive⟩

theorem kernel_path_vmlinuz :
    validateRequestPath unixHost (utf8 "boot/vmlinuz") = .ok (utf8 "boot/vmlinuz") ∧
      (normalizePath (utf8 "boot/vmlinuz") = .ok (utf8 "boot/vmlinuz") ↔
        utf8 "boot/vmlinuz" = utf8 "boot/vmlinuz") := by
  have h := kernel_path_agrees_iff unixHost (utf8 "./boot\\vmlinuz") ⟨utf8 "boot/vmlinuz"⟩ (by rfl)
  exact ⟨h.2.1.2 (by decide), h.2.2 (by decide) (utf8 "./boot/vmlinuz") _ rfl⟩

/-- The path `./c:x` is accepted, and its canonical form by neither normalizer. -/
theorem kernel_path_drive : parse (utf8 "./c:x") = .ok ⟨utf8 "c:x"⟩ ∧
      parse (utf8 "c:x") = .error .windowsDrivePrefix ∧
      validateRequestPath unixHost (utf8 "c:x") = .error (unsafePath
        "kernel request path contains a Windows drive prefix: c:x") ∧
      ∃ report, normalizePath (utf8 "c:x") = .error report :=
  ⟨rfl, rfl, rfl, _, rfl⟩

end Jyth.Kernel
