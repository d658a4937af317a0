import Jyth.Kernel.RequestDigests

/-!
# The canonical text of a configuration

`normalize` of `kernel/src/spec/config.rs` writes every CRLF as an LF and leaves one LF at
the end.  The replacement looks at the text once: a CR in front of a CRLF, or at the end of
the text, stands in front of an LF afterwards.
-/

namespace Jyth.Kernel

open Format List

inductive KernelConfigError
  | empty | tooLarge | nulByte | nonUtf8
deriving DecidableEq

def maxConfigBytes : Nat := 4 * 1024 * 1024

def replaceCrlf : List Char → List Char
  | '\r' :: '\n' :: rest => '\n' :: replaceCrlf rest
  | c :: rest => c :: replaceCrlf rest
  | [] => []

/-- The text without its trailing newlines, and one of them. -/
def canonicalText (text : List Char) : List Char :=
  (replaceCrlf text).rdropWhile (· = '\n') ++ ['\n']

def normalize (bytes : Bytes) (_mode : KernelConfigMode) : Except KernelConfigError Bytes := do
  failIf (bytes = []) .empty
  failIf (maxConfigBytes < bytes.length) .tooLarge
  failIf (0 ∈ bytes) .nulByte
  match fromUtf8? bytes with
  | none => .error .nonUtf8
  | some text => return utf8 (String.ofList (canonicalText text.toList))

theorem normalize_eq_ok {bytes canonical : Bytes} {mode : KernelConfigMode} :
    normalize bytes mode = .ok canonical ↔ bytes ≠ [] ∧ bytes.length ≤ maxConfigBytes ∧ 0 ∉ bytes ∧
      ∃ text : List Char, bytes = utf8 (String.ofList text) ∧
        canonical = utf8 (String.ofList (canonicalText text)) := by
  simp only [normalize, check_bind_eq_ok, failIf_eq_ok, not_lt]
  refine and_congr_right fun _ => and_congr_right fun _ => and_congr_right fun _ => ⟨fun h => ?_, ?_⟩
  · split at h
    · cases h
    · next text htext =>
      refine ⟨text.toList, ?_, (pure_eq_ok.1 h).symm⟩
      rw [String.ofList_toList]
      exact (fromUtf8?_eq_some _ _).1 htext
  · rintro ⟨text, rfl, rfl⟩
    rw [(fromUtf8?_eq_some _ _).2 rfl]
    simp only [String.toList_ofList, pure_eq_ok]

/-! ## The text -/

theorem utf8_ofList (text : List Char) :
    utf8 (String.ofList text) = text.flatMap String.utf8EncodeChar := by
  rw [utf8, String.toByteArray_ofList]
  simp [utf8Encode]

theorem replaceCrlf_sublist (text : List Char) : replaceCrlf text <+ text := by
  fun_induction replaceCrlf with
  | case1 rest ih => exact (ih.cons_cons '\n').cons '\r'
  | case2 c rest _ ih => exact ih.cons_cons c
  | case3 => exact .slnil

theorem replaceCrlf_of_free {text : List Char} (h : ¬['\r', '\n'] <:+: text) :
    replaceCrlf text = text := by
  fun_induction replaceCrlf with
  | case1 rest _ => exact absurd ⟨[], rest, rfl⟩ h
  | case2 c rest _ ih => rw [ih fun hrest => h (hrest.trans (suffix_cons c rest).isInfix)]
  | case3 => rfl

/-- No CR stands in front of a CRLF, and none at the end. -/
def CleanBreaks (text : List Char) : Prop :=
  ¬['\r', '\r', '\n'] <:+: text ∧ text.getLast? ≠ some '\r'

/-- An LF behind the replaced text makes no CRLF, unless a CR stood in front of a CRLF or at
the end. -/
theorem replaceCrlf_free_iff (text : List Char) :
    ¬['\r', '\n'] <:+: replaceCrlf text ++ ['\n'] ↔ CleanBreaks text := by
  fun_induction replaceCrlf with
  | case1 rest ih =>
    rw [cons_append, infix_cons_iff, not_or, ih, CleanBreaks, CleanBreaks, infix_cons_iff,
      infix_cons_iff]
    cases rest <;> simp
  | case2 c rest hc ih =>
    rw [cons_append, infix_cons_iff, not_or, ih, CleanBreaks, CleanBreaks, infix_cons_iff]
    -- what follows this character begins with an LF if it begins with a CRLF, or is empty
    have hnext : ['\r', '\n'] <+: c :: (replaceCrlf rest ++ ['\n']) ↔
        c = '\r' ∧ (rest = [] ∨ ['\r', '\n'] <+: rest) := by
      rw [cons_prefix_cons, eq_comm]
      refine and_congr_right fun hcr => ?_
      subst hcr
      rw [replaceCrlf.eq_def]
      split
      · simp
      · next d rest' hcrlf =>
        have hd : d ≠ '\n' := fun hd => hc rest' rfl (by rw [hd])
        simp only [cons_append, cons_prefix_cons, hd.symm, nil_prefix, and_true, reduceCtorEq,
          false_or, false_iff, not_and]
        rintro rfl ⟨tail, htail⟩
        exact hcrlf tail rfl htail.symm
      · simp
    rw [hnext]
    cases rest with
    | nil => simp
    | cons d rest =>
      simp only [getLast?_cons_cons, cons_prefix_cons, eq_comm (a := c), reduceCtorEq, false_or]
      tauto
  | case3 =>
    unfold CleanBreaks
    decide

theorem prefix_trimmed (text : List Char) :
    text.rdropWhile (· = '\n') ++ ['\n'] <+: text ++ ['\n'] := by
  induction text using reverseRecOn with
  | nil => exact prefix_rfl
  | append_singleton text c ih =>
    rw [rdropWhile_concat]
    split
    · next hc =>
      rw [of_decide_eq_true hc]
      exact ih.trans (prefix_append _ _)
    · exact prefix_rfl

theorem crlf_trimmed_iff (text : List Char) :
    ['\r', '\n'] <:+: text.rdropWhile (· = '\n') ++ ['\n'] ↔ ['\r', '\n'] <:+: text ++ ['\n'] := by
  refine ⟨fun h => h.trans (prefix_trimmed text).isInfix, fun h => ?_⟩
  induction text using reverseRecOn with
  | nil => exact h
  | append_singleton text c ih =>
    rw [rdropWhile_concat]
    split
    · next hc =>
      rw [of_decide_eq_true hc] at h
      rcases infix_concat_iff.1 h with h | h
      · obtain ⟨front, hfront⟩ := h
        rw [append_cons] at hfront
        exact absurd (append_inj' (append_cancel_right hfront) rfl).2 (by decide)
      · exact ih h
    · exact h

theorem canonicalText_free_iff (text : List Char) :
    ¬['\r', '\n'] <:+: canonicalText text ↔ CleanBreaks text := by
  rw [canonicalText, crlf_trimmed_iff, replaceCrlf_free_iff]

theorem count_replaceCrlf_lt {text : List Char} (h : ['\r', '\n'] <:+: text) :
    (replaceCrlf text).count '\r' < text.count '\r' := by
  fun_induction replaceCrlf with
  | case1 rest _ =>
    have hle := (replaceCrlf_sublist rest).count_le '\r'
    simp only [count_cons_self, count_cons_of_ne (by decide : '\n' ≠ '\r')]
    omega
  | case2 c rest hc ih =>
    rcases infix_cons_iff.1 h with h | h
    · obtain ⟨rfl, tail, htail⟩ := cons_prefix_cons.1 h
      exact absurd htail.symm (hc tail rfl)
    · rw [count_cons, count_cons]
      exact Nat.add_lt_add_right (ih h) _
  | case3 => simp at h

theorem utf8_canonicalText_sublist (text : List Char) :
    utf8 (String.ofList (canonicalText text)) <+ utf8 (String.ofList text) ++ [0x0a] := by
  have htext : canonicalText text <+ text ++ ['\n'] := (prefix_trimmed _).sublist.trans
    ((replaceCrlf_sublist text).append_right _)
  have hbytes := htext.flatMap String.utf8EncodeChar
  rwa [flatMap_append, ← utf8_ofList, ← utf8_ofList] at hbytes

theorem canonicalText_idem_iff (text : List Char) :
    canonicalText (canonicalText text) = canonicalText text ↔ CleanBreaks text := by
  rw [← canonicalText_free_iff]
  refine ⟨fun hsame hcrlf => ?_, fun h => ?_⟩
  · -- the CR of a CRLF is lost, and no other is added
    have hlt := count_replaceCrlf_lt hcrlf
    have hle := (prefix_trimmed (replaceCrlf (canonicalText text))).sublist.count_le '\r'
    rw [← canonicalText, hsame, count_append] at hle
    exact absurd (hle.trans_lt hlt) (Nat.lt_irrefl _)
  · conv_lhs => rw [canonicalText, replaceCrlf_of_free h]
    rw [canonicalText, rdropWhile_concat_pos _ _ _ (by simp), rdropWhile_idempotent]

theorem getLast?_rdropWhile (text : List Char) :
    (text.rdropWhile (· = '\n')).getLast? ≠ some '\n' := by
  intro hlast
  obtain ⟨hne, hlf⟩ := mem_getLast?_eq_getLast hlast
  exact rdropWhile_last_not _ _ hne (by simpa using hlf.symm)

theorem canonicalText_eq_iff (text : List Char) : canonicalText text = text ++ ['\n'] ↔
    ¬['\r', '\n'] <:+: text ∧ text.getLast? ≠ some '\n' := by
  rw [canonicalText, append_left_inj]
  constructor
  · intro h
    refine ⟨fun hcrlf => ?_, fun hlast => ?_⟩
    · have hle := (List.rdropWhile_prefix (· = '\n') (replaceCrlf text)).sublist.count_le '\r'
      rw [h] at hle
      exact absurd (hle.trans_lt (count_replaceCrlf_lt hcrlf)) (Nat.lt_irrefl _)
    · rw [← h] at hlast
      exact getLast?_rdropWhile _ hlast
  · rintro ⟨hcrlf, hlast⟩
    rw [replaceCrlf_of_free hcrlf, rdropWhile_eq_self_iff]
    intro hne hlf
    exact hlast (by rw [getLast?_eq_some_getLast hne, of_decide_eq_true hlf])

theorem length_canonicalText_le_iff {text : List Char}
    (hmax : (utf8 (String.ofList text)).length ≤ maxConfigBytes) :
    (utf8 (String.ofList (canonicalText text))).length ≤ maxConfigBytes ↔
      (utf8 (String.ofList text)).length < maxConfigBytes ∨ ['\r', '\n'] <:+: text ∨
        text.getLast? = some '\n' := by
  have hpart := utf8_canonicalText_sublist text
  have hlonger : utf8 (String.ofList (text ++ ['\n'])) = utf8 (String.ofList text) ++ [0x0a] := by
    rw [utf8_ofList, flatMap_append, ← utf8_ofList]
    rfl
  have hlength := hpart.length_le
  rw [length_append, length_singleton] at hlength
  rw [← not_iff_not, not_or, not_or, ← ne_eq (text.getLast?), ← canonicalText_eq_iff]
  constructor
  · intro hlong
    have hwhole := hpart.eq_of_length_le (by rw [length_append, length_singleton]; omega)
    rw [← hlonger] at hwhole
    exact ⟨by omega, String.ofList_injective (utf8_injective hwhole)⟩
  · rintro ⟨hfull, hwhole⟩
    rw [hwhole, hlonger, length_append, length_singleton]
    omega

/-- **Canonical configurations.**  The result ends in exactly one LF and has at most one byte
more than the limit.  It has no CRLF exactly where no CR stands in front of a CRLF or at the
end of the text; and normalization leaves it alone exactly if besides it is within the limit,
which it is unless the text is as long as the limit allows and nothing is taken from it.  A
request that reads such a result back keeps its digest. -/
theorem normalize_canonical_iff {bytes canonical : Bytes} {mode : KernelConfigMode}
    {text : List Char} (h : normalize bytes mode = .ok canonical)
    (htext : bytes = utf8 (String.ofList text)) :
    (∃ lines : List Char, canonical = utf8 (String.ofList (lines ++ ['\n'])) ∧
        lines.getLast? ≠ some '\n' ∧ (¬['\r', '\n'] <:+: lines ++ ['\n'] ↔ CleanBreaks text)) ∧
      canonical.length ≤ maxConfigBytes + 1 ∧
      (normalize canonical mode = .ok canonical ↔ CleanBreaks text ∧
        (bytes.length < maxConfigBytes ∨ ['\r', '\n'] <:+: text ∨ text.getLast? = some '\n')) ∧
      ∀ (blake3 : Bytes → Hash) (r : CustomRequest) (read : Buffer),
        r.spec.config.bytes.1 = canonical → normalize canonical mode = .ok canonical →
        normalize canonical mode = .ok read.1 →
        customRequestDigest blake3 { r with spec.config.bytes := read } =
          customRequestDigest blake3 r := by
  obtain ⟨hne, hmax, hnul, read, hread, rfl⟩ := normalize_eq_ok.1 h
  obtain rfl : text = read := String.ofList_injective (utf8_injective (htext.symm.trans hread))
  have hpart := utf8_canonicalText_sublist text
  rw [← htext] at hpart
  refine ⟨⟨_, rfl, fun hlf => ?_, canonicalText_free_iff text⟩, ?_, ?_, ?_⟩
  · exact getLast?_rdropWhile _ hlf
  · calc _ ≤ (bytes ++ [0x0a]).length := hpart.length_le
      _ ≤ maxConfigBytes + 1 := by rw [length_append]; exact Nat.succ_le_succ hmax
  · rw [htext, ← length_canonicalText_le_iff (htext ▸ hmax), ← canonicalText_idem_iff,
      normalize_eq_ok]
    constructor
    · rintro ⟨-, hlen, -, read, hread, hsame⟩
      obtain rfl := String.ofList_injective (utf8_injective hread)
      exact ⟨(String.ofList_injective (utf8_injective hsame)).symm, hlen⟩
    · rintro ⟨hsame, hlen⟩
      refine ⟨fun hnil => ?_, hlen, fun hzero => ?_, _, rfl, by rw [hsame]⟩
      · rw [utf8_ofList, canonicalText, flatMap_append] at hnil
        exact absurd (append_eq_nil_iff.1 hnil).2 (by decide)
      · rcases mem_append.1 (hpart.subset hzero) with hzero | hzero
        · exact hnul hzero
        · exact absurd hzero (by decide)
  · intro blake3 r read hbytes hagain hread
    obtain rfl : read = r.spec.config.bytes :=
      Subtype.ext ((Except.ok.inj (hread.symm.trans hagain)).trans hbytes.symm)
    rfl

theorem normalize_canonical_crlf : normalize (utf8 "A=y\r\n") .fragment = .ok (utf8 "A=y\n") ∧
      normalize (utf8 "A=y\n") .fragment = .ok (utf8 "A=y\n") := by
  have h : normalize (utf8 "A=y\r\n") .fragment = .ok (utf8 "A=y\n") := by decide +kernel
  have htext : utf8 "A=y\r\n" = utf8 (String.ofList ['A', '=', 'y', '\r', '\n']) := rfl
  exact ⟨h, (normalize_canonical_iff h htext).2.2.1.2
    ⟨⟨by decide, by decide⟩, .inr (.inr (by decide))⟩⟩

/-- A CR in front of a CRLF: the result has a CRLF, and normalization takes it out of there. -/
theorem normalize_crcrlf : normalize (utf8 "A=y\r\r\n") .fragment = .ok (utf8 "A=y\r\n") ∧
      normalize (utf8 "A=y\r\n") .fragment = .ok (utf8 "A=y\n") := by
  decide +kernel

end Jyth.Kernel
