import Mathlib

/-!
# Separated lists

A list cut at a separator is a list of segments (`List.splitOn`).  Extending a
list by the separator and more is extending its segments:

    t ++ [sep] <+: s  ↔  t.splitOn sep <+: s.splitOn sep ∧ t ≠ s

`splitOnce`, `rsplitOnce` and `lastSegment` cut at one separator only.
-/

namespace Segments

open List

variable {α : Type} [BEq α] [LawfulBEq α]

theorem splitOn_injective (sep : α) : Function.Injective (List.splitOn sep) := by
  intro s t h
  have hs : [sep].intercalate (s.splitOn sep) = s := intercalate_splitOn sep
  rw [← hs, h, intercalate_splitOn]

variable {sep : α} {s front : List α} {a : α} {last : List α}

variable {t rest seg : List α} {segs : List (List α)}

theorem splitOn_of_not_mem (h : sep ∉ t) : t.splitOn sep = [t] := by
  have hsplit : ([sep].intercalate [t]).splitOn sep = [t] :=
    splitOn_intercalate sep (by simpa using h) (cons_ne_nil _ _)
  simpa using hsplit

theorem splitOn_append_of_not_mem (s : List α) (h : sep ∉ t) :
    ∃ front last, s.splitOn sep = front ++ [last] ∧ (s ++ t).splitOn sep = front ++ [last ++ t] := by
  induction s with
  | nil => exact ⟨[], [], by simp, by simpa using splitOn_of_not_mem h⟩
  | cons a s ih =>
    obtain ⟨front, last, hs, hst⟩ := ih
    rw [cons_append, splitOn_cons_eq_if_modifyHead, splitOn_cons_eq_if_modifyHead, hs, hst]
    by_cases ha : a = sep
    · exact ⟨[] :: front, last, by simp [ha], by simp [ha]⟩
    · cases front with
      | nil => exact ⟨[], a :: last, by simp [ha], by simp [ha]⟩
      | cons head front => exact ⟨(a :: head) :: front, last, by simp [ha], by simp [ha]⟩

omit [BEq α] [LawfulBEq α] in
theorem intercalate_concat (sep : α) {front : List (List α)} (hne : front ≠ []) (last : List α) :
    [sep].intercalate (front ++ [last]) = [sep].intercalate front ++ [sep] ++ last := by
  induction front with
  | nil => exact absurd rfl hne
  | cons head front ih =>
    cases front with
    | nil => simp [intercalate_cons_cons]
    | cons next front =>
      have := ih (cons_ne_nil _ _)
      simp only [cons_append, intercalate_cons_cons, append_assoc] at this ⊢
      rw [this]

omit [BEq α] [LawfulBEq α] in
theorem mem_intercalate (h : a ∈ [sep].intercalate segs) : a = sep ∨ ∃ seg ∈ segs, a ∈ seg := by
  induction segs with
  | nil => simp at h
  | cons head segs ih =>
    cases segs with
    | nil => exact .inr ⟨head, mem_cons_self, by simpa using h⟩
    | cons next segs =>
      rw [intercalate_cons_cons, mem_append, mem_append] at h
      rcases h with (h | h) | h
      · exact .inr ⟨head, mem_cons_self, h⟩
      · exact .inl (mem_singleton.1 h)
      · rcases ih h with h | ⟨seg, hseg, h⟩
        · exact .inl h
        · exact .inr ⟨seg, mem_cons_of_mem _ hseg, h⟩

omit [BEq α] [LawfulBEq α] in
theorem mem_intercalate_of_mem (hseg : seg ∈ segs) (h : a ∈ seg) : a ∈ [sep].intercalate segs := by
  induction segs with
  | nil => simp at hseg
  | cons head segs ih =>
    cases segs with
    | nil =>
      obtain rfl := mem_singleton.1 hseg
      simpa using h
    | cons next segs =>
      rw [intercalate_cons_cons, mem_append, mem_append]
      rcases mem_cons.1 hseg with rfl | hseg
      · exact .inl (.inl h)
      · exact .inr (ih hseg)

theorem mem_of_mem_splitOn (hseg : seg ∈ s.splitOn sep) (h : a ∈ seg) : a ∈ s := by
  have hs : [sep].intercalate (s.splitOn sep) = s := intercalate_splitOn sep
  rw [← hs]
  exact mem_intercalate_of_mem hseg h

theorem not_mem_of_mem_splitOn (sep : α) (s seg : List α) (h : seg ∈ s.splitOn sep) :
    sep ∉ seg := by
  induction s generalizing seg with
  | nil =>
    rw [splitOn_nil, mem_singleton] at h
    simp [h]
  | cons x s ih =>
    rw [splitOn_cons_eq_if_modifyHead] at h
    split at h
    · rcases mem_cons.1 h with rfl | h
      · simp
      · exact ih seg h
    · next hx =>
      obtain ⟨head, tail, hs⟩ := exists_cons_of_ne_nil (splitOn_ne_nil sep s)
      rw [hs, modifyHead_cons] at h
      rcases mem_cons.1 h with rfl | h
      · have := ih head (by rw [hs]; exact mem_cons_self)
        simp only [beq_iff_eq] at hx
        simp [this, Ne.symm hx]
      · exact ih seg (by rw [hs]; exact mem_cons_of_mem _ h)

theorem append_sep_prefix_iff (sep : α) (t s : List α) :
    t ++ [sep] <+: s ↔ t.splitOn sep <+: s.splitOn sep ∧ t ≠ s := by
  constructor
  · rintro ⟨r, rfl⟩
    refine ⟨⟨r.splitOn sep, ?_⟩, ?_⟩
    · rw [append_assoc, singleton_append, splitOn_append_cons_self]
    · intro h
      have := congrArg List.length h
      simp at this
  · rintro ⟨⟨rest, hrest⟩, hne⟩
    have hnil : rest ≠ [] := by
      rintro rfl
      rw [append_nil] at hrest
      exact hne (splitOn_injective sep hrest)
    have hsep : ∀ seg ∈ rest, sep ∉ seg := fun seg hseg =>
      not_mem_of_mem_splitOn sep s seg (by rw [← hrest]; exact mem_append_right _ hseg)
    refine ⟨[sep].intercalate rest, splitOn_injective sep ?_⟩
    rw [append_assoc, singleton_append, splitOn_append_cons_self,
      splitOn_intercalate sep hsep hnil, hrest]

/-! ## Cutting once -/

def splitOnce (sep : α) : List α → Option (List α × List α)
  | [] => none
  | a :: rest =>
    if a == sep then some ([], rest) else (splitOnce sep rest).map fun cut => (a :: cut.1, cut.2)

/-- What comes before and after the last separator. -/
def rsplitOnce (sep : α) (s : List α) : Option (List α × List α) :=
  (splitOnce sep s.reverse).map fun cut => (cut.2.reverse, cut.1.reverse)

/-- What comes after the last separator, or everything if there is none. -/
def lastSegment (sep : α) (s : List α) : List α := (s.reverse.takeWhile (· != sep)).reverse

theorem splitOnce_eq_some
    (h : splitOnce sep s = some (front, rest)) : s = front ++ sep :: rest := by
  induction s generalizing front with
  | nil => cases h
  | cons a s ih =>
    rw [splitOnce] at h
    split at h
    · next ha =>
      cases h
      rw [eq_of_beq ha, nil_append]
    · obtain ⟨⟨front', rest'⟩, hcut, heq⟩ := Option.map_eq_some_iff.1 h
      cases heq
      rw [ih hcut, cons_append]

theorem splitOnce_append (h : sep ∉ front) (rest : List α) :
    splitOnce sep (front ++ sep :: rest) = some (front, rest) := by
  induction front with
  | nil => simp [splitOnce]
  | cons a front ih =>
    obtain ⟨ha, hfront⟩ := ne_and_not_mem_of_not_mem_cons h
    simp [splitOnce, ih hfront, Ne.symm ha]

theorem not_mem_of_splitOnce (h : splitOnce sep s = some (front, rest)) : sep ∉ front := by
  induction s generalizing front with
  | nil => cases h
  | cons a s ih =>
    rw [splitOnce] at h
    split at h
    · cases h
      simp
    · next ha =>
      obtain ⟨⟨front', rest'⟩, hcut, heq⟩ := Option.map_eq_some_iff.1 h
      cases heq
      rw [mem_cons, not_or]
      exact ⟨fun hsep => ha (by simp [hsep]), ih hcut⟩

theorem splitOnce_eq_none : splitOnce sep s = none ↔ sep ∉ s := by
  induction s with
  | nil => simp [splitOnce]
  | cons a s ih =>
    rw [splitOnce, mem_cons, not_or]
    by_cases ha : a = sep
    · simp [ha]
    · simp [ha, ih, Ne.symm ha]

theorem rsplitOnce_append (h : sep ∉ last) (front : List α) :
    rsplitOnce sep (front ++ sep :: last) = some (front, last) := by
  have hlast : sep ∉ last.reverse := fun hmem => h (mem_reverse.1 hmem)
  rw [rsplitOnce, reverse_append, reverse_cons, append_assoc, singleton_append,
    splitOnce_append hlast]
  simp

theorem rsplitOnce_eq_some
    (h : rsplitOnce sep s = some (front, last)) : s = front ++ sep :: last := by
  obtain ⟨⟨last', front'⟩, hcut, heq⟩ := Option.map_eq_some_iff.1 h
  cases heq
  have hreverse := congrArg List.reverse (splitOnce_eq_some hcut)
  simpa using hreverse

theorem lastSegment_append (h : sep ∉ last) (front : List α) :
    lastSegment sep (front ++ sep :: last) = last := by
  have hlast : ∀ a ∈ last.reverse, (a != sep) = true := by
    intro a ha
    simpa using fun heq : a = sep => h (heq ▸ mem_reverse.1 ha)
  rw [lastSegment, reverse_append, reverse_cons, append_assoc, takeWhile_append_of_pos hlast]
  simp

end Segments
