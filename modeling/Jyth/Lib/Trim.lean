import Jyth.Lib.Segments

/-!
# Trimmed lists

`trim p` drops what satisfies `p` from both ends.  Where the segments of a list are
trimmed one by one, the list itself need not be:

    (splitOn sep (trim p l)).map (trim p) = (splitOn sep l).map (trim p)    (p sep = false)
-/

namespace Trim

open List

variable {α : Type} (p : α → Bool)

def trim (l : List α) : List α := (l.dropWhile p).rdropWhile p

variable {p}

theorem rdropWhile_append (l r : List α) :
    (l ++ r).rdropWhile p = if r.rdropWhile p = [] then l.rdropWhile p else l ++ r.rdropWhile p := by
  induction r using reverseRecOn with
  | nil => simp
  | append_singleton r a ih =>
    rw [← append_assoc, rdropWhile_concat, rdropWhile_concat]
    by_cases ha : p a = true
    · rw [if_pos ha, if_pos ha, ih]
    · rw [if_neg ha, if_neg ha, if_neg (by simp), append_assoc]

variable {l : List α} {a : α} {w : List α}

theorem rdropWhile_append_of_kept (h : l.rdropWhile p = l) (r : List α) :
    (l ++ r).rdropWhile p = l ++ r.rdropWhile p := by
  rw [rdropWhile_append]
  split
  · next hnil => rw [h, hnil, append_nil]
  · rfl

theorem trim_cons (ha : p a = true) (l : List α) : trim p (a :: l) = trim p l := by
  rw [trim, dropWhile_cons_of_pos ha, trim]

theorem trim_concat (ha : p a = true) (l : List α) : trim p (l ++ [a]) = trim p l := by
  unfold trim
  induction l with
  | nil => simp [ha]
  | cons b l ih =>
    by_cases hb : p b = true
    · rw [cons_append, dropWhile_cons_of_pos hb, dropWhile_cons_of_pos hb, ih]
    · rw [cons_append, dropWhile_cons_of_neg hb, dropWhile_cons_of_neg hb,
        ← cons_append, rdropWhile_concat_pos p _ a ha]

theorem trim_append_left (hw : ∀ a ∈ w, p a = true) (l : List α) : trim p (w ++ l) = trim p l := by
  induction w with
  | nil => rfl
  | cons a w ih =>
    rw [forall_mem_cons] at hw
    rw [cons_append, trim_cons hw.1, ih hw.2]

theorem trim_append_right (hw : ∀ a ∈ w, p a = true) (l : List α) : trim p (l ++ w) = trim p l := by
  induction w using reverseRecOn with
  | nil => rw [append_nil]
  | append_singleton w a ih =>
    rw [← append_assoc, trim_concat (hw a (by simp)), ih]
    intro b hb
    exact hw b (by simp [hb])

theorem trim_rdropWhile (l : List α) : trim p (l.rdropWhile p) = trim p l := by
  have hl : trim p (l.rdropWhile p ++ l.rtakeWhile p) = trim p (l.rdropWhile p) := by
    apply trim_append_right
    intro a ha
    exact mem_rtakeWhile_imp ha
  rw [← hl, rdropWhile_append_rtakeWhile]

theorem trim_trim (l : List α) : trim p (trim p l) = trim p l := by
  calc trim p (trim p l) = trim p (l.dropWhile p) := trim_rdropWhile _
    _ = trim p l := by rw [trim, dropWhile_idempotent, trim]

theorem trim_of_ends {b : α} {m : List α} (ha : p a = false) (hb : p b = false)
    (h : a :: l = m ++ [b]) : trim p (a :: l) = a :: l := by
  unfold trim
  rw [dropWhile_cons_of_neg (by simp [ha]), h, rdropWhile_concat_neg p _ b (by simp [hb])]

theorem trim_of_forall (h : ∀ a ∈ l, p a = false) : trim p l = l := by
  cases l with
  | nil => rfl
  | cons a l =>
    rcases eq_nil_or_concat (a :: l) with hnil | ⟨m, b, hm⟩
    · cases hnil
    · rw [concat_eq_append] at hm
      apply trim_of_ends (h a mem_cons_self) _ hm
      exact h b (by rw [hm]; simp)

theorem trim_sublist (l : List α) : (trim p l).Sublist l :=
  (List.rdropWhile_prefix p _).sublist.trans (dropWhile_suffix p).sublist

section
variable [BEq α] [LawfulBEq α] {sep : α}

theorem map_trim_splitOn_dropWhile (hsep : p sep = false) (l : List α) :
    ((l.dropWhile p).splitOn sep).map (trim p) = (l.splitOn sep).map (trim p) := by
  induction l with
  | nil => rfl
  | cons a l ih =>
    by_cases ha : p a = true
    · have hne : a ≠ sep := by
        rintro rfl
        rw [hsep] at ha
        cases ha
      rw [dropWhile_cons_of_pos ha, ih, splitOn_cons_eq_if_modifyHead]
      cases hsplit : l.splitOn sep with
      | nil => simp [hne]
      | cons head tail => simp [hne, trim_cons ha]
    · rw [dropWhile_cons_of_neg ha]

theorem map_trim_splitOn_rdropWhile (hsep : p sep = false) (l : List α) :
    ((l.rdropWhile p).splitOn sep).map (trim p) = (l.splitOn sep).map (trim p) := by
  induction l using reverseRecOn with
  | nil => rfl
  | append_singleton l a ih =>
    by_cases ha : p a = true
    · have hne : sep ∉ [a] := by
        rw [mem_singleton]
        rintro rfl
        rw [hsep] at ha
        cases ha
      obtain ⟨front, last, hl, hla⟩ := Segments.splitOn_append_of_not_mem l hne
      rw [rdropWhile_concat_pos p _ a ha, ih, hl, hla, map_append, map_append,
        map_singleton, map_singleton, trim_concat ha]
    · rw [rdropWhile_concat_neg p _ a ha]

theorem map_trim_splitOn_trim (hsep : p sep = false) (l : List α) :
    ((trim p l).splitOn sep).map (trim p) = (l.splitOn sep).map (trim p) := by
  rw [trim, map_trim_splitOn_rdropWhile hsep, map_trim_splitOn_dropWhile hsep]

end

end Trim
