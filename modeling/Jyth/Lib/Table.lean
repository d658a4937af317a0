import Mathlib

/-!
# Key-value tables

A table is a partial function.  The order of its keys is not observable.  A table kept as a
list, in which a later entry of a key replaces an earlier one, is read by the last hit of a
test (`lastWhere`).
-/

abbrev Table (κ ν : Type) := κ → Option ν

namespace Table

variable {κ ν : Type} [DecidableEq κ]

def insert (t : Table κ ν) (k : κ) (v : ν) : Table κ ν := Function.update t k (some v)

def remove (t : Table κ ν) (k : κ) : Table κ ν := Function.update t k none

variable (t : Table κ ν)

theorem insert_apply (k k' : κ) (v : ν) :
    t.insert k v k' = if k' = k then some v else t k' := Function.update_apply _ _ _ _

theorem remove_apply (k k' : κ) :
    t.remove k k' = if k' = k then none else t k' := Function.update_apply _ _ _ _

variable {k : κ} {ks : List κ} {v' : ν} {k' : κ} {v : ν}

theorem foldl_insert_of_not_mem (v : ν) (h : k ∉ ks) :
    ks.foldl (fun t k => t.insert k v) t k = t k := by
  induction ks generalizing t with
  | nil => rfl
  | cons k' ks ih =>
    rw [List.mem_cons, not_or] at h
    rw [List.foldl_cons, ih _ h.2, insert_apply, if_neg h.1]

theorem foldl_insert_of_mem (v : ν) (h : k ∈ ks) :
    ks.foldl (fun t k => t.insert k v) t k = some v := by
  induction ks generalizing t with
  | nil => cases h
  | cons k' ks ih =>
    rw [List.foldl_cons]
    by_cases hks : k ∈ ks
    · exact ih _ hks
    · rw [foldl_insert_of_not_mem _ v hks, insert_apply,
        if_pos ((List.mem_cons.1 h).resolve_right hks)]

theorem foldl_insert_apply (ks : List κ) (v : ν) (k : κ) [Decidable (k ∈ ks)] :
    ks.foldl (fun t k => t.insert k v) t k = if k ∈ ks then some v else t k := by
  by_cases h : k ∈ ks
  · rw [if_pos h, foldl_insert_of_mem t v h]
  · rw [if_neg h, foldl_insert_of_not_mem t v h]

def insertNew (t : Table κ ν) (k : κ) (v : ν) : Table κ ν :=
  if (t k).isSome then t else t.insert k v

theorem insertNew_apply (k k' : κ) (v : ν) :
    t.insertNew k v k' = (t k').or (if k = k' then some v else none) := by
  unfold insertNew
  by_cases hk : k = k'
  · subst hk
    cases h : t k <;> simp [h, insert_apply]
  · have hne : ¬ k' = k := fun heq => hk heq.symm
    split_ifs <;> simp [insert_apply, hne]

theorem insertNew_of_some {t : Table κ ν} (h : t k' = some v') : t.insertNew k v k' = some v' := by
  rw [insertNew_apply, h, Option.some_or]

theorem insertNew_eq_some {t : Table κ ν}
    (h : t.insertNew k v k' = some v') : t k' = some v' ∨ k' = k ∧ v' = v ∧ t k = none := by
  rw [insertNew_apply, Option.or_eq_some_iff] at h
  refine h.imp_right fun ⟨hnone, hnew⟩ => ?_
  by_cases hk : k = k'
  · rw [if_pos hk] at hnew
    exact ⟨hk.symm, (Option.some.inj hnew).symm, hk ▸ hnone⟩
  · rw [if_neg hk] at hnew
    cases hnew

end Table

/-! ## The last hit of a list -/

namespace LastHit

open List Option

variable {α : Type} {q : α → Bool}

def lastWhere (q : α → Bool) (l : List α) : Option α := l.reverse.find? q

theorem lastWhere_append (l l' : List α) :
    lastWhere q (l ++ l') = (lastWhere q l').or (lastWhere q l) := by
  rw [lastWhere, reverse_append, find?_append]
  rfl

theorem lastWhere_concat (l : List α) (a : α) :
    lastWhere q (l ++ [a]) = if q a then some a else lastWhere q l := by
  rw [lastWhere_append]
  by_cases h : q a = true <;> simp [lastWhere, h]

variable {l : List α} {a : α}

theorem lastWhere_eq_none : lastWhere q l = none ↔ ∀ a ∈ l, q a = false := by
  rw [lastWhere, find?_eq_none]
  simp

theorem lastWhere_eq_some (h : lastWhere q l = some a) : a ∈ l ∧ q a = true :=
  ⟨mem_reverse.1 (mem_of_find?_eq_some h), find?_some h⟩

end LastHit
