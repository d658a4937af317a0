import Mathlib

/-!
# Collecting by key

The loop `groups.entry(key).or_default().push(value)` over some of the entries
of a list.  Each key ends up with the values of its entries, in their order
(`getElem?_collect`).
-/

namespace Buckets

open List

variable {κ ν ε : Type} {cmp : κ → κ → Ordering} [Std.TransCmp cmp]
  (cond : ε → Bool) (key : ε → κ) (value : ε → ν)

def push (groups : Std.ExtTreeMap κ (List ν) cmp) (entry : ε) : Std.ExtTreeMap κ (List ν) cmp :=
  if cond entry then groups.insert (key entry) ((groups[key entry]?).getD [] ++ [value entry])
  else groups

variable [DecidableEq κ]

def bucket (k : κ) (entries : List ε) : List ν :=
  (entries.filter fun entry => cond entry && key entry = k).map value

variable {cond key value}

variable {k : κ} {entries : List ε} {entry : ε}

theorem mem_bucket {v : ν} : v ∈ bucket cond key value k entries ↔
      ∃ entry ∈ entries, cond entry = true ∧ key entry = k ∧ value entry = v := by
  simp only [bucket, mem_map, mem_filter, Bool.and_eq_true, decide_eq_true_eq, and_assoc]

theorem length_bucket_le (k : κ) (entries : List ε) :
    (bucket cond key value k entries).length ≤ entries.length := by
  rw [bucket, length_map]
  exact length_filter_le _ _

theorem bucket_cons_of_key (hcond : cond entry = true) (hkey : key entry = k) (entries : List ε) :
    bucket cond key value k (entry :: entries) = value entry :: bucket cond key value k entries := by
  simp [bucket, hcond, hkey]

theorem bucket_cons_of_not (h : ¬ (cond entry = true ∧ key entry = k)) (entries : List ε) :
    bucket cond key value k (entry :: entries) = bucket cond key value k entries := by
  rw [bucket, filter_cons, if_neg (by simpa using h)]
  rfl

variable [Std.LawfulEqCmp cmp]

theorem getElem?_foldl_push (entries : List ε) (groups : Std.ExtTreeMap κ (List ν) cmp) (k : κ) :
    (entries.foldl (push cond key value) groups)[k]? =
      if (bucket cond key value k entries).isEmpty then groups[k]?
      else some ((groups[k]?).getD [] ++ bucket cond key value k entries) := by
  induction entries generalizing groups with
  | nil => rfl
  | cons entry entries ih =>
    rw [foldl_cons, ih, push]
    by_cases hcond : cond entry = true
    · rw [if_pos hcond, Std.ExtTreeMap.getElem?_insert]
      by_cases hkey : key entry = k
      · rw [bucket_cons_of_key hcond hkey, hkey, if_pos Std.ReflCmp.compare_self]
        cases hb : bucket cond key value k entries <;> simp
      · rw [bucket_cons_of_not fun h => hkey h.2,
          if_neg fun h => hkey (Std.LawfulEqCmp.eq_of_compare h)]
    · rw [if_neg hcond, bucket_cons_of_not fun h => hcond h.1]

theorem getElem?_collect (entries : List ε) (k : κ) :
    (entries.foldl (push cond key value) (∅ : Std.ExtTreeMap κ (List ν) cmp))[k]? =
      if (bucket cond key value k entries).isEmpty then none
      else some (bucket cond key value k entries) := by
  rw [getElem?_foldl_push, Std.ExtTreeMap.getElem?_empty, Option.getD_none, nil_append]

theorem collect_eq_some {values : List ν} :
    (entries.foldl (push cond key value) (∅ : Std.ExtTreeMap κ (List ν) cmp))[k]? = some values ↔
      values = bucket cond key value k entries ∧ values ≠ [] := by
  rw [getElem?_collect]
  cases hb : bucket cond key value k entries with
  | nil =>
    rw [isEmpty_nil, if_pos rfl]
    constructor
    · intro h
      cases h
    · rintro ⟨rfl, hne⟩
      exact absurd rfl hne
  | cons v vs =>
    rw [isEmpty_cons, if_neg (by decide), Option.some.injEq, eq_comm]
    exact ⟨fun h => ⟨h, by rw [h]; exact cons_ne_nil _ _⟩, And.left⟩

end Buckets
