import Mathlib

/-!
# Greedy scanning

A scanner that takes as many letters as it can is right for a regular language when
what may follow never begins with such a letter:

    s ∈ many1 p * m  ↔  s begins with a letter of p ∧ s.dropWhile p ∈ m      (mem_many1_mul)

if no word of `m` begins with a letter of `p`.  Languages are those of Mathlib.
-/

namespace Scan

open Computability List Language

variable {α : Type} {p q : α → Bool} {l m : Language α} {s : List α}

def one (p : α → Bool) : Language α := {s | ∃ a, p a = true ∧ s = [a]}

def many1 (p : α → Bool) : Language α := one p * (one p)∗

/-- The first element satisfies `p`. -/
def Begins (p : α → Bool) (s : List α) : Prop := s.head?.any p = true

instance (p : α → Bool) (s : List α) : Decidable (Begins p s) :=
  inferInstanceAs (Decidable (_ = true))

@[simp] theorem not_begins_nil : ¬ Begins p [] := by simp [Begins]

@[simp] theorem begins_cons {a : α} : Begins p (a :: s) ↔ p a = true := by simp [Begins]

theorem mem_kstar_one : s ∈ (one p)∗ ↔ ∀ a ∈ s, p a = true := by
  rw [mem_kstar]
  constructor
  · rintro ⟨words, rfl, hwords⟩ a ha
    obtain ⟨word, hword, ha⟩ := mem_flatten.1 ha
    obtain ⟨b, hb, rfl⟩ := hwords word hword
    rw [mem_singleton.1 ha]
    exact hb
  · intro hs
    refine ⟨s.map fun a => [a], by rw [← flatMap_def, flatMap_singleton'], ?_⟩
    intro word hword
    obtain ⟨a, ha, rfl⟩ := mem_map.1 hword
    exact ⟨a, hs a ha, rfl⟩

theorem mem_many1 : s ∈ many1 p ↔ Begins p s ∧ ∀ a ∈ s, p a = true := by
  rw [many1, mem_mul]
  constructor
  · rintro ⟨_, ⟨a, ha, rfl⟩, rest, hrest, rfl⟩
    refine ⟨by simpa using ha, ?_⟩
    simpa [ha] using mem_kstar_one.1 hrest
  · rintro ⟨hbegins, hall⟩
    cases s with
    | nil => exact absurd hbegins not_begins_nil
    | cons a rest =>
      rw [forall_mem_cons] at hall
      exact ⟨[a], ⟨a, hall.1, rfl⟩, rest, mem_kstar_one.2 hall.2, rfl⟩

theorem dropWhile_append_of_not_begins {front rest : List α} (hfront : ∀ a ∈ front, p a = true)
    (hrest : ¬ Begins p rest) : (front ++ rest).dropWhile p = rest := by
  rw [dropWhile_append_of_pos hfront]
  cases rest with
  | nil => rfl
  | cons a rest => exact dropWhile_cons_of_neg (by simpa using hrest)

theorem mem_many1_mul (hm : ∀ w ∈ m, ¬ Begins p w) :
    s ∈ many1 p * m ↔ Begins p s ∧ s.dropWhile p ∈ m := by
  rw [mem_mul]
  constructor
  · rintro ⟨front, hfront, rest, hrest, rfl⟩
    obtain ⟨hbegins, hall⟩ := mem_many1.1 hfront
    rw [dropWhile_append_of_not_begins hall (hm rest hrest)]
    refine ⟨?_, hrest⟩
    cases front with
    | nil => exact absurd hbegins not_begins_nil
    | cons a front => simpa using hbegins
  · rintro ⟨hbegins, hrest⟩
    refine ⟨s.takeWhile p, mem_many1.2 ⟨?_, fun a ha => mem_takeWhile_imp ha⟩, _, hrest,
      takeWhile_append_dropWhile⟩
    cases s with
    | nil => exact hbegins
    | cons a s =>
      rw [begins_cons] at hbegins
      simp [hbegins]

theorem mem_singleton_mul {u s : List α} : s ∈ ({u} : Language α) * m ↔ ∃ w ∈ m, s = u ++ w := by
  rw [mem_mul]
  constructor
  · rintro ⟨_, rfl, w, hw, rfl⟩
    exact ⟨w, hw, rfl⟩
  · rintro ⟨w, hw, rfl⟩
    exact ⟨u, rfl, w, hw, rfl⟩

theorem mem_kstar_cases : s ∈ l∗ ↔ s = [] ∨ s ∈ l * l∗ := by
  rw [← one_add_self_mul_kstar_eq_kstar, mem_add, mem_one, one_add_self_mul_kstar_eq_kstar]

/-! ## The letters of a language -/

/-- Every word is made of letters of `p`. -/
def Over (p : α → Bool) (l : Language α) : Prop := ∀ w ∈ l, ∀ a ∈ w, p a = true

theorem Over.mul (hl : Over p l) (hm : Over p m) : Over p (l * m) := by
  rintro w ⟨u, hu, v, hv, rfl⟩ a ha
  rcases mem_append.1 ha with ha | ha
  · exact hl u hu a ha
  · exact hm v hv a ha

theorem Over.add (hl : Over p l) (hm : Over p m) : Over p (l + m) := by
  rintro w (hw | hw)
  · exact hl w hw
  · exact hm w hw

theorem Over.kstar (hl : Over p l) : Over p l∗ := by
  rintro w ⟨words, rfl, hwords⟩ a ha
  obtain ⟨word, hword, ha⟩ := mem_flatten.1 ha
  exact hl word (hwords word hword) a ha

theorem over_many1 (h : ∀ a, q a = true → p a = true) : Over p (many1 q) :=
  fun _ hw a ha => h a ((mem_many1.1 hw).2 a ha)

end Scan
