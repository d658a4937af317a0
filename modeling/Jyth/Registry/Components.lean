import Jyth.Lib.Scan
import Jyth.Registry.Reference

/-!
# The grammar of a repository

`validate_component` scans a component once, byte by byte.  What it accepts is the
language

    [a-z0-9]+((\.|_|__|-+)[a-z0-9]+)*

of the component grammar, and `validate_repository` accepts the lists of such components
of at most 255 bytes (`component_grammar`).
-/

namespace Jyth.Registry

open Format Segments Scan Computability Language

/-! ## The language -/

/-- `\.|_|__|-+` -/
def separator : Language UInt8 := {[0x2e]} + {[0x5f]} + {[0x5f, 0x5f]} + many1 (· = 0x2d)

/-- `[a-z0-9]+((\.|_|__|-+)[a-z0-9]+)*` -/
def componentLanguage : Language UInt8 := many1 inComponent * (separator * many1 inComponent)∗

/-- The bytes of a component. -/
def ofComponent (b : UInt8) : Bool := inComponent b || b = 0x2e || b = 0x5f || b = 0x2d

theorem separator_over : Over ofComponent separator := by
  refine ((Over.add ?_ ?_).add ?_).add (over_many1 ?_)
  · rintro _ rfl
    simp [ofComponent]
  · rintro _ rfl
    simp [ofComponent]
  · rintro _ rfl
    simp [ofComponent]
  · intro b hb
    simp [ofComponent, of_decide_eq_true hb]

theorem componentLanguage_over : Over ofComponent componentLanguage := by
  have hrun : Over ofComponent (many1 inComponent) := over_many1 fun b hb => by simp [ofComponent, hb]
  exact hrun.mul (separator_over.mul hrun).kstar

/-! ## The scanner -/

variable {w : Text} {m : Language UInt8}

theorem not_begins_of_separator (h : w ∈ separator * m) : ¬ Begins inComponent w := by
  obtain ⟨front, hfront, rest, -, rfl⟩ := mem_mul.1 h
  -- It is enough to look at the first byte of the separator.
  have hfirst : ∃ b front', front = b :: front' ∧ inComponent b = false := by
    rcases hfront with ((rfl | rfl) | rfl) | hfront
    · exact ⟨0x2e, [], rfl, by decide⟩
    · exact ⟨0x5f, [], rfl, by decide⟩
    · exact ⟨0x5f, [0x5f], rfl, by decide⟩
    · obtain ⟨hbegins, -⟩ := mem_many1.1 hfront
      cases front with
      | nil => exact absurd hbegins not_begins_nil
      | cons b front =>
        rw [begins_cons] at hbegins
        obtain rfl := of_decide_eq_true hbegins
        exact ⟨0x2d, front, rfl, by decide⟩
  obtain ⟨b, front', rfl, hb⟩ := hfirst
  simp [hb]

theorem not_begins_of_repetition (h : w ∈ (separator * many1 inComponent)∗) :
    ¬ Begins inComponent w := by
  rcases mem_kstar_cases.1 h with rfl | h
  · exact not_begins_nil
  · rw [mul_assoc] at h
    exact not_begins_of_separator h

theorem not_begins_with {c : UInt8} (hw : Begins inComponent w)
    (hc : inComponent c = false) : ¬ Begins (fun b : UInt8 => b = c) w := by
  intro hbegins
  cases w with
  | nil => exact not_begins_nil hbegins
  | cons b w =>
    rw [begins_cons] at hbegins hw
    obtain rfl := of_decide_eq_true hbegins
    rw [hc] at hw
    exact absurd hw (by decide)

theorem mem_separator_mul (hm : ∀ w ∈ m, Begins inComponent w) (b : UInt8) (rest : Text) :
    b :: rest ∈ separator * m ↔ ∃ rest', skipSeparator b rest = some rest' ∧ rest' ∈ m := by
  have hdash : ∀ w ∈ m, ¬ Begins (fun b : UInt8 => b = 0x2d) w := fun w hw =>
    not_begins_with (hm w hw) (by decide)
  rw [separator, add_mul, add_mul, add_mul, mem_add, mem_add, mem_add,
    mem_singleton_mul, mem_singleton_mul, mem_singleton_mul, mem_many1_mul hdash, begins_cons]
  unfold skipSeparator
  by_cases hdot : b = 0x2e
  · subst hdot
    simp
  by_cases hscore : b = 0x5f
  · subst hscore
    cases rest with
    | nil => simp
    | cons c rest =>
      by_cases hc : c = 0x5f
      · subst hc
        -- A single underscore would leave one in front of the letters.
        have hsingle : (0x5f :: rest) ∉ m := fun hw =>
          not_begins_with (c := 0x5f) (hm _ hw) (by decide) (by simp)
        simp [hsingle]
      · simp [hc]
  by_cases hdashed : b = 0x2d
  · subst hdashed
    simp
  · simp [hdot, hscore, hdashed]

theorem skipSeparator_length {b : UInt8} {rest rest' : Text}
    (h : skipSeparator b rest = some rest') : rest'.length ≤ rest.length := by
  unfold skipSeparator at h
  split_ifs at h <;> cases h
  · exact le_rfl
  · exact (List.tail_sublist rest).length_le
  · exact le_rfl
  · exact (List.dropWhile_sublist _).length_le

theorem componentTail_iff (fuel : Nat) (s : Text) (hfuel : s.length ≤ fuel) :
    componentTail fuel s = true ↔ s ∈ (separator * many1 inComponent)∗ := by
  have hstar : ∀ w ∈ (separator * many1 inComponent)∗, ¬ Begins inComponent w :=
    fun w hw => not_begins_of_repetition hw
  have hrun : ∀ w ∈ many1 inComponent * (separator * many1 inComponent)∗, Begins inComponent w :=
    fun w hw => ((mem_many1_mul hstar).1 hw).1
  induction fuel generalizing s with
  | zero =>
    obtain rfl := List.length_eq_zero_iff.1 (Nat.le_zero.1 hfuel)
    exact iff_of_true rfl (nil_mem_kstar _)
  | succ fuel ih =>
    cases s with
    | nil => exact iff_of_true (by simp [componentTail]) (nil_mem_kstar _)
    | cons b rest =>
      rw [mem_kstar_cases, or_iff_right (List.cons_ne_nil b rest), mul_assoc,
        mem_separator_mul hrun, componentTail]
      cases hskip : skipSeparator b rest with
      | none => simp
      | some rest' =>
        have hlen : (rest'.dropWhile inComponent).length ≤ fuel := by
          have hshort : rest'.length ≤ rest.length := skipSeparator_length hskip
          have hdrop := (List.dropWhile_sublist inComponent (l := rest')).length_le
          rw [List.length_cons] at hfuel
          omega
        simp only [Option.some.injEq, exists_eq_left', mem_many1_mul hstar, Bool.and_eq_true,
          ih _ hlen, Begins]

theorem validateComponent_eq_ok (component : Text) :
    validateComponent component = .ok () ↔ component ∈ componentLanguage := by
  have hstar : ∀ w ∈ (separator * many1 inComponent)∗, ¬ Begins inComponent w :=
    fun w hw => not_begins_of_repetition hw
  have hlen : (component.dropWhile inComponent).length ≤ component.length :=
    (List.dropWhile_sublist _).length_le
  rw [validateComponent, check_bind_eq_ok, failIf_eq_ok, failIf_eq_ok, not_not, not_not,
    componentTail_iff _ _ hlen, componentLanguage, mem_many1_mul hstar]
  rfl

theorem nil_not_mem_componentLanguage : [] ∉ componentLanguage := by
  rw [← validateComponent_eq_ok]
  decide

theorem validateRepository_eq_ok (repository : Text) : validateRepository repository = .ok () ↔
      ∀ component ∈ repository.splitOn slash,
        component.length ≤ maxComponentLen ∧ component ∈ componentLanguage := by
  rw [validateRepository, check_bind_eq_ok, failIf_eq_ok, forM_eq_ok]
  simp only [check_bind_eq_ok, failIf_eq_ok, not_lt, validateComponent_eq_ok]
  constructor
  · rintro ⟨-, hall⟩ component hmem
    exact (hall component hmem).2
  · intro hall
    refine ⟨?_, fun component hmem => ⟨?_, hall component hmem⟩⟩
    · rintro rfl
      exact nil_not_mem_componentLanguage (hall [] (by simp)).2
    · rintro rfl
      exact nil_not_mem_componentLanguage (hall [] hmem).2

/-- **The grammar of repositories.**  A component is accepted just if it belongs to the
language of the component grammar; a repository just if its components do and none is
longer than 255 bytes. -/
theorem component_grammar (component repository : Text) :
    (validateComponent component = .ok () ↔ component ∈ componentLanguage) ∧
    (validateRepository repository = .ok () ↔ ∀ component ∈ repository.splitOn slash,
        component.length ≤ maxComponentLen ∧ component ∈ componentLanguage) :=
  ⟨validateComponent_eq_ok component, validateRepository_eq_ok repository⟩

example : validateComponent (utf8 "a__b--c.d") = .ok () := by decide

example : validateComponent (utf8 "a___b") = .error .invalidRepositoryComponent := by decide

end Jyth.Registry
