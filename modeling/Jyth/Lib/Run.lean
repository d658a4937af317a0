import Mathlib

/-!
# Runs of a state machine

A run feeds a list of operations to a step function.  `Reached P` says that
every state of a run satisfies `P`, the first and the last among them;
`Steps Q` that every step is taken from a state and by an operation related by
`Q`.  If `Q` is exactly what a step needs to keep `P`, then the two are the
same condition on a run (`reached_iff_steps`).

A machine whose steps are not always possible, or not determined, has labelled
runs (`Trace`), and invariants that may speak of the labels so far
(`Trace.invariant`).

Of a state with a finite family of components, `tally` counts those with a property.
-/

namespace Run

open List

variable {σ α : Type} (step : σ → α → σ)

/-- `P` holds of every state on the way. -/
def Reached (P : σ → Prop) : σ → List α → Prop
  | s, [] => P s
  | s, a :: as => P s ∧ Reached P (step s a) as

/-- `Q` holds of every step. -/
def Steps (Q : σ → α → Prop) : σ → List α → Prop
  | _, [] => True
  | s, a :: as => Q s a ∧ Steps Q (step s a) as

variable {step}

variable {P : σ → Prop} {Q : σ → α → Prop} {as : List α}

theorem reached_iff_fronts {s : σ} :
    Reached step P s as ↔ ∀ front, front <+: as → P (front.foldl step s) := by
  induction as generalizing s with
  | nil => simp [Reached]
  | cons a as ih =>
    rw [Reached, ih]
    constructor
    · rintro ⟨hs, hall⟩ front hfront
      cases front with
      | nil => exact hs
      | cons b front =>
        obtain ⟨rfl, hrest⟩ := cons_prefix_cons.1 hfront
        exact hall front hrest
    · intro hall
      exact ⟨hall [] nil_prefix, fun front hfront =>
        hall (a :: front) (cons_prefix_cons.2 ⟨rfl, hfront⟩)⟩

/-- A condition that says, from every good state, precisely which steps lead to
a good state, says precisely which runs stay good.  The states may be taken
among those of an invariant `I` that the operations of the run keep. -/
theorem reached_iff_steps {I : σ → Prop} (hI : ∀ s, ∀ a ∈ as, I s → I (step s a))
    (h : ∀ s, ∀ a ∈ as, I s → P s → (P (step s a) ↔ Q s a)) {s : σ} (hi : I s) (hs : P s) :
    Reached step P s as ↔ Steps step Q s as := by
  induction as generalizing s with
  | nil => simp [Reached, Steps, hs]
  | cons a as ih =>
    have hstep := h s a mem_cons_self hi hs
    have hrest := ih (fun s b hb => hI s b (mem_cons_of_mem _ hb))
      (fun s b hb => h s b (mem_cons_of_mem _ hb)) (hI s a mem_cons_self hi)
    rw [Reached, Steps]
    constructor
    · rintro ⟨-, hreached⟩
      have hnext : P (step s a) := reached_iff_fronts.1 hreached [] nil_prefix
      exact ⟨hstep.1 hnext, (hrest hnext).1 hreached⟩
    · rintro ⟨hq, hsteps⟩
      exact ⟨hs, (hrest (hstep.2 hq)).2 hsteps⟩

theorem reached_of_steps (h : ∀ s a, P s → Q s a → P (step s a)) {s : σ} (hs : P s)
    (hq : Steps step Q s as) : Reached step P s as := by
  induction as generalizing s with
  | nil => exact hs
  | cons a as ih => exact ⟨hs, ih (h s a hs hq.1) hq.2⟩

/-! ## Two machines in lockstep -/

section Lockstep

variable {τ : Type} (step : σ → α → σ) (step' : τ → α → τ)

def lockstep (s : σ × τ) (a : α) : σ × τ := (step s.1 a, step' s.2 a)

theorem foldl_lockstep (s : σ × τ) (as : List α) :
    as.foldl (lockstep step step') s = (as.foldl step s.1, as.foldl step' s.2) := by
  induction as generalizing s with
  | nil => rfl
  | cons a as ih => exact ih (lockstep step step' s a)

theorem steps_lockstep {Q : σ → α → Prop} {s : σ × τ} :
    Steps (lockstep step step') (fun s a => Q s.1 a) s as ↔ Steps step Q s.1 as := by
  induction as generalizing s with
  | nil => exact Iff.rfl
  | cons a as ih => exact and_congr_right fun _ => ih

/-- If `Q` is exactly what a step needs to keep two related states related, then
it is what a run needs to keep them related all along. -/
theorem related_iff_steps {R : σ → τ → Prop} {I : σ → Prop} {Q : σ → α → Prop}
    (hI : ∀ s, ∀ a ∈ as, I s → I (step s a))
    (h : ∀ s t, ∀ a ∈ as, I s → R s t → (R (step s a) (step' t a) ↔ Q s a)) {s : σ} {t : τ}
    (hi : I s) (hs : R s t) :
    (∀ front, front <+: as → R (front.foldl step s) (front.foldl step' t)) ↔ Steps step Q s as := by
  have hrun : Reached (lockstep step step') (fun s => R s.1 s.2) (s, t) as ↔
      Steps (lockstep step step') (fun s a => Q s.1 a) (s, t) as :=
    reached_iff_steps (I := fun s => I s.1) (fun s a ha => hI s.1 a ha)
      (fun s a ha => h s.1 s.2 a ha) hi hs
  rw [steps_lockstep, reached_iff_fronts] at hrun
  simpa only [foldl_lockstep] using hrun

end Lockstep

/-! ## Labelled runs -/

section Trace

/-- `Trace next s₀ as s`: from `s₀`, the labels `as` can lead to `s`. -/
inductive Trace {σ α : Type} (next : σ → α → σ → Prop) (s₀ : σ) : List α → σ → Prop
  | nil : Trace next s₀ [] s₀
  | snoc {as : List α} {s s' : σ} {a : α} (run : Trace next s₀ as s) (last : next s a s') :
      Trace next s₀ (as ++ [a]) s'

variable {next next' : σ → α → σ → Prop} {s₀ s t : σ} {as bs : List α}

theorem Trace.mono (h : Trace next s₀ as s) (hnext : ∀ s a s', next s a s' → next' s a s') :
    Trace next' s₀ as s := by
  induction h with
  | nil => exact .nil
  | snoc _ hlast ih => exact .snoc ih (hnext _ _ _ hlast)

theorem Trace.append (h : Trace next s₀ as s) (h' : Trace next s bs t) :
    Trace next s₀ (as ++ bs) t := by
  induction h' with
  | nil => simpa using h
  | snoc _ hlast ih =>
    rw [← append_assoc]
    exact .snoc ih hlast

theorem Trace.of_foldlM {step : σ → α → Option σ} (h : as.foldlM step s₀ = some s) :
    Trace (fun s a s' => step s a = some s') s₀ as s := by
  induction as using reverseRecOn generalizing s with
  | nil =>
    cases h
    exact .nil
  | append_singleton as a ih =>
    rw [foldlM_append] at h
    obtain ⟨mid, hmid, hlast⟩ := Option.bind_eq_some_iff.1 h
    exact .snoc (ih hmid) (by simpa using hlast)

theorem Trace.invariant {I : List α → σ → Prop} (h₀ : I [] s₀)
    (hstep : ∀ as s a s', I as s → next s a s' → I (as ++ [a]) s') (h : Trace next s₀ as s) :
    I as s := by
  induction h with
  | nil => exact h₀
  | snoc _ hlast ih => exact hstep _ _ _ _ ih hlast

end Trace

end Run

/-! ## Counting the parts of a state -/

namespace Tally

open Finset

variable {ι β : Type} [Fintype ι] (p : β → Bool)

def tally (f : ι → β) : Nat := ∑ i, (p (f i)).toNat

variable {p}

theorem tally_update [DecidableEq ι] (f : ι → β) (i : ι) (b : β) :
    tally p (Function.update f i b) + (p (f i)).toNat = tally p f + (p b).toNat := by
  have hrest : ∑ j ∈ univ.erase i, (p (Function.update f i b j)).toNat =
      ∑ j ∈ univ.erase i, (p (f j)).toNat := by
    refine sum_congr rfl fun j hj => ?_
    rw [Function.update_of_ne (ne_of_mem_erase hj)]
  have hnew := add_sum_erase univ (fun j => (p (Function.update f i b j)).toNat) (mem_univ i)
  have hold := add_sum_erase univ (fun j => (p (f j)).toNat) (mem_univ i)
  simp only [Function.update_self] at hnew
  unfold tally
  omega

theorem tally_le_card (f : ι → β) : tally p f ≤ Fintype.card ι := by
  calc tally p f ≤ ∑ _i : ι, 1 := sum_le_sum fun i _ => Bool.toNat_le (p (f i))
    _ = Fintype.card ι := by simp

theorem tally_eq_card {f : ι → β} (h : ∀ i, p (f i) = true) : tally p f = Fintype.card ι := by
  simp [tally, h]

theorem tally_mono {γ : Type} {q : γ → Bool} {f : ι → β} {g : ι → γ}
    (h : ∀ i, p (f i) = true → q (g i) = true) : tally p f ≤ tally q g := by
  refine sum_le_sum fun i _ => ?_
  cases hp : p (f i) with
  | false => exact Nat.zero_le _
  | true => rw [h i hp]

theorem tally_eq_zero {f : ι → β} : tally p f = 0 ↔ ∀ i, p (f i) = false := by
  simp [tally, sum_eq_zero_iff]

end Tally
