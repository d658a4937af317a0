import Jyth.Lib.Effect

/-!
# Programs that share a store

Between two operations of a program others may change the store.
`Obeys world R G Q p s`: from `s`, while the others make changes in `R`, each
operation `op` of `p` makes a change in `G op`, and `p` returns with `Q`.  What a program
obeys, it goes on obeying after a change in `R` (`Obeys.stable`), so programs whose
`G` is in the `R` of the others can be interleaved in any way.

A proof runs through assertions about the store.  One that stands before an
operation has to be `Stable`: no change in `R` makes it false.

    Triple world R G I p Q E     from I, p obeys; it succeeds in Q or fails in E
    Only ok p                    p performs operations in `ok` only, whatever the answers
-/

namespace Effect

variable {Op : Type} {Ans : Op → Type} {σ ε α β : Type}

/-- If others act by `R`, the program acts by `G` and ends in `Q`. -/
def Obeys (world : World σ Op Ans) (R : σ → σ → Prop) (G : Op → σ → σ → Prop)
    (Q : α → σ → Prop) : Prog Op Ans α → σ → Prop
  | .done a, s => Q a s
  | .step op next, s => ∀ s₁, R s s₁ → ∀ r s', world op s₁ r s' →
      G op s₁ s' ∧ Obeys world R G Q (next r) s'

/-- Others keep `I`. -/
def Stable (R : σ → σ → Prop) (I : σ → Prop) : Prop := ∀ ⦃s s'⦄, R s s' → I s → I s'

namespace Stable

variable {R : σ → σ → Prop} {I J : σ → Prop}

theorem and (hI : Stable R I) (hJ : Stable R J) : Stable R fun s => I s ∧ J s :=
  fun _ _ hR h => ⟨hI hR h.1, hJ hR h.2⟩

theorem imp {p : Prop} (hI : p → Stable R I) : Stable R fun s => p → I s :=
  fun _ _ hR h hp => hI hp hR (h hp)

end Stable

variable {world : World σ Op Ans} {R : σ → σ → Prop} {G : Op → σ → σ → Prop}

namespace Obeys

variable {Q Q' : α → σ → Prop} {p : Prog Op Ans α} {s s' : σ}

variable (h : Obeys world R G Q p s)
include h

theorem mono (hQ : ∀ a s, Q a s → Q' a s) : Obeys world R G Q' p s := by
  induction p generalizing s with
  | done a => exact hQ a s h
  | step op next ih =>
    intro s₁ hR r s' hop
    obtain ⟨hG, hrest⟩ := h s₁ hR r s' hop
    exact ⟨hG, ih r hrest⟩

omit h in
theorem bind {f : α → Prog Op Ans β} {Q : β → σ → Prop}
    (h : Obeys world R G (fun a s => Obeys world R G Q (f a) s) p s) :
    Obeys world R G Q (p >>= f) s := by
  induction p generalizing s with
  | done a => exact h
  | step op next ih =>
    intro s₁ hR r s' hop
    obtain ⟨hG, hrest⟩ := h s₁ hR r s' hop
    exact ⟨hG, ih r hrest⟩

theorem and {Q' : α → σ → Prop} (h' : Obeys world R G Q' p s) :
    Obeys world R G (fun a s => Q a s ∧ Q' a s) p s := by
  induction p generalizing s with
  | done a => exact ⟨h, h'⟩
  | step op next ih =>
    intro s₁ hR r s' hop
    exact ⟨(h s₁ hR r s' hop).1, ih r (h s₁ hR r s' hop).2 (h' s₁ hR r s' hop).2⟩

theorem rely {R' : σ → σ → Prop} (hR : ∀ s s', R' s s' → R s s') : Obeys world R' G Q p s := by
  induction p generalizing s with
  | done a => exact h
  | step op next ih =>
    intro s₁ hs₁ r s' hop
    obtain ⟨hG, hrest⟩ := h s₁ (hR s s₁ hs₁) r s' hop
    exact ⟨hG, ih r hrest⟩

theorem exec {a : α} (hR : ∀ s, R s s) (hrun : Exec world p s (some a) s') : Q a s' := by
  induction p generalizing s with
  | done b =>
    cases hrun
    exact h
  | step op next ih =>
    cases hrun with
    | step hop hrest => exact ih _ (h s (hR s) _ _ hop).2 hrest

omit h

theorem stable (hR : ∀ s s' s'', R s s' → R s' s'' → R s s'') (hQ : ∀ a, Stable R (Q a)) :
    Stable R (Obeys world R G Q p) := by
  intro s s' hs h
  cases p with
  | done a => exact hQ a hs h
  | step op next => exact fun s₁ hs₁ => h s₁ (hR _ _ _ hs hs₁)

end Obeys

/-! ## Programs that may fail -/

/-- Success in `Q`, failure in `E`. -/
def Post (Q : α → σ → Prop) (E : ε → σ → Prop) : Except ε α → σ → Prop
  | .ok a, s => Q a s
  | .error e, s => E e s

/-- From `I`, a success ends in `Q` and a failure in `E`. -/
def Triple (world : World σ Op Ans) (R : σ → σ → Prop) (G : Op → σ → σ → Prop) (I : σ → Prop)
    (p : Fallible Op Ans ε α) (Q : α → σ → Prop) (E : ε → σ → Prop) : Prop :=
  ∀ s, I s → Obeys world R G (Post Q E) p s

namespace Triple

variable {I J : σ → Prop} {p : Fallible Op Ans ε α} {Q Q' : α → σ → Prop} {E E' : ε → σ → Prop}

theorem pure {a : α} (h : ∀ s, I s → Q a s) :
    Triple world R G I (pure a : Fallible Op Ans ε α) Q E := h

theorem throw {e : ε} (h : ∀ s, I s → E e s) :
    Triple world R G I (throw e : Fallible Op Ans ε α) Q E := h

theorem bind {P : β → σ → Prop} {p : Fallible Op Ans ε β} {f : β → Fallible Op Ans ε α}
    (h : Triple world R G I p P E) (hf : ∀ b, Triple world R G (P b) (f b) Q E) :
    Triple world R G I (p >>= f : Fallible Op Ans ε α) Q E := by
  intro s hs
  refine Obeys.bind ((h s hs).mono fun r s hr => ?_)
  cases r with
  | ok b => exact hf b s hr
  | error e => exact hr

theorem mono (h : Triple world R G I p Q E) (hI : ∀ s, J s → I s) (hQ : ∀ a s, Q a s → Q' a s)
    (hE : ∀ e s, E e s → E' e s) : Triple world R G J p Q' E' := by
  intro s hs
  refine (h s (hI s hs)).mono fun r s hr => ?_
  cases r with
  | ok a => exact hQ a s hr
  | error e => exact hE e s hr

theorem pre (h : Triple world R G I p Q E) (hI : ∀ s, J s → I s) : Triple world R G J p Q E :=
  fun s hs => h s (hI s hs)

theorem attempt {Q : Except ε α → σ → Prop} {E' : ε → σ → Prop}
    (h : Triple world R G I p (fun a => Q (.ok a)) fun e => Q (.error e)) :
    Triple world R G I (attempt p) Q E' := by
  intro s hs
  refine Obeys.bind ((h s hs).mono fun r s hr => ?_)
  cases r with
  | ok a => exact hr
  | error e => exact hr

theorem given {φ : Prop} (h : φ → Triple world R G I p Q E) :
    Triple world R G (fun s => φ ∧ I s) p Q E :=
  fun s hs => h hs.1 s hs.2

end Triple

/-! ## Programs that keep to some operations -/

/-- The program calls allowed operations only. -/
def Only (ok : Op → Prop) : Prog Op Ans α → Prop
  | .done _ => True
  | .step op next => ok op ∧ ∀ r, Only ok (next r)

namespace Only

variable {ok : Op → Prop}

theorem bindP {p : Prog Op Ans α} {f : α → Prog Op Ans β} (h : Only ok p)
    (hf : ∀ a, Only ok (f a)) : Only ok (p >>= f) := by
  induction p with
  | done a => exact hf a
  | step op next ih => exact ⟨h.1, fun r => ih r (h.2 r)⟩

theorem pure (a : α) : Only ok (pure a : Fallible Op Ans ε α) := trivial

theorem throw (e : ε) : Only ok (throw e : Fallible Op Ans ε α) := trivial

theorem bind {p : Fallible Op Ans ε β} {f : β → Fallible Op Ans ε α} (h : Only ok p)
    (hf : ∀ b, Only ok (f b)) : Only ok (p >>= f : Fallible Op Ans ε α) := by
  refine bindP h fun r => ?_
  cases r with
  | ok b => exact hf b
  | error e => trivial

theorem attempt {p : Fallible Op Ans ε α} (h : Only ok p) :
    Only ok (attempt p : Prog Op Ans (Except ε (Except ε α))) := bindP h fun _ => trivial

theorem mono {ok' : Op → Prop} {p : Prog Op Ans α} (h : Only ok p) (hok : ∀ op, ok op → ok' op) :
    Only ok' p := by
  induction p with
  | done a => trivial
  | step op next ih => exact ⟨hok op h.1, fun r => ih r (h.2 r)⟩

/-- If the operations in `ok` make changes in `G` and keep `F`, and no change in `R`
makes `F` false, then it holds all along. -/
theorem triple {F : σ → Prop} {p : Fallible Op Ans ε α} (h : Only ok p) (hR : Stable R F)
    (hok : ∀ op, ok op → ∀ s₀ s r s', R s₀ s → world op s r s' → G op s s' ∧ (F s → F s')) :
    Triple world R G F p (fun _ => F) fun _ => F := by
  intro s hs
  induction p generalizing s with
  | done r => cases r <;> exact hs
  | step op next ih =>
    intro s₁ hs₁ r s' hop
    obtain ⟨hact, hkeep⟩ := hok op h.1 s s₁ r s' hs₁ hop
    exact ⟨hact, ih r (h.2 r) s' (hkeep (hR hs₁ hs))⟩

end Only

end Effect
