import Mathlib

/-!
# Programs that talk to a store and may crash

A program performs operations on a store one at a time and branches on their
answers.  What an operation may do is a relation (`World`), so that failures and
races are answers like any other.  A run ends with a value or is cut off after
any number of operations (`Exec`).

`Safe world C Q p s`: from `s`, every run of `p` keeps `C` at every point where
it can be cut, and returns with `Q`.  It is computed along the program and has
rules for sequencing and for steps that may fail.

    Safe world C Q p s  ↔  every run of p from s ends in C, and in Q if it returns   (safe_iff)
-/

namespace Effect

/-- A program: it is done, or performs an operation and goes on with the answer. -/
inductive Prog (Op : Type) (Ans : Op → Type) (α : Type) : Type
  | done (a : α)
  | step (op : Op) (next : Ans op → Prog Op Ans α)

variable {Op : Type} {Ans : Op → Type} {σ ε α β : Type}

namespace Prog

def bind : Prog Op Ans α → (α → Prog Op Ans β) → Prog Op Ans β
  | done a, f => f a
  | step op next, f => step op fun r => (next r).bind f

instance : Monad (Prog Op Ans) where
  pure := done
  bind := Prog.bind

/-- A single operation. -/
def call (op : Op) : Prog Op Ans (Ans op) := step op done

end Prog

/-- What an operation may answer and do. -/
abbrev World (σ Op : Type) (Ans : Op → Type) := (op : Op) → σ → Ans op → σ → Prop

/-- A run: it returns, or is cut off. -/
inductive Exec (world : World σ Op Ans) : Prog Op Ans α → σ → Option α → σ → Prop
  | done (a : α) (s : σ) : Exec world (.done a) s (some a) s
  | crash (p : Prog Op Ans α) (s : σ) : Exec world p s none s
  | step {op : Op} {next : Ans op → Prog Op Ans α} {s s' s'' : σ} {r : Ans op} {out : Option α}
      (h : world op s r s') (rest : Exec world (next r) s' out s'') :
      Exec world (.step op next) s out s''

/-- `C` holds before every operation and at the end, `Q` at the end. -/
def Safe (world : World σ Op Ans) (C : σ → Prop) (Q : α → σ → Prop) : Prog Op Ans α → σ → Prop
  | .done a, s => C s ∧ Q a s
  | .step op next, s => C s ∧ ∀ r s', world op s r s' → Safe world C Q (next r) s'

variable {world : World σ Op Ans} {C C' : σ → Prop} {Q : α → σ → Prop}

variable {p : Prog Op Ans α} {f : β → Prog Op Ans α} {R : α → Prop}

theorem safe_iff (p : Prog Op Ans α) (s : σ) :
    Safe world C Q p s ↔ ∀ out s', Exec world p s out s' → C s' ∧ ∀ a ∈ out, Q a s' := by
  induction p generalizing s with
  | done a =>
    constructor
    · intro h out s' hrun
      cases hrun with
      | done => exact ⟨h.1, by simpa using h.2⟩
      | crash => exact ⟨h.1, by simp⟩
    · intro h
      obtain ⟨hC, hQ⟩ := h _ _ (.done a s)
      exact ⟨hC, hQ a rfl⟩
  | step op next ih =>
    constructor
    · intro h out s' hrun
      cases hrun with
      | crash => exact ⟨h.1, by simp⟩
      | step hop hrest => exact (ih _ _).1 (h.2 _ _ hop) _ _ hrest
    · intro h
      exact ⟨(h _ _ (.crash _ s)).1, fun r s' hop =>
        (ih r s').2 fun out s'' hrest => h out s'' (.step hop hrest)⟩

theorem Safe.mono {Q' : α → σ → Prop} {s : σ} (h : Safe world C Q p s)
    (hC : ∀ s, C s → C' s) (hQ : ∀ a s, C s → Q a s → Q' a s) : Safe world C' Q' p s := by
  induction p generalizing s with
  | done a => exact ⟨hC s h.1, hQ a s h.1 h.2⟩
  | step op next ih => exact ⟨hC s h.1, fun r s' hop => ih r (h.2 r s' hop)⟩

theorem Safe.pure {a : α} {s : σ} (hC : C s) (hQ : Q a s) :
    Safe world C Q (pure a : Prog Op Ans α) s := ⟨hC, hQ⟩

theorem Safe.bind {p : Prog Op Ans β} {s : σ}
    (h : Safe world C (fun b s => Safe world C Q (f b) s) p s) : Safe world C Q (p >>= f) s := by
  induction p generalizing s with
  | done b => exact h.2
  | step op next ih => exact ⟨h.1, fun r s' hop => ih r (h.2 r s' hop)⟩

theorem Safe.call {op : Op} {Q : Ans op → σ → Prop} {s : σ} (hC : C s)
    (h : ∀ r s', world op s r s' → C s' ∧ Q r s') : Safe world C Q (Prog.call op) s :=
  ⟨hC, fun r s' hop => h r s' hop⟩

/-! ## Running a program -/

def Prog.interp (handler : (op : Op) → σ → Ans op × σ) : Prog Op Ans α → σ → α × σ
  | .done a, s => (a, s)
  | .step op next, s => (next (handler op s).1).interp handler (handler op s).2

theorem exec_interp {handler : (op : Op) → σ → Ans op × σ}
    (h : ∀ op s, world op s (handler op s).1 (handler op s).2) (p : Prog Op Ans α) (s : σ) :
    Exec world p s (some (p.interp handler s).1) (p.interp handler s).2 := by
  induction p generalizing s with
  | done a => exact .done a s
  | step op next ih => exact .step (h op s) (ih _ _)

/-! ## Steps that may fail -/

/-- A program that ends with a value or an error; `?` is its sequencing. -/
abbrev Fallible (Op : Type) (Ans : Op → Type) (ε : Type) := ExceptT ε (Prog Op Ans)

/-- What has to hold after a step: the rest is safe, or the error is acceptable. -/
def After (world : World σ Op Ans) (C : σ → Prop) (Q : Except ε α → σ → Prop)
    (f : β → Fallible Op Ans ε α) : Except ε β → σ → Prop
  | .ok b, s => Safe world C Q (f b) s
  | .error e, s => Q (.error e) s

theorem Safe.bindE {Q : Except ε α → σ → Prop} {p : Fallible Op Ans ε β}
    {f : β → Fallible Op Ans ε α} {s : σ}
    (h : Safe world C (After world C Q f) p s) : Safe world C Q (p >>= f : Fallible Op Ans ε α) s := by
  refine Safe.bind (h.mono (fun _ h => h) fun r s hC hr => ?_)
  cases r with
  | ok b => exact hr
  | error e => exact ⟨hC, hr⟩

/-- The outcome of a program that may fail, as a value. -/
def attempt (p : Fallible Op Ans ε α) : Fallible Op Ans ε (Except ε α) :=
  ExceptT.mk (Prog.bind p fun r => .done (.ok r))

/-! ## Steps that only look -/

/-- From `s`, every run of `p` leaves the store as it is and returns a value in `R`. -/
def Looks (world : World σ Op Ans) (R : α → Prop) (p : Prog Op Ans α) (s : σ) : Prop :=
  ∀ C : σ → Prop, C s → Safe world C (fun a s' => s' = s ∧ R a) p s

theorem Looks.pure {a : α} {s : σ} (h : R a) :
    Looks world R (pure a : Prog Op Ans α) s := fun _ hC => ⟨hC, rfl, h⟩

theorem Looks.call {op : Op} {R : Ans op → Prop} {s : σ}
    (h : ∀ r s', world op s r s' → s' = s ∧ R r) : Looks world R (Prog.call op) s := by
  intro C hC
  refine Safe.call hC fun r s' hop => ?_
  obtain ⟨rfl, hr⟩ := h r s' hop
  exact ⟨hC, rfl, hr⟩

theorem Looks.mono {R' : α → Prop} {s : σ} (h : Looks world R p s)
    (hR : ∀ a, R a → R' a) : Looks world R' p s := fun C hC =>
  (h C hC).mono (fun _ h => h) fun a _ _ ha => ⟨ha.1, hR a ha.2⟩

theorem Looks.safe {R : β → Prop} {p : Prog Op Ans β} {s : σ}
    (h : Looks world R p s) (hC : C s) (hf : ∀ b, R b → Safe world C Q (f b) s) :
    Safe world C Q (p >>= f) s := by
  refine Safe.bind ((h C hC).mono (fun _ h => h) fun b s' _ hb => ?_)
  obtain ⟨rfl, hb⟩ := hb
  exact hf b hb

theorem Looks.safeE {R : Except ε β → Prop} {Q : Except ε α → σ → Prop} {p : Fallible Op Ans ε β}
    {f : β → Fallible Op Ans ε α} {s : σ} (h : Looks world R p s) (hC : C s)
    (hok : ∀ b, R (.ok b) → Safe world C Q (f b) s) (herror : ∀ e, R (.error e) → Q (.error e) s) :
    Safe world C Q (p >>= f : Fallible Op Ans ε α) s := by
  refine Looks.safe h hC fun r hr => ?_
  cases r with
  | ok b => exact hok b hr
  | error e => exact ⟨hC, herror e hr⟩

theorem Looks.bind {R : β → Prop} {R' : α → Prop} {p : Prog Op Ans β}
    {s : σ} (h : Looks world R p s) (hf : ∀ b, R b → Looks world R' (f b) s) :
    Looks world R' (p >>= f) s :=
  fun C hC => h.safe hC fun b hb => hf b hb C hC

theorem Looks.bindE {R : Except ε β → Prop} {R' : Except ε α → Prop} {p : Fallible Op Ans ε β}
    {f : β → Fallible Op Ans ε α} {s : σ} (h : Looks world R p s)
    (hok : ∀ b, R (.ok b) → Looks world R' (f b) s) (herror : ∀ e, R (.error e) → R' (.error e)) :
    Looks world R' (p >>= f : Fallible Op Ans ε α) s :=
  fun C hC => h.safeE hC (fun b hb => hok b hb C hC) fun e he => ⟨rfl, herror e he⟩

/-! ## Success -/

section Ends

variable {Q : α → σ → Prop} {s : σ}

/-- Every run of `p` keeps `C`, and one that succeeds ends in `Q`. -/
def Ends (world : World σ Op Ans) (C : σ → Prop) (Q : α → σ → Prop) (p : Fallible Op Ans ε α)
    (s : σ) : Prop :=
  Safe world C (fun r s' => ∀ a, r = .ok a → Q a s') p s

theorem Ends.pure {a : α} (hC : C s) (hQ : Q a s) :
    Ends world C Q (pure a : Fallible Op Ans ε α) s :=
  ⟨hC, fun _ h => Except.ok.inj h ▸ hQ⟩

theorem Ends.throw {e : ε} (hC : C s) : Ends world C Q (throw e : Fallible Op Ans ε α) s :=
  ⟨hC, fun _ h => nomatch h⟩

theorem Ends.bind {p : Fallible Op Ans ε β} {f : β → Fallible Op Ans ε α}
    (h : Ends world C (fun b s => Ends world C Q (f b) s) p s) :
    Ends world C Q (p >>= f : Fallible Op Ans ε α) s := by
  refine Safe.bindE (Safe.mono h (fun _ h => h) fun r s _ hr => ?_)
  cases r with
  | ok b => exact hr b rfl
  | error e => exact fun _ h => nomatch h

variable {p : Fallible Op Ans ε α}

theorem Ends.mono {Q' : α → σ → Prop} (h : Ends world C Q p s)
    (hQ : ∀ a s, C s → Q a s → Q' a s) : Ends world C Q' p s :=
  Safe.mono h (fun _ h => h) fun _ s hC hr a ha => hQ a s hC (hr a ha)

theorem Ends.andThen {P : β → σ → Prop} {p : Fallible Op Ans ε β} {f : β → Fallible Op Ans ε α}
    (h : Ends world C P p s) (hf : ∀ b s, C s → P b s → Ends world C Q (f b) s) :
    Ends world C Q (p >>= f : Fallible Op Ans ε α) s :=
  Ends.bind (h.mono hf)

theorem Ends.exec (h : Ends world C Q p s) {s' : σ} {a : α}
    (hrun : Exec world p s (some (.ok a)) s') : C s' ∧ Q a s' := by
  obtain ⟨hC, hQ⟩ := (safe_iff p s).1 h _ _ hrun
  exact ⟨hC, hQ _ rfl a rfl⟩

theorem Ends.keeps (h : Ends world C Q p s) {s' : σ}
    {out : Option (Except ε α)} (hrun : Exec world p s out s') : C s' :=
  ((safe_iff p s).1 h _ _ hrun).1

end Ends

/-! ## What a program can return

`Yields D p a`: with the answers `D` allows, `p` can return `a`.  No store is
involved, so this says where a value obtained from outside comes from. -/

section Yields

variable {D : (op : Op) → Ans op → Prop}

/-- The program may return `v` on answers allowed by `D`. -/
def Yields (D : (op : Op) → Ans op → Prop) : Prog Op Ans α → α → Prop
  | .done a, v => v = a
  | .step op next, v => ∃ r, D op r ∧ Yields D (next r) v

theorem yields_bind {p : Prog Op Ans β} {f : β → Prog Op Ans α} {v : α} :
    Yields D (p >>= f) v ↔ ∃ b, Yields D p b ∧ Yields D (f b) v := by
  induction p with
  | done b =>
    constructor
    · exact fun h => ⟨b, rfl, h⟩
    · rintro ⟨_, rfl, h⟩
      exact h
  | step op next ih =>
    constructor
    · rintro ⟨r, hr, h⟩
      obtain ⟨b, hb, hv⟩ := (ih r).1 h
      exact ⟨b, ⟨r, hr, hb⟩, hv⟩
    · rintro ⟨b, ⟨r, hr, hb⟩, hv⟩
      exact ⟨r, hr, (ih r).2 ⟨b, hb, hv⟩⟩

@[simp] theorem yields_bindE {p : Fallible Op Ans ε β} {f : β → Fallible Op Ans ε α} {v : α} :
    Yields D (p >>= f : Fallible Op Ans ε α) (.ok v) ↔
      ∃ b, Yields D p (.ok b) ∧ Yields D (f b) (.ok v) := by
  refine (yields_bind (p := p)).trans ⟨?_, ?_⟩
  · rintro ⟨r, hr, hv⟩
    cases r with
    | ok b => exact ⟨b, hr, hv⟩
    | error e => exact nomatch (show Except.ok v = Except.error e from hv)
  · rintro ⟨b, hb, hv⟩
    exact ⟨.ok b, hb, hv⟩

@[simp] theorem yields_pureE {a v : α} : Yields D (pure a : Fallible Op Ans ε α) (.ok v) ↔ v = a :=
  ⟨fun h => Except.ok.inj h, fun h => congrArg Except.ok h⟩

theorem yields_call {op : Op} {v : Ans op} : Yields D (Prog.call op) v ↔ D op v :=
  ⟨fun ⟨_, hr, h⟩ => h ▸ hr, fun h => ⟨v, h, rfl⟩⟩

theorem Yields.unique (hD : ∀ op r r', D op r → D op r' → r = r') {p : Prog Op Ans α} {v v' : α}
    (h : Yields D p v) (h' : Yields D p v') : v = v' := by
  induction p with
  | done a => exact h.trans h'.symm
  | step op next ih =>
    obtain ⟨r, hr, hv⟩ := h
    obtain ⟨r', hr', hv'⟩ := h'
    obtain rfl := hD op r r' hr hr'
    exact ih r hv hv'

end Yields

/-! ## A store and an outside

Operations of two kinds: those of an outside that answers as `D` allows and
those of a store. -/

section Both

variable {Op' : Type} {Ans' : Op' → Type}

/-- A program that talks to the outside only, as a part of one that has a store too. -/
def Prog.outside (Ans' : Op' → Type) : Prog Op Ans α → Prog (Op ⊕ Op') (Sum.rec Ans Ans') α
  | .done a => .done a
  | .step op next => .step (.inl op) fun r => (next r).outside Ans'

/-- The outside does not touch the store. -/
def World.both (D : (op : Op) → Ans op → Prop) (store : World σ Op' Ans') :
    World σ (Op ⊕ Op') (Sum.rec Ans Ans')
  | .inl op, s, r, s' => s' = s ∧ D op r
  | .inr op, s, r, s' => store op s r s'

variable {D : (op : Op) → Ans op → Prop} {store : World σ Op' Ans'}

theorem Ends.outside {Q : α → σ → Prop} {p : Fallible Op Ans ε α} {s : σ} (hC : C s)
    (h : ∀ a, Yields D p (.ok a) → Q a s) :
    Ends (World.both D store) C Q (Prog.outside Ans' p) s := by
  suffices hprog : ∀ (p : Prog Op Ans (Except ε α)) (s : σ), C s →
      (∀ a, Yields D p (.ok a) → Q a s) →
      Safe (World.both D store) C (fun r s' => ∀ a, r = .ok a → Q a s') (p.outside Ans') s from
    hprog p s hC h
  intro p
  induction p with
  | done r => exact fun s hC h => ⟨hC, fun a ha => h a ha.symm⟩
  | step op next ih =>
    intro s hC h
    refine ⟨hC, fun r s' hop => ?_⟩
    obtain ⟨rfl, hr⟩ := hop
    exact ih r _ hC fun a ha => h a ⟨r, hr, ha⟩

end Both

/-! ## A sequence of calls -/

/-- Calls one after another on one store, each of which returns or crashes; the
trace holds what each call gave and the store after it. -/
inductive Calls {ρ : Type} (world : World σ Op Ans) (prog : ρ → Prog Op Ans α) :
    σ → List (ρ × Option α × σ) → Prop
  | nil (s : σ) : Calls world prog s []
  | cons {s s' : σ} {call : ρ} {out : Option α} {rest : List (ρ × Option α × σ)}
      (h : Exec world (prog call) s out s') (hrest : Calls world prog s' rest) :
      Calls world prog s ((call, out, s') :: rest)

theorem Calls.safe {ρ : Type} {prog : ρ → Prog Op Ans α} {Q : ρ → α → σ → Prop}
    (hsafe : ∀ call s, C s → Safe world C (Q call) (prog call) s) {s : σ}
    {trace : List (ρ × Option α × σ)} (h : Calls world prog s trace) (hs : C s) :
    ∀ entry ∈ trace, C entry.2.2 ∧ ∀ a ∈ entry.2.1, Q entry.1 a entry.2.2 := by
  induction h with
  | nil => simp
  | cons hcall _ ih =>
    have hentry := (safe_iff _ _).1 (hsafe _ _ hs) _ _ hcall
    intro entry hmem
    rcases List.mem_cons.1 hmem with rfl | hmem
    · exact hentry
    · exact ih hentry.1 entry hmem

end Effect
