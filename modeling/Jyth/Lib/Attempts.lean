import Jyth.Lib.Effect

/-!
# Programs whose operations may fail

Every operation of a program either does what `handler` says, or fails without effect;
a failure ends the program with the error `fault` (`Attempt`).  `Guarded` says that every
outcome satisfies a condition.  It is computed along the program, with one obligation for
each operation that may fail:

    Guarded handler fault Q p s  ↔  every attempt of p from s ends in Q      (guarded_iff)
-/

namespace Effect

variable {Op : Type} {Ans : Op → Type} {σ ε α β : Type}

/-- A run in which any operation may fail, which ends the run. -/
inductive Attempt (handler : (op : Op) → σ → Ans op × σ) (fault : ε) :
    Fallible Op Ans ε α → σ → Except ε α → σ → Prop
  | done (r : Except ε α) (s : σ) : Attempt handler fault (Prog.done r) s r s
  | fault (op : Op) (next : Ans op → Fallible Op Ans ε α) (s : σ) :
      Attempt handler fault (Prog.step op next) s (.error fault) s
  | step {op : Op} {next : Ans op → Fallible Op Ans ε α} {s s' : σ} {r : Except ε α}
      (rest : Attempt handler fault (next (handler op s).1) (handler op s).2 r s') :
      Attempt handler fault (Prog.step op next) s r s'

/-- The postcondition holds wherever a fault ends the run. -/
def Guarded (handler : (op : Op) → σ → Ans op × σ) (fault : ε) (Q : Except ε α → σ → Prop) :
    Fallible Op Ans ε α → σ → Prop
  | Prog.done r, s => Q r s
  | Prog.step op next, s =>
    Q (.error fault) s ∧ Guarded handler fault Q (next (handler op s).1) (handler op s).2

variable {handler : (op : Op) → σ → Ans op × σ} {fault : ε} {Q : Except ε α → σ → Prop} {s : σ}

theorem guarded_iff (p : Fallible Op Ans ε α) (s : σ) :
    Guarded handler fault Q p s ↔ ∀ r s', Attempt handler fault p s r s' → Q r s' := by
  induction p generalizing s with
  | done r =>
    constructor
    · intro h r' s' hrun
      cases hrun
      exact h
    · intro h
      exact h _ _ (.done r s)
  | step op next ih =>
    constructor
    · rintro ⟨hfault, hrest⟩ r s' hrun
      cases hrun with
      | fault => exact hfault
      | step rest => exact (ih _ _).1 hrest _ _ rest
    · intro h
      refine ⟨h _ _ (.fault op next s), (ih _ _).2 ?_⟩
      intro r s' hrun
      exact h _ _ (.step hrun)

theorem attempt_interp (handler : (op : Op) → σ → Ans op × σ) (fault : ε) (p : Fallible Op Ans ε α)
    (s : σ) :
    Attempt handler fault p s (Prog.interp handler p s).1 (Prog.interp handler p s).2 := by
  induction p generalizing s with
  | done r => exact .done r s
  | step op next ih => exact .step (ih _ _)

/-- One operation. -/
def perform (op : Op) : Fallible Op Ans ε (Ans op) := ExceptT.mk (Prog.step op fun r => .done (.ok r))

theorem Guarded.then {op : Op} {f : Ans op → Fallible Op Ans ε α} (hfault : Q (.error fault) s)
    (h : Guarded handler fault Q (f (handler op s).1) (handler op s).2) :
    Guarded handler fault Q (Effect.perform op >>= f) s := ⟨hfault, h⟩

theorem Guarded.bind {p : Fallible Op Ans ε β} {f : β → Fallible Op Ans ε α}
    {P : Except ε β → σ → Prop} (hp : Guarded handler fault P p s)
    (herror : ∀ e s', P (.error e) s' → Q (.error e) s')
    (hok : ∀ b s', P (.ok b) s' → Guarded handler fault Q (f b) s') :
    Guarded handler fault Q (p >>= f) s := by
  induction p generalizing s with
  | done r =>
    cases r with
    | ok b => exact hok b s hp
    | error e => exact herror e s hp
  | step op next ih => exact ⟨herror _ _ hp.1, ih _ hp.2⟩

end Effect
