import Mathlib

/-!
# Exact binary formats

A reader consumes a prefix of a byte string.  A format says which byte strings
stand for which values (`F a bs`).  `Exact p F` ties the two: `p` succeeds with
`a`, leaving `t`, precisely on the inputs `bs ++ t` with `F a bs`.  Both
directions of a codec follow from it at once,

    Exact p (fun a bs => ok a ∧ bs = enc a) →
      (ok a → p (enc a ++ t) = .ok (a, t)) ∧ (p s = .ok (a, t) → s = enc a ++ t)

and it is closed under the ways readers are built: sequencing (`Exact.bind`),
checks (`Exact.reject`), counted repetition (`Exact.times`).

Which errors a fallible program can end with (`Fails`) follows the way it is put together.
-/

namespace Format

open List

abbrev Bytes := List UInt8

instance : LawfulBEq Bytes := inferInstance

/-- A byte-string reader: the value read and the bytes left, or an error. -/
abbrev Reader (ε : Type) := StateT Bytes (Except ε)

/-- `p` accepts exactly the strings of format `F`, whatever follows them. -/
def Exact {ε α : Type} (p : Reader ε α) (F : α → Bytes → Prop) : Prop :=
  ∀ (s : Bytes) (a : α) (t : Bytes), p.run s = .ok (a, t) ↔ ∃ bs, F a bs ∧ s = bs ++ t

/-! ## Fallible steps -/

section
variable {ε α β : Type}

def failIf (c : Prop) [Decidable c] (e : ε) : Except ε Unit := if c then .error e else .ok ()

theorem failIf_eq_ok {c : Prop} [Decidable c] {e : ε} {u : Unit} : failIf c e = .ok u ↔ ¬c := by
  by_cases h : c <;> simp [failIf, h]

variable {b : β} {f : α → Except ε β} {γ : Type}

theorem bind_eq_ok {x : Except ε α} : (x >>= f) = .ok b ↔ ∃ a, x = .ok a ∧ f a = .ok b := by
  cases x <;> simp [Bind.bind, Except.bind]

theorem mapError_eq_ok {ε' : Type} {x : Except ε α} {g : ε → ε'} {a : α} :
    x.mapError g = .ok a ↔ x = .ok a := by
  cases x <;> simp [Except.mapError]

theorem check_bind_eq_ok {x : Except ε Unit} {f : Unit → Except ε β} :
    (x >>= f) = .ok b ↔ x = .ok () ∧ f () = .ok b := by
  rw [bind_eq_ok]
  constructor
  · rintro ⟨⟨⟩, hx, hf⟩; exact ⟨hx, hf⟩
  · rintro ⟨hx, hf⟩; exact ⟨(), hx, hf⟩

theorem pure_eq_ok {a b : α} : (pure a : Except ε α) = .ok b ↔ a = b := by
  simp [Pure.pure, Except.pure]

theorem forM_eq_ok (f : α → Except ε Unit) (as : List α) :
    as.forM f = .ok () ↔ ∀ a ∈ as, f a = .ok () := by
  induction as with
  | nil => simp [pure_eq_ok]
  | cons a as ih =>
    show (f a >>= fun _ => as.forM f) = .ok () ↔ _
    rw [check_bind_eq_ok, ih, forall_mem_cons]

variable {bs : List β} {R : α → β → Prop} {as : List α}

variable (h : List.Forall₂ R as bs)
include h

theorem exists_left_of_forall₂ (hb : b ∈ bs) : ∃ a ∈ as, R a b := by
  obtain ⟨i, hi, rfl⟩ := getElem_of_mem hb
  have hlt : i < as.length := by rwa [h.length_eq]
  exact ⟨as[i], getElem_mem hlt, h.get hlt hi⟩

theorem exists_right_of_forall₂ {a : α} (ha : a ∈ as) : ∃ b ∈ bs, R a b :=
  exists_left_of_forall₂ h.flip ha

omit h

theorem mapM_eq_ok {as : List α} {bs : List β} :
    as.mapM f = .ok bs ↔ List.Forall₂ (fun a b => f a = .ok b) as bs := by
  induction as generalizing bs with
  | nil =>
    rw [mapM_nil, pure_eq_ok, forall₂_nil_left_iff, eq_comm]
  | cons a as ih =>
    rw [mapM_cons, bind_eq_ok, forall₂_cons_left_iff]
    constructor
    · rintro ⟨b, hb, h⟩
      obtain ⟨bs', hbs, h⟩ := bind_eq_ok.1 h
      exact ⟨b, bs', hb, ih.1 hbs, (pure_eq_ok.1 h).symm⟩
    · rintro ⟨b, bs', hb, hbs, rfl⟩
      exact ⟨b, hb, bind_eq_ok.2 ⟨bs', ih.2 hbs, rfl⟩⟩

theorem sieve_eq_ok {f : List α → Except ε (List α)} (refused dropped : α → Prop)
    [DecidablePred refused] [DecidablePred dropped] (hnil : f [] = .ok [])
    (hrefused : ∀ a as, refused a → ∀ bs, f (a :: as) ≠ .ok bs)
    (hdropped : ∀ a as, ¬ refused a → dropped a → f (a :: as) = f as)
    (hkept : ∀ a as, ¬ refused a → ¬ dropped a → f (a :: as) = f as >>= fun bs => pure (a :: bs))
    (as bs : List α) :
    f as = .ok bs ↔ (∀ a ∈ as, ¬ refused a) ∧ bs = as.filter fun a => ¬ dropped a := by
  induction as generalizing bs with
  | nil => simp [hnil, eq_comm]
  | cons a as ih =>
    rw [forall_mem_cons]
    by_cases ha : refused a
    · exact iff_of_false (hrefused a as ha bs) fun h => h.1.1 ha
    by_cases hd : dropped a
    · rw [hdropped a as ha hd, ih]
      simp [ha, hd]
    · rw [hkept a as ha hd, bind_eq_ok]
      simp only [ih, pure_eq_ok]
      constructor
      · rintro ⟨bs', ⟨hall, rfl⟩, rfl⟩
        exact ⟨⟨ha, hall⟩, by simp [hd]⟩
      · rintro ⟨⟨-, hall⟩, rfl⟩
        exact ⟨_, ⟨hall, rfl⟩, by simp [hd]⟩

/-- A loop that computes an item and consumes it succeeds when all items can be
computed and then be consumed in order. -/
theorem foldlM_bind_eq_ok (f : α → Except ε β) (g : γ → β → Except ε γ) (as : List α)
    (c d : γ) : as.foldlM (fun c a => f a >>= g c) c = .ok d ↔
      ∃ bs, List.Forall₂ (fun a b => f a = .ok b) as bs ∧ bs.foldlM g c = .ok d := by
  induction as generalizing c with
  | nil => simp
  | cons a as ih =>
    simp only [foldlM_cons, bind_eq_ok, ih]
    constructor
    · rintro ⟨c', ⟨b, hb, hc'⟩, bs, hbs, hd⟩
      exact ⟨b :: bs, .cons hb hbs, by rw [foldlM_cons, bind_eq_ok]; exact ⟨c', hc', hd⟩⟩
    · rintro ⟨_, hall, hd⟩
      obtain ⟨b, bs, hb, hbs, rfl⟩ := forall₂_cons_left_iff.1 hall
      rw [foldlM_cons, bind_eq_ok] at hd
      obtain ⟨c', hc', hd⟩ := hd
      exact ⟨c', ⟨b, hb, hc'⟩, bs, hbs, hd⟩

end

/-! ## Building readers -/

section
variable {ε α β : Type}

def takeN (e : ε) (n : Nat) : Reader ε Bytes := fun s =>
  if n ≤ s.length then .ok (s.take n, s.drop n) else .error e

def takeByte (e : ε) : Reader ε UInt8
  | [] => .error e
  | b :: s => .ok (b, s)

/-- An optional value, `e` when there is none. -/
def orThrow (e : ε) : Option α → Reader ε α
  | some a => pure a
  | none => throw e

def times (p : Reader ε α) : Nat → Reader ε (List α)
  | 0 => pure []
  | n + 1 => do
    let a ← p
    let as ← times p n
    pure (a :: as)

def presence (e : ε) (bad : UInt8 → ε) (p : Reader ε α) : Reader ε (Option α) := do
  let flag ← takeByte e
  if flag = 0 then pure none
  else if flag = 1 then do
    let a ← p
    pure (some a)
  else throw (bad flag)

def presenceBytes (enc : α → Bytes) : Option α → Bytes
  | none => [0]
  | some a => 1 :: enc a

def runAll (e : ε) (p : Reader ε α) (bytes : Bytes) : Except ε α := do
  let (a, rest) ← p.run bytes
  if rest ≠ [] then throw e
  return a

theorem run_bind_ok {p : Reader ε α} {f : α → Reader ε β} {s : Bytes} {b : β} {t : Bytes} :
    (p >>= f).run s = .ok (b, t) ↔ ∃ a s', p.run s = .ok (a, s') ∧ (f a).run s' = .ok (b, t) := by
  rw [StateT.run_bind]
  cases h : p.run s with
  | error e => simp [Bind.bind, Except.bind]
  | ok r => obtain ⟨a, s'⟩ := r; simp [Bind.bind, Except.bind]

namespace Exact

variable {p : Reader ε α} {F : α → Bytes → Prop}

theorem congr {G : α → Bytes → Prop} (h : Exact p F)
    (hFG : ∀ a bs, F a bs ↔ G a bs) : Exact p G := by
  intro s a t
  rw [h s a t]
  simp only [hFG]

theorem pure (a : α) : Exact (pure a : Reader ε α) (fun b bs => b = a ∧ bs = []) := by
  intro s b t
  simp only [StateT.run_pure]
  constructor
  · intro h
    cases h
    exact ⟨[], ⟨rfl, rfl⟩, rfl⟩
  · rintro ⟨bs, ⟨rfl, rfl⟩, rfl⟩
    rfl

theorem throw (e : ε) : Exact (throw e : Reader ε α) (fun _ _ => False) := by
  intro s b t
  constructor
  · intro h; cases h
  · rintro ⟨_, h, _⟩; exact h.elim

theorem bind {f : α → Reader ε β}
    {G : α → β → Bytes → Prop} (hp : Exact p F) (hf : ∀ a, Exact (f a) (G a)) :
    Exact (p >>= f) (fun b bs => ∃ a bs₁ bs₂, F a bs₁ ∧ G a b bs₂ ∧ bs = bs₁ ++ bs₂) := by
  intro s b t
  rw [run_bind_ok]
  constructor
  · rintro ⟨a, s', h1, h2⟩
    obtain ⟨bs₁, hF, rfl⟩ := (hp _ _ _).1 h1
    obtain ⟨bs₂, hG, rfl⟩ := (hf a _ _ _).1 h2
    exact ⟨bs₁ ++ bs₂, ⟨a, bs₁, bs₂, hF, hG, rfl⟩, by rw [append_assoc]⟩
  · rintro ⟨_, ⟨a, bs₁, bs₂, hF, hG, rfl⟩, rfl⟩
    exact ⟨a, bs₂ ++ t, (hp _ _ _).2 ⟨bs₁, hF, by rw [append_assoc]⟩, (hf a _ _ _).2 ⟨bs₂, hG, rfl⟩⟩

theorem reject {c : Prop} [Decidable c] (e : ε) (hp : ¬c → Exact p F) :
    Exact (if c then MonadExcept.throw e else p) (fun a bs => ¬c ∧ F a bs) := by
  by_cases h : c
  · simp only [h, if_true, not_true, false_and]
    exact Exact.throw e
  · simp only [h, if_false, not_false_eq_true, true_and]
    exact hp h

theorem orThrow (e : ε) (o : Option α) :
    Exact (orThrow e o) (fun a bs => o = some a ∧ bs = []) := by
  cases o with
  | none => exact (Exact.throw e).congr (by simp)
  | some a => exact (Exact.pure a).congr (by simp [eq_comm])

theorem lift (x : Except ε α) : Exact (liftM x : Reader ε α) (fun a bs => x = .ok a ∧ bs = []) := by
  intro s a t
  cases x with
  | error e =>
    constructor
    · intro h; cases h
    · rintro ⟨_, ⟨h, _⟩, _⟩; cases h
  | ok b =>
    show Except.ok (b, s) = _ ↔ _
    constructor
    · intro h
      cases h
      exact ⟨[], ⟨rfl, rfl⟩, rfl⟩
    · rintro ⟨_, ⟨h, rfl⟩, rfl⟩
      cases h
      rfl

theorem takeN (e : ε) (n : Nat) : Exact (takeN e n) (fun a bs => a = bs ∧ bs.length = n) := by
  intro s a t
  show (if n ≤ s.length then Except.ok (s.take n, s.drop n) else Except.error e) = _ ↔ _
  constructor
  · intro h
    split at h
    · next hn =>
      simp only [Except.ok.injEq, Prod.mk.injEq] at h
      obtain ⟨rfl, rfl⟩ := h
      exact ⟨s.take n, ⟨rfl, by simp [hn]⟩, (take_append_drop n s).symm⟩
    · cases h
  · rintro ⟨bs, ⟨rfl, rfl⟩, rfl⟩
    simp

theorem takeByte (e : ε) : Exact (takeByte e) (fun a bs => bs = [a]) := by
  intro s a t
  cases s with
  | nil =>
    constructor
    · intro h; cases h
    · rintro ⟨bs, rfl, h⟩; cases h
  | cons b s =>
    show Except.ok (b, s) = _ ↔ _
    constructor
    · intro h
      cases h
      exact ⟨[a], rfl, rfl⟩
    · rintro ⟨bs, rfl, h⟩
      cases h
      rfl

variable {enc : α → Bytes} {ok : α → Prop}

theorem times (hp : Exact p (fun a bs => ok a ∧ bs = enc a)) (n : Nat) :
    Exact (times p n) (fun l bs => l.length = n ∧ (∀ a ∈ l, ok a) ∧ bs = l.flatMap enc) := by
  induction n with
  | zero =>
    refine (Exact.pure []).congr fun l bs => ?_
    constructor
    · rintro ⟨rfl, rfl⟩; simp
    · rintro ⟨h, -, rfl⟩
      rw [length_eq_zero_iff] at h
      simp [h]
  | succ n ih =>
    refine (hp.bind fun a => ih.bind fun as => Exact.pure (a :: as)).congr fun l bs => ?_
    simp only [existsAndEq, and_assoc, true_and, append_nil]
    constructor
    · rintro ⟨a, as, hok, hlen, hall, rfl, rfl⟩
      exact ⟨by rw [length_cons, hlen], forall_mem_cons.2 ⟨hok, hall⟩, rfl⟩
    · rintro ⟨hlen, hall, rfl⟩
      cases l with
      | nil => cases hlen
      | cons a as =>
        obtain ⟨hok, hall⟩ := forall_mem_cons.1 hall
        exact ⟨a, as, hok, Nat.succ.inj hlen, hall, rfl, rfl⟩

theorem presence (e : ε) (bad : UInt8 → ε) (hp : Exact p (fun a bs => ok a ∧ bs = enc a)) :
    Exact (presence e bad p) (fun o bs => (∀ a ∈ o, ok a) ∧ bs = presenceBytes enc o) := by
  have hsome := hp.bind fun a => Exact.pure (ε := ε) (some a)
  intro s o t
  unfold Format.presence
  rw [run_bind_ok]
  constructor
  · rintro ⟨flag, s', hflag, h⟩
    obtain ⟨_, rfl, rfl⟩ := (Exact.takeByte _ _ _ _).1 hflag
    split at h
    · next h0 =>
      cases h
      exact ⟨[0], ⟨by simp, rfl⟩, by rw [h0]⟩
    · split at h
      · next h1 =>
        obtain ⟨_, ⟨a, _, _, ⟨hok, rfl⟩, ⟨rfl, rfl⟩, rfl⟩, rfl⟩ := (hsome _ _ _).1 h
        exact ⟨_, ⟨by simpa using hok, rfl⟩, by simp [presenceBytes, h1]⟩
      · cases h
  · rintro ⟨_, ⟨hok, rfl⟩, rfl⟩
    cases o with
    | none => exact ⟨0, t, rfl, rfl⟩
    | some a =>
      exact ⟨1, _, rfl, (hsome _ _ _).2
        ⟨enc a, ⟨a, enc a, [], ⟨hok a rfl, rfl⟩, ⟨rfl, rfl⟩, by simp⟩, rfl⟩⟩

theorem runAll_eq_ok (hp : Exact p F) (e : ε)
    (bytes : Bytes) (a : α) : runAll e p bytes = .ok a ↔ F a bytes := by
  have hexact := hp bytes a []
  unfold runAll
  cases h : p.run bytes with
  | error e' =>
    rw [h] at hexact
    constructor
    · intro h'; cases h'
    · intro hF
      have := hexact.2 ⟨bytes, hF, by simp⟩
      cases this
  | ok r =>
    obtain ⟨a', rest⟩ := r
    rw [h] at hexact
    show (if rest ≠ [] then MonadExcept.throw e else Pure.pure a') = _ ↔ _
    constructor
    · intro h'
      split at h'
      · cases h'
      · next hrest =>
        cases h'
        obtain ⟨bs, hF, hbs⟩ := hexact.1 (by rw [not_not.1 hrest])
        rw [append_nil] at hbs
        exact hbs ▸ hF
    · intro hF
      have := hexact.2 ⟨bytes, hF, by simp⟩
      cases this
      rfl

theorem reads (hp : Exact p F) {a : α} {bs : Bytes}
    (h : F a bs) (t : Bytes) : p.run (bs ++ t) = .ok (a, t) :=
  (hp _ _ _).2 ⟨bs, h, rfl⟩

end Exact

/-- `p` reads `a` off the string `bs`, whatever follows it.  For readers that
accept more than one string for a value, where `Exact` says too much. -/
def Reads (p : Reader ε α) (a : α) (bs : Bytes) : Prop := ∀ t, p.run (bs ++ t) = .ok (a, t)

theorem Reads.pure (a : α) : Reads (pure a : Reader ε α) a [] := fun _ => rfl

variable {p : Reader ε α} {bs : Bytes} {a : α}

variable {f : α → Reader ε β} {c : Prop}

theorem Reads.bind {b : β} {bs₁ bs₂ : Bytes}
    (hp : Reads p a bs₁) (hf : Reads (f a) b bs₂) (h : bs = bs₁ ++ bs₂) : Reads (p >>= f) b bs := by
  intro t
  rw [run_bind_ok, h]
  exact ⟨a, bs₂ ++ t, by rw [append_assoc, hp], hf t⟩

theorem Reads.orThrow (e : ε) {o : Option α} (h : o = some a) :
    Reads (orThrow e o) a [] := (Exact.orThrow e o).reads ⟨h, rfl⟩

theorem Reads.skip [Decidable c] (e : ε)
    (hc : ¬c) (hp : Reads p a bs) : Reads (if c then throw e else p) a bs := by
  rw [if_neg hc]
  exact hp

theorem Reads.takeN (e : ε) {n : Nat} (h : bs.length = n) :
    Reads (takeN e n) bs bs := (Exact.takeN e n).reads ⟨rfl, h⟩

/-- What `p` reads depends on the bytes it takes alone: on any continuation of
them it reads the same value. -/
def Framed (p : Reader ε α) : Prop :=
  ∀ s a t, p.run s = .ok (a, t) → ∃ bs, s = bs ++ t ∧ Reads p a bs

theorem Exact.framed {F : α → Bytes → Prop} (hp : Exact p F) : Framed p := by
  intro s a t h
  obtain ⟨bs, hF, rfl⟩ := (hp s a t).1 h
  exact ⟨bs, rfl, hp.reads hF⟩

theorem Framed.bind (hp : Framed p) (hf : ∀ a, Framed (f a)) : Framed (p >>= f) := by
  intro s b t h
  obtain ⟨a, s', h1, h2⟩ := run_bind_ok.1 h
  obtain ⟨bs₁, rfl, hreads₁⟩ := hp _ _ _ h1
  obtain ⟨bs₂, rfl, hreads₂⟩ := hf a _ _ _ h2
  exact ⟨bs₁ ++ bs₂, by rw [append_assoc], hreads₁.bind hreads₂ rfl⟩

theorem Framed.reject [Decidable c] (e : ε) (hp : Framed p) :
    Framed (if c then throw e else p) := by
  by_cases h : c
  · rw [if_pos h]
    exact (Exact.throw e).framed
  · rw [if_neg h]
    exact hp

end

/-! ## Which errors can come -/

/-- An error of `x` satisfies `E`. -/
def Fails {ε α : Type} (E : ε → Prop) (x : Except ε α) : Prop := ∀ err, x = .error err → E err

namespace Fails

variable {ε α β γ : Type} {E : ε → Prop}

theorem ok (a : α) : Fails E (.ok a : Except ε α) := by
  rintro _ ⟨⟩

theorem pure (a : α) : Fails E (pure a : Except ε α) := ok a

variable {f : α → Except ε β} {x : Except ε α} {err : ε}

theorem error (h : E err) : Fails E (.error err : Except ε α) := by
  rintro _ ⟨⟩
  exact h

theorem failIf {c : Prop} [Decidable c] (h : E err) : Fails E (Format.failIf c err) := by
  unfold Format.failIf
  split
  · exact error h
  · exact ok ()

theorem bind (hx : Fails E x) (hf : ∀ a, Fails E (f a)) : Fails E (x >>= f) := by
  cases x with
  | error err => exact error (hx err rfl)
  | ok a => exact hf a

theorem map (f : α → β) (hx : Fails E x) : Fails E (f <$> x) := by
  cases x with
  | error err => exact error (hx err rfl)
  | ok a => exact ok (f a)

theorem mapM (h : ∀ a, Fails E (f a)) (as : List α) : Fails E (as.mapM f) := by
  induction as with
  | nil =>
    rw [List.mapM_nil]
    exact pure []
  | cons a as ih =>
    rw [List.mapM_cons]
    exact (h a).bind fun b => ih.bind fun bs => pure (b :: bs)

theorem foldlM {f : γ → α → Except ε γ} (h : ∀ c a, Fails E (f c a)) (c : γ) (as : List α) :
    Fails E (as.foldlM f c) := by
  induction as generalizing c with
  | nil =>
    rw [List.foldlM_nil]
    exact pure c
  | cons a as ih =>
    rw [List.foldlM_cons]
    exact (h c a).bind ih

end Fails

end Format
