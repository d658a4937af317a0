import Mathlib

/-!
# Numbers for disjoint lots

A loop gives a number to each of a list of lots, counting up with saturation.
What the loop's state says of a lot (`Holds`) is settled when the lot gets its
number and is not touched by later lots without a common member, so at the end
the lot with index `i` holds the number `i` (`foldl_holds`).
-/

namespace Allot

/-! ## A saturating counter -/

def saturatingSucc (value : UInt32) : UInt32 :=
  if value = UInt32.ofNat (2 ^ 32 - 1) then value else value + 1

def numberAt (n : Nat) : UInt32 := UInt32.ofNat (n + 1)

theorem toNat_numberAt {n : Nat} (h : n < 2 ^ 32 - 1) : (numberAt n).toNat = n + 1 := by
  rw [numberAt, UInt32.toNat_ofNat']
  omega

theorem numberAt_inj {m n : Nat} (hm : m < 2 ^ 32 - 1) (hn : n < 2 ^ 32 - 1)
    (h : numberAt m = numberAt n) : m = n := by
  have htoNat := congrArg UInt32.toNat h
  rw [toNat_numberAt hm, toNat_numberAt hn] at htoNat
  omega

theorem saturatingSucc_numberAt {n : Nat} (h : n + 1 < 2 ^ 32 - 1) :
    saturatingSucc (numberAt n) = numberAt (n + 1) := by
  have htoNat := toNat_numberAt (show n < 2 ^ 32 - 1 by omega)
  have hne : numberAt n ≠ UInt32.ofNat (2 ^ 32 - 1) := by
    intro heq
    rw [heq, UInt32.toNat_ofNat'] at htoNat
    omega
  rw [saturatingSucc, if_neg hne]
  apply UInt32.toNat_inj.1
  have hone : (1 : UInt32).toNat = 1 := rfl
  rw [UInt32.toNat_add, htoNat, toNat_numberAt h, hone]
  omega

/-! ## The loop -/

/-- A loop body that gives the next number to a lot.  `At s n` says that `n`
numbers are given out in `s`. -/
structure Loop {σ lot : Type} (allot : σ → lot → σ) (At : σ → Nat → Prop)
    (Holds : lot → Nat → σ → Prop) (Apart : lot → lot → Prop) (bound : Nat) : Prop where
  next : ∀ {s n l}, At s n → n + 1 < bound → At (allot s l) (n + 1)
  gives : ∀ {s n l}, At s n → Holds l n (allot s l)
  keeps : ∀ {s m n l l'}, At s n → m < n → n < bound → Holds l m s → Apart l l' →
    Holds l m (allot s l')

variable {σ lot : Type} {allot : σ → lot → σ} {At : σ → Nat → Prop}
  {Holds : lot → Nat → σ → Prop} {Apart : lot → lot → Prop} {bound : Nat}

theorem Loop.foldl_keeps (loop : Loop allot At Holds Apart bound) {s : σ} {m n : Nat}
    (hs : At s n) (hm : m < n) {l : lot} (hl : Holds l m s) {lots : List lot}
    (hn : n + lots.length < bound) (hapart : ∀ l' ∈ lots, Apart l l') :
    Holds l m (lots.foldl allot s) := by
  induction lots generalizing s n with
  | nil => exact hl
  | cons first lots ih =>
    rw [List.length_cons] at hn
    exact ih (loop.next hs (by omega)) (by omega)
      (loop.keeps hs hm (by omega) hl (hapart first List.mem_cons_self)) (by omega)
      fun l' hmem => hapart l' (List.mem_cons_of_mem _ hmem)

theorem Loop.foldl_holds (loop : Loop allot At Holds Apart bound) {s : σ} {n : Nat} (hs : At s n)
    {lots : List lot} (hn : n + lots.length < bound) (hapart : lots.Pairwise Apart) {i : Nat}
    {l : lot} (hi : lots[i]? = some l) : Holds l (n + i) (lots.foldl allot s) := by
  induction lots generalizing s n i with
  | nil => simp at hi
  | cons first lots ih =>
    rw [List.length_cons] at hn
    obtain ⟨hfirst, hrest⟩ := List.pairwise_cons.1 hapart
    have hnext : At (allot s first) (n + 1) := loop.next hs (by omega)
    cases i with
    | zero =>
      obtain rfl : first = l := by simpa using hi
      exact loop.foldl_keeps hnext (by omega) (loop.gives hs) (by omega) hfirst
    | succ i =>
      have hlater := ih hnext (by omega) hrest (i := i) (by simpa using hi)
      rwa [Nat.add_assoc, Nat.add_comm 1 i] at hlater

end Allot
