import Jyth.Lib.Format

/-!
# Fixed-width words and text inside formats

Little- and big-endian bytes of a natural number at a fixed width, machine
words through them (`Word`), fixed-size byte blocks (`Block`), and UTF-8 text.
Each field reader comes with its `Exact` lemma.

A field is also written as its length, a big-endian `u64`, and its bytes.  A buffer in
memory has fewer than `2 ^ 63` bytes (`Fits`), so that the length is written in full and
what follows a field can be told from it:

    prefixed a ++ r = prefixed b ++ s  →  a = b ∧ r = s        (prefixed_append_inj)
-/

namespace Format

open List

/-! ## Bytes of a number -/

def toLE : Nat → Nat → Bytes
  | 0, _ => []
  | k + 1, n => UInt8.ofNat n :: toLE k (n / 256)

def ofLE : Bytes → Nat
  | [] => 0
  | b :: bs => b.toNat + 256 * ofLE bs

def toBE (k n : Nat) : Bytes := (toLE k n).reverse

def ofBE (bs : Bytes) : Nat := ofLE bs.reverse

@[simp] theorem length_toLE (k n : Nat) : (toLE k n).length = k := by
  induction k generalizing n with
  | zero => rfl
  | succ k ih => simp [toLE, ih]

@[simp] theorem length_toBE (k n : Nat) : (toBE k n).length = k := by simp [toBE]

theorem ofLE_lt (bs : Bytes) : ofLE bs < 256 ^ bs.length := by
  induction bs with
  | nil => simp [ofLE]
  | cons b bs ih =>
    have hb := b.toNat_lt
    simp only [ofLE, length_cons, Nat.pow_succ]
    omega

theorem ofLE_toLE (k n : Nat) (h : n < 256 ^ k) : ofLE (toLE k n) = n := by
  induction k generalizing n with
  | zero => simp at h; simp [toLE, ofLE, h]
  | succ k ih =>
    have hq : n / 256 < 256 ^ k := by
      rw [Nat.div_lt_iff_lt_mul (by decide)]
      simpa [Nat.pow_succ] using h
    simp only [toLE, ofLE, ih _ hq, UInt8.toNat_ofNat']
    omega

theorem toLE_ofLE (bs : Bytes) : toLE bs.length (ofLE bs) = bs := by
  induction bs with
  | nil => rfl
  | cons b bs ih =>
    have hb := b.toNat_lt
    have hq : (b.toNat + 256 * ofLE bs) / 256 = ofLE bs := by omega
    have hr : UInt8.ofNat (b.toNat + 256 * ofLE bs) = b := by
      apply UInt8.toNat_inj.1
      rw [UInt8.toNat_ofNat']
      omega
    simp only [length_cons, toLE, ofLE, hq, hr, ih]

theorem ofBE_lt (bs : Bytes) : ofBE bs < 256 ^ bs.length := by
  have := ofLE_lt bs.reverse
  rwa [length_reverse] at this

theorem ofBE_toBE (k n : Nat) (h : n < 256 ^ k) : ofBE (toBE k n) = n := by
  rw [ofBE, toBE, reverse_reverse, ofLE_toLE k n h]

theorem toBE_ofBE (bs : Bytes) : toBE bs.length (ofBE bs) = bs := by
  have := toLE_ofLE bs.reverse
  rw [length_reverse] at this
  rw [toBE, ofBE, this, reverse_reverse]

/-! ## Hexadecimal text -/

def hexDigit (n : Nat) : UInt8 := if n < 10 then UInt8.ofNat (0x30 + n) else UInt8.ofNat (0x57 + n)

def hexValue (b : UInt8) : Option Nat :=
  if 0x30 ≤ b.toNat ∧ b.toNat ≤ 0x39 then some (b.toNat - 0x30)
  else if 0x61 ≤ b.toNat ∧ b.toNat ≤ 0x66 then some (b.toNat - 0x57)
  else if 0x41 ≤ b.toNat ∧ b.toNat ≤ 0x46 then some (b.toNat - 0x37)
  else none

/-- The `k` low hexadecimal digits of `n`, most significant first. -/
def toHex : Nat → Nat → Bytes
  | 0, _ => []
  | k + 1, n => toHex k (n / 16) ++ [hexDigit (n % 16)]

def ofHex? (bs : Bytes) : Option Nat :=
  bs.foldlM (fun acc b => (hexValue b).map (acc * 16 + ·)) 0

@[simp] theorem length_toHex (k n : Nat) : (toHex k n).length = k := by
  induction k generalizing n with
  | zero => rfl
  | succ k ih => simp [toHex, ih]

theorem hexValue_hexDigit : ∀ n < 16, hexValue (hexDigit n) = some n := by decide

theorem ofHex?_toHex (k n : Nat) (h : n < 16 ^ k) : ofHex? (toHex k n) = some n := by
  induction k generalizing n with
  | zero => simp at h; simp [toHex, ofHex?, h]
  | succ k ih =>
    have hq : n / 16 < 16 ^ k := by
      rw [Nat.div_lt_iff_lt_mul (by decide)]
      simpa [Nat.pow_succ] using h
    have hlast := hexValue_hexDigit (n % 16) (Nat.mod_lt _ (by decide))
    have hinit := ih _ hq
    unfold ofHex? at hinit
    rw [toHex, ofHex?, foldlM_append, hinit]
    show ((hexValue (hexDigit (n % 16))).map (n / 16 * 16 + ·) >>= fun acc => pure acc) = some n
    rw [hlast]
    show some (n / 16 * 16 + n % 16) = some n
    rw [Nat.div_add_mod']

def asciiLower (b : UInt8) : UInt8 := if 0x41 ≤ b ∧ b ≤ 0x5a then b + 0x20 else b

theorem hexDigit_of_hexValue {b : UInt8} {d : Nat} (h : hexValue b = some d) :
    d < 16 ∧ hexDigit d = asciiLower b := by
  have hall : ∀ n < 256, (hexValue (UInt8.ofNat n)).all
      (fun d => d < 16 ∧ hexDigit d = asciiLower (UInt8.ofNat n)) = true := by decide +kernel
  have hb := hall b.toNat b.toNat_lt
  rw [UInt8.ofNat_toNat, h] at hb
  simpa using hb

theorem ne_of_mem_toHex {k n : Nat} {b : UInt8} (h : b ∈ toHex k n) : b ≠ 0x2b := by
  induction k generalizing n with
  | zero => simp [toHex] at h
  | succ k ih =>
    rw [toHex, mem_append, mem_singleton] at h
    rcases h with h | rfl
    · exact ih h
    · have hdigit : ∀ d < 16, hexDigit d ≠ 0x2b := by decide
      exact hdigit _ (Nat.mod_lt _ (by decide))

/-! ## Machine words -/

/-- A machine word of `bytes` bytes. -/
class Word (w : Type) where
  bytes : Nat
  toNat : w → Nat
  ofNat : Nat → w
  toNat_lt : ∀ v, toNat v < 256 ^ bytes
  ofNat_toNat : ∀ v, ofNat (toNat v) = v
  toNat_ofNat : ∀ n, n < 256 ^ bytes → toNat (ofNat n) = n

instance : Word UInt16 where
  bytes := 2
  toNat := UInt16.toNat
  ofNat := UInt16.ofNat
  toNat_lt v := v.toNat_lt
  ofNat_toNat v := by simp
  toNat_ofNat n h := by simp only [UInt16.toNat_ofNat']; omega

instance : Word UInt32 where
  bytes := 4
  toNat := UInt32.toNat
  ofNat := UInt32.ofNat
  toNat_lt v := v.toNat_lt
  ofNat_toNat v := by simp
  toNat_ofNat n h := by simp only [UInt32.toNat_ofNat']; omega

instance : Word UInt64 where
  bytes := 8
  toNat := UInt64.toNat
  ofNat := UInt64.ofNat
  toNat_lt v := v.toNat_lt
  ofNat_toNat v := by simp
  toNat_ofNat n h := by simp only [UInt64.toNat_ofNat']; omega

instance : Word (BitVec 128) where
  bytes := 16
  toNat := BitVec.toNat
  ofNat := BitVec.ofNat 128
  toNat_lt v := v.isLt
  ofNat_toNat v := by simp
  toNat_ofNat n h := by simp only [BitVec.toNat_ofNat]; omega

section
variable {ε w : Type} [Word w]

def leBytes (v : w) : Bytes := toLE (Word.bytes w) (Word.toNat v)

def beBytes (v : w) : Bytes := toBE (Word.bytes w) (Word.toNat v)

/-- A little-endian word. -/
def takeLE (e : ε) : Reader ε w := do
  let bs ← takeN e (Word.bytes w)
  pure (Word.ofNat (ofLE bs))

/-- A big-endian word. -/
def takeBE (e : ε) : Reader ε w := do
  let bs ← takeN e (Word.bytes w)
  pure (Word.ofNat (ofBE bs))

@[simp] theorem length_leBytes (v : w) : (leBytes v).length = Word.bytes w := length_toLE _ _

@[simp] theorem length_beBytes (v : w) : (beBytes v).length = Word.bytes w := length_toBE _ _

theorem leBytes_injective : Function.Injective (leBytes : w → Bytes) := by
  intro v v' h
  have hnat : Word.toNat v = Word.toNat v' := by
    rw [← ofLE_toLE _ _ (Word.toNat_lt v), ← ofLE_toLE _ _ (Word.toNat_lt v')]
    exact congrArg ofLE h
  rw [← Word.ofNat_toNat v, hnat, Word.ofNat_toNat]

theorem flatMap_injective {α β : Type} {f : α → List β} {n : Nat} (hf : Function.Injective f)
    (hlength : ∀ x, (f x).length = n + 1) : Function.Injective (List.flatMap f) := by
  have hne : ∀ x xs, [] ≠ List.flatMap f (x :: xs) := fun x xs hnil => by
    have hzero := congrArg List.length hnil
    rw [flatMap_cons, length_nil, length_append, hlength] at hzero
    omega
  intro xs ys h
  induction xs generalizing ys with
  | nil =>
    cases ys with
    | nil => rfl
    | cons y ys => exact absurd h (hne y ys)
  | cons x xs ih =>
    cases ys with
    | nil => exact absurd h.symm (hne x xs)
    | cons y ys =>
      rw [flatMap_cons, flatMap_cons] at h
      obtain ⟨hx, hrest⟩ := append_inj h ((hlength x).trans (hlength y).symm)
      rw [hf hx, ih hrest]

theorem Exact.takeLE (e : ε) : Exact (takeLE e : Reader ε w) (fun v bs => bs = leBytes v) := by
  refine ((Exact.takeN e (Word.bytes w)).bind fun bs => Exact.pure _).congr fun v bs => ?_
  simp only [existsAndEq, and_assoc, true_and, and_true, append_nil]
  constructor
  · rintro ⟨hlen, rfl⟩
    rw [leBytes, Word.toNat_ofNat _ (hlen ▸ ofLE_lt bs), ← hlen, toLE_ofLE]
  · rintro rfl
    exact ⟨length_leBytes v, by rw [leBytes, ofLE_toLE _ _ (Word.toNat_lt v), Word.ofNat_toNat]⟩

theorem Exact.takeBE (e : ε) : Exact (takeBE e : Reader ε w) (fun v bs => bs = beBytes v) := by
  refine ((Exact.takeN e (Word.bytes w)).bind fun bs => Exact.pure _).congr fun v bs => ?_
  simp only [existsAndEq, and_assoc, true_and, and_true, append_nil]
  constructor
  · rintro ⟨hlen, rfl⟩
    rw [beBytes, Word.toNat_ofNat _ (hlen ▸ ofBE_lt bs), ← hlen, toBE_ofBE]
  · rintro rfl
    exact ⟨length_beBytes v, by rw [beBytes, ofBE_toBE _ _ (Word.toNat_lt v), Word.ofNat_toNat]⟩

end

/-! ## Fixed-size blocks -/

abbrev Block (n : Nat) := { bs : Bytes // bs.length = n }

instance {n : Nat} : Inhabited (Block n) := ⟨⟨List.replicate n 0, List.length_replicate⟩⟩

def takeBlock {ε : Type} (e : ε) (n : Nat) : Reader ε (Block n) := fun s =>
  if h : n ≤ s.length then .ok (⟨s.take n, by simp [h]⟩, s.drop n) else .error e

theorem Exact.takeBlock {ε : Type} (e : ε) (n : Nat) :
    Exact (takeBlock e n) (fun a bs => bs = a.1) := by
  intro s a t
  show (if h : n ≤ s.length then Except.ok ((⟨s.take n, by simp [h]⟩ : Block n), s.drop n)
    else Except.error e) = _ ↔ _
  constructor
  · intro h
    split at h
    · next hn =>
      simp only [Except.ok.injEq, Prod.mk.injEq] at h
      obtain ⟨rfl, rfl⟩ := h
      exact ⟨s.take n, rfl, (take_append_drop n s).symm⟩
    · cases h
  · rintro ⟨_, rfl, rfl⟩
    obtain ⟨bs, rfl⟩ := a
    simp

/-! ## Text -/

def utf8 (s : String) : Bytes := s.toByteArray.data.toList

/-- The string with these UTF-8 bytes, if they are valid. -/
def fromUtf8? (bs : Bytes) : Option String := String.fromUTF8? ⟨bs.toArray⟩

theorem fromUtf8?_eq_some (bs : Bytes) (s : String) : fromUtf8? bs = some s ↔ bs = utf8 s := by
  unfold fromUtf8? String.fromUTF8?
  constructor
  · intro h
    split at h
    · next hv =>
      simp only [Option.some.injEq] at h
      subst h
      rfl
    · cases h
  · rintro rfl
    have hs : (⟨(utf8 s).toArray⟩ : ByteArray) = s.toByteArray := rfl
    rw [hs, dif_pos s.isValidUTF8]
    rfl

theorem utf8_injective : Function.Injective utf8 := by
  intro s s' h
  have hs := (fromUtf8?_eq_some (utf8 s) s).2 rfl
  have hs' := (fromUtf8?_eq_some (utf8 s) s').2 h
  exact Option.some.inj (hs.symm.trans hs')

theorem digit_of_mem_decimal {n : Nat} {b : UInt8} (h : b ∈ utf8 (toString n)) :
    0x30 ≤ b ∧ b ≤ 0x39 := by
  have hbytes : utf8 (toString n) = (Nat.toDigits 10 n).flatMap String.utf8EncodeChar := by
    rw [Nat.toString_eq_repr, Nat.repr_eq_ofList_toDigits, utf8, String.toByteArray_ofList]
    simp [utf8Encode]
  rw [hbytes, mem_flatMap] at h
  obtain ⟨c, hc, hb⟩ := h
  have hdigit := Nat.isDigit_of_mem_toDigits (by decide) (by decide) hc
  simp only [Char.isDigit, Bool.and_eq_true, decide_eq_true_eq, UInt32.le_iff_toNat_le] at hdigit
  have hlow : 48 ≤ c.val.toNat := hdigit.1
  have hhigh : c.val.toNat ≤ 57 := hdigit.2
  have hsmall : c.val.toNat ≤ 127 := by omega
  simp only [String.utf8EncodeChar, if_pos hsmall, mem_singleton] at hb
  subst hb
  have hmod : c.val.toNat % 2 ^ 8 = c.val.toNat := Nat.mod_eq_of_lt (by omega)
  rw [UInt8.le_iff_toNat_le, UInt8.le_iff_toNat_le, UInt8.toNat_ofNat', hmod]
  exact ⟨hlow, hhigh⟩

theorem decimal_injective : Function.Injective fun n : Nat => utf8 (toString n) :=
  utf8_injective.comp fun _ _ h => Nat.repr_inj.1 h

/-! ## Length-prefixed fields -/

/-- No buffer in memory has more than `isize::MAX` bytes. -/
def Fits (bs : Bytes) : Prop := bs.length < 2 ^ 63

instance (bs : Bytes) : Decidable (Fits bs) := inferInstanceAs (Decidable (_ < _))

/-- Bytes held in memory. -/
abbrev Buffer := { bs : Bytes // Fits bs }

def prefixed (bs : Bytes) : Bytes := beBytes (UInt64.ofNat bs.length) ++ bs

section
variable {w : Type} [Word w]

theorem beBytes_injective : Function.Injective (beBytes : w → Bytes) := by
  intro v v' h
  exact leBytes_injective (List.reverse_injective h)

theorem beBytes_append_inj {v v' : w} {r s : Bytes} (h : beBytes v ++ r = beBytes v' ++ s) :
    v = v' ∧ r = s := by
  obtain ⟨hword, hrest⟩ := List.append_inj h (by rw [length_beBytes, length_beBytes])
  exact ⟨beBytes_injective hword, hrest⟩

end

theorem prefixed_append_inj {a b r s : Bytes} (ha : Fits a) (hb : Fits b)
    (h : prefixed a ++ r = prefixed b ++ s) : a = b ∧ r = s := by
  unfold prefixed at h
  rw [List.append_assoc, List.append_assoc] at h
  obtain ⟨hlen, h⟩ := beBytes_append_inj h
  have hlength : a.length = b.length := by
    have hnat := congrArg UInt64.toNat hlen
    rw [UInt64.toNat_ofNat', UInt64.toNat_ofNat'] at hnat
    unfold Fits at ha hb
    omega
  exact List.append_inj h hlength

theorem prefixed_inj {a b : Bytes} (ha : Fits a) (hb : Fits b) (h : prefixed a = prefixed b) :
    a = b :=
  (prefixed_append_inj (r := []) (s := []) ha hb (by rw [h])).1

end Format
