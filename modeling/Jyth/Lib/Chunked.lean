import Jyth.Lib.Format

/-!
# Byte sources that answer in chunks

A source is the list of answers it will give: a non-empty chunk of data, or a
fault.  One `read` takes at most the bytes asked for from the first answer, so
every way of splitting a stream into reads is some source.  `readExact` fills
a buffer, asking again after a fault that `retry` accepts.

    Clean retry s → n ≤ s.bytes.length → readExact … n s yields s.bytes.take n
-/

namespace Format

open List

/-- What one read of a source gives. -/
inductive Answer (ε : Type)
  | data (b : UInt8) (bs : Bytes)
  | fault (e : ε)
deriving DecidableEq

abbrev Source (ε : Type) := List (Answer ε)

namespace Source

variable {ε : Type}

def ofBytes : Bytes → Source ε
  | [] => []
  | b :: bs => [.data b bs]

/-- The stream: all data, in order. -/
def bytes : Source ε → Bytes
  | [] => []
  | .data b bs :: s => b :: bs ++ bytes s
  | .fault _ :: s => bytes s

/-- One call with a buffer of `n` bytes; no bytes means the end of the stream. -/
def read (n : Nat) : Source ε → Except ε Bytes × Source ε
  | [] => (.ok [], [])
  | .fault e :: s => (.error e, s)
  | .data b bs :: s =>
    if (b :: bs).length ≤ n then (.ok (b :: bs), s)
    else (.ok ((b :: bs).take n), ofBytes ((b :: bs).drop n) ++ s)

/-- Reads until `n` bytes have come; `eof` when the stream ends before. -/
def readExact (retry : ε → Bool) (eof : ε) : Nat → Source ε → Except ε Bytes × Source ε
  | 0, s => (.ok [], s)
  | _ + 1, [] => (.error eof, [])
  | n + 1, .fault e :: s => if retry e then readExact retry eof (n + 1) s else (.error e, s)
  | n + 1, .data b bs :: s =>
    if (b :: bs).length ≤ n + 1 then
      let (r, s') := readExact retry eof (n + 1 - (b :: bs).length) s
      (r.map ((b :: bs) ++ ·), s')
    else (.ok ((b :: bs).take (n + 1)), ofBytes ((b :: bs).drop (n + 1)) ++ s)

/-- The reader retries every fault. -/
def Clean (retry : ε → Bool) (s : Source ε) : Prop := ∀ e, .fault e ∈ s → retry e = true

@[simp] theorem bytes_ofBytes (bs : Bytes) : bytes (ofBytes bs : Source ε) = bs := by
  cases bs <;> simp [ofBytes, bytes]

@[simp] theorem bytes_append (s t : Source ε) : bytes (s ++ t) = bytes s ++ bytes t := by
  induction s with
  | nil => rfl
  | cons a s ih => cases a <;> simp [bytes, ih]

theorem clean_ofBytes (retry : ε → Bool) (bs : Bytes) : Clean retry (ofBytes bs) := by
  cases bs <;> simp [Clean, ofBytes]

theorem Clean.tail {retry : ε → Bool} {a : Answer ε} {s : Source ε} (h : Clean retry (a :: s)) :
    Clean retry s := fun e he => h e (mem_cons_of_mem _ he)

theorem Clean.append {retry : ε → Bool} {s t : Source ε} (hs : Clean retry s)
    (ht : Clean retry t) : Clean retry (s ++ t) := by
  intro e he
  rcases mem_append.1 he with he | he
  · exact hs e he
  · exact ht e he

theorem read_of_clean (n : Nat) (hn : 0 < n) (s : Source ε) (hs : Clean (fun _ => false) s) :
    ∃ bs s', read n s = (.ok bs, s') ∧ s.bytes = bs ++ s'.bytes ∧ bs.length ≤ n ∧
      (bs = [] → s.bytes = []) ∧ Clean (fun _ => false) s' := by
  cases s with
  | nil => exact ⟨[], [], rfl, rfl, Nat.zero_le _, fun _ => rfl, hs⟩
  | cons a s =>
    cases a with
    | fault e => exact absurd (hs e mem_cons_self) Bool.false_ne_true
    | data b bs =>
      by_cases hle : (b :: bs).length ≤ n
      · exact ⟨b :: bs, s, if_pos hle, rfl, hle, by simp, hs.tail⟩
      · refine ⟨(b :: bs).take n, ofBytes ((b :: bs).drop n) ++ s, if_neg hle, ?_, ?_, ?_,
          (clean_ofBytes _ _).append hs.tail⟩
        · rw [bytes_append, bytes_ofBytes, ← append_assoc, take_append_drop]
          rfl
        · exact length_take_le _ _
        · intro hnil
          have := congrArg List.length hnil
          rw [length_take, length_nil] at this
          omega

/-- On a stream that is long enough, `readExact` takes its first `n` bytes and
leaves the rest, however the stream is cut. -/
theorem readExact_of_le (retry : ε → Bool) (eof : ε) (n : Nat) (s : Source ε)
    (hs : Clean retry s) (hn : n ≤ s.bytes.length) :
    ∃ s', readExact retry eof n s = (.ok (s.bytes.take n), s') ∧ s'.bytes = s.bytes.drop n ∧
      Clean retry s' := by
  induction s generalizing n with
  | nil =>
    obtain rfl : n = 0 := by simpa [bytes] using hn
    exact ⟨[], by simp [readExact], rfl, hs⟩
  | cons a s ih =>
    cases n with
    | zero => exact ⟨a :: s, by simp [readExact], rfl, hs⟩
    | succ n =>
      cases a with
      | fault e =>
        obtain ⟨s', hread, hrest, hclean⟩ := ih (n + 1) hs.tail hn
        exact ⟨s', by rw [readExact, if_pos (hs e mem_cons_self), hread]; rfl, hrest, hclean⟩
      | data b bs =>
        by_cases hle : (b :: bs).length ≤ n + 1
        · have hn' : n + 1 - (b :: bs).length ≤ (bytes s).length := by
            simp only [bytes, length_append] at hn
            omega
          obtain ⟨s', hread, hrest, hclean⟩ := ih _ hs.tail hn'
          refine ⟨s', ?_, ?_, hclean⟩
          · rw [readExact, if_pos hle, hread]
            simp only [bytes, Except.map]
            rw [take_append, take_of_length_le hle]
          · rw [hrest, bytes, drop_append, drop_of_length_le hle, nil_append]
        · have hlt : n + 1 ≤ (b :: bs).length := by omega
          refine ⟨ofBytes ((b :: bs).drop (n + 1)) ++ s, ?_, ?_, (clean_ofBytes _ _).append hs.tail⟩
          · rw [readExact, if_neg hle, bytes, take_append_of_le_length hlt]
          · rw [bytes_append, bytes_ofBytes, bytes, drop_append_of_le_length hlt]

theorem readExact_of_lt (retry : ε → Bool) (eof : ε) (n : Nat) (s : Source ε)
    (hs : Clean retry s) (hn : s.bytes.length < n) :
    readExact retry eof n s = (.error eof, []) := by
  induction s generalizing n with
  | nil =>
    cases n with
    | zero => simp at hn
    | succ n => rfl
  | cons a s ih =>
    cases n with
    | zero => simp at hn
    | succ n =>
      cases a with
      | fault e => rw [readExact, if_pos (hs e mem_cons_self), ih _ hs.tail hn]
      | data b bs =>
        have hlt : (b :: bs).length + (bytes s).length < n + 1 := by
          simpa only [bytes, length_append] using hn
        rw [readExact, if_pos (by omega), ih _ hs.tail (by omega)]
        rfl

end Source

end Format
