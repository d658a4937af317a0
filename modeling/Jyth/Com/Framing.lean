import Jyth.Lib.Chunked
import Jyth.Lib.Words

/-!
# The shared frame codec of the TCP adapters

`com/src/framing.rs`: a frame is a little-endian `u32` length and that many
payload bytes.  The codec is generic in the byte-level I/O, whose state it
passes on also when a call fails.  `pipe` is the I/O of the two adapters: an
incoming byte source, cut into reads in any way, and the bytes written so far.

`drain_of_clean` describes every run of the reader over every such source whose faults the
adapter does not see.
-/

namespace Jyth.Com

open Format List

inductive TransportError
  | connect | serialize | deserialize | writeFrame | readFrame | frameTooLarge | frameAllocation
  | frameTruncated | authenticationFailed | timedOut | streamConversion
  | bindExpectedProcessBound
deriving DecidableEq

/-- The kinds of `std::io::Error` the codec tells apart. -/
inductive ErrorKind
  | unexpectedEof | timedOut | wouldBlock | interrupted | other
deriving DecidableEq

/-- `Report<TransportError>`: the context, the I/O error under it, the attachment. -/
structure Report where
  context : TransportError
  cause : Option ErrorKind
  attachment : Option String
deriving DecidableEq

def maxCommandFrame : Nat := 16 * 1024 * 1024

/-! ## Length checks -/

def frameTooLarge (length maximum : Nat) : Report :=
  ⟨.frameTooLarge, none, some s!"declared frame length {length} exceeds maximum {maximum}"⟩

def frameAllocation (length : Nat) : Report :=
  ⟨.frameAllocation, none, some s!"could not reserve {length} frame bytes"⟩

def validateFrameLimit (maximum : Nat) : Except Report Unit :=
  failIf (maxCommandFrame < maximum) ⟨.frameTooLarge, none,
    some s!"requested frame limit {maximum} exceeds library maximum {maxCommandFrame}"⟩

def checkedFrameLen (length maximum : Nat) : Except Report UInt32 := do
  validateFrameLimit maximum
  failIf (maximum < length) (frameTooLarge length maximum)
  if length < 2 ^ 32 then return UInt32.ofNat length
  else throw (frameTooLarge length (2 ^ 32 - 1))

/-! ## Byte-level I/O -/

/-- A call on an adapter in state `σ`; a failing call leaves a state too. -/
abbrev Call (σ : Type) := EStateM Report σ

/-- `SyncFrameIo` and `AsyncFrameIo`. -/
structure FrameIo (σ : Type) where
  readFrameBytes : Nat → Call σ Bytes
  writeFrameBytes : Bytes → Call σ Unit
  flushFrame : Call σ Unit

section
variable {σ : Type}

def orFail {α : Type} : Except Report α → Call σ α
  | .ok a => pure a
  | .error e => throw e

def writeFrameLimited (io : FrameIo σ) (data : Bytes) (maximum : Nat) : Call σ Unit := do
  let len ← orFail (checkedFrameLen data.length maximum)
  io.writeFrameBytes (leBytes len)
  io.writeFrameBytes data
  io.flushFrame

def readFrameWithLimit (io : FrameIo σ) (reserve : Nat → Bool) (maximum : Nat) :
    Call σ Bytes := do
  orFail (validateFrameLimit maximum)
  let lenBuf ← io.readFrameBytes 4
  let len := ofLE lenBuf
  orFail (failIf (maximum < len) (frameTooLarge len maximum))
  orFail (failIf (reserve len = false) (frameAllocation len))
  io.readFrameBytes len

end

/-! ## The adapters -/

/-- The blocking and the asynchronous reader. -/
inductive Adapter
  | sync | async
deriving DecidableEq

def mapSyncReadError : ErrorKind → Report
  | .unexpectedEof => ⟨.frameTruncated, none, none⟩
  | .timedOut => ⟨.timedOut, some .timedOut, none⟩
  | .wouldBlock => ⟨.timedOut, some .wouldBlock, none⟩
  | kind => ⟨.readFrame, some kind, none⟩

def mapAsyncReadError : ErrorKind → Report
  | .unexpectedEof => ⟨.frameTruncated, none, none⟩
  | .timedOut => ⟨.timedOut, some .timedOut, none⟩
  | kind => ⟨.readFrame, some kind, none⟩

def Adapter.mapReadError : Adapter → ErrorKind → Report
  | .sync => mapSyncReadError
  | .async => mapAsyncReadError

/-- A connection: what the peer will send, and what has been written. -/
structure Pipe where
  incoming : Source ErrorKind
  outgoing : Bytes

/-- The `read_exact` of `std` asks again after an interrupted read, Tokio's does not. -/
def Adapter.retried : Adapter → ErrorKind → Bool
  | .sync, kind => kind = .interrupted
  | .async, _ => false

def pipe (a : Adapter) : FrameIo Pipe where
  readFrameBytes n := fun p =>
    match p.incoming.readExact a.retried .unexpectedEof n with
    | (.ok bs, incoming) => .ok bs { p with incoming }
    | (.error kind, incoming) => .error (a.mapReadError kind) { p with incoming }
  writeFrameBytes data := fun p => .ok () { p with outgoing := p.outgoing ++ data }
  flushFrame := fun p => .ok () p

/-! ## Frames of a byte stream -/

def frameBytes (payload : Bytes) : Bytes := leBytes (UInt32.ofNat payload.length) ++ payload

/-- What stands at the front of a stream. -/
inductive Front
  | frame (payload rest : Bytes)
  | tooLarge (length : Nat) (rest : Bytes)
  | truncated

def front (maximum : Nat) (stream : Bytes) : Front :=
  if stream.length < 4 then .truncated
  else if maximum < ofLE (stream.take 4) then .tooLarge (ofLE (stream.take 4)) (stream.drop 4)
  else if (stream.drop 4).length < ofLE (stream.take 4) then .truncated
  else .frame ((stream.drop 4).take (ofLE (stream.take 4)))
    ((stream.drop 4).drop (ofLE (stream.take 4)))

open UInt32

theorem leBytes_ofLE (bs : Bytes) (h : bs.length = 4) : leBytes (ofNat (ofLE bs)) = bs := by
  have hlt : ofLE bs < 2 ^ 32 := by simpa [h] using ofLE_lt bs
  show toLE 4 (ofNat (ofLE bs)).toNat = bs
  rw [toNat_ofNat', Nat.mod_eq_of_lt hlt, ← h, toLE_ofLE]

theorem ofLE_leBytes (n : Nat) (h : n < 2 ^ 32) : ofLE (leBytes (ofNat n)) = n := by
  show ofLE (toLE 4 (ofNat n).toNat) = n
  rw [toNat_ofNat', Nat.mod_eq_of_lt h]
  exact ofLE_toLE 4 n h

variable {maximum : Nat}

theorem front_eq_frame (hmax : maximum < 2 ^ 32) (stream payload rest : Bytes) :
    front maximum stream = .frame payload rest ↔
      payload.length ≤ maximum ∧ stream = frameBytes payload ++ rest := by
  unfold front
  constructor
  · intro h
    split at h
    · cases h
    · next h4 =>
      split at h
      · cases h
      · next hle =>
        split at h
        · cases h
        · next hlen =>
          cases h
          have hp : ((stream.drop 4).take (ofLE (stream.take 4))).length = ofLE (stream.take 4) :=
            length_take_of_le (by omega)
          refine ⟨by omega, ?_⟩
          rw [frameBytes, hp, leBytes_ofLE _ (length_take_of_le (by omega)),
            append_assoc, take_append_drop, take_append_drop]
  · rintro ⟨hle, rfl⟩
    have hhead : (leBytes (ofNat payload.length)).length = 4 := length_leBytes _
    have htake : (frameBytes payload ++ rest).take 4 = leBytes (ofNat payload.length) := by
      rw [frameBytes, append_assoc, take_append_of_le_length (by omega),
        take_of_length_le (by omega)]
    have hdrop : (frameBytes payload ++ rest).drop 4 = payload ++ rest := by
      rw [frameBytes, append_assoc, drop_append, drop_of_length_le (by omega), hhead]
      rfl
    have hlen : ofLE (leBytes (ofNat payload.length)) = payload.length := ofLE_leBytes _ (by omega)
    have h4 : ¬ (frameBytes payload ++ rest).length < 4 := by
      simp only [frameBytes, length_append, hhead]
      omega
    rw [if_neg h4, htake, hlen, hdrop, if_neg (by omega), if_neg (by simp)]
    simp

/-! ## One call -/

theorem checkedFrameLen_of_le {length maximum : Nat} (hmax : maximum ≤ maxCommandFrame)
    (h : length ≤ maximum) : checkedFrameLen length maximum = .ok (ofNat length) := by
  have h32 : length < 2 ^ 32 := by unfold maxCommandFrame at hmax; omega
  rw [checkedFrameLen, check_bind_eq_ok, check_bind_eq_ok, if_pos h32]
  exact ⟨if_neg (by omega), if_neg (by omega), rfl⟩

theorem checkedFrameLen_of_gt {length maximum : Nat} (h : maximum < length) :
    ∃ report, report.context = .frameTooLarge ∧ checkedFrameLen length maximum = .error report := by
  unfold checkedFrameLen validateFrameLimit failIf
  by_cases hmax : maxCommandFrame < maximum
  · rw [if_pos hmax]
    exact ⟨_, rfl, rfl⟩
  · rw [if_neg hmax, if_pos h]
    exact ⟨_, rfl, rfl⟩

theorem writeFrameLimited_of_le (a : Adapter) {data : Bytes}
    (hmax : maximum ≤ maxCommandFrame) (h : data.length ≤ maximum) (p : Pipe) :
    writeFrameLimited (pipe a) data maximum p =
      .ok () { p with outgoing := p.outgoing ++ frameBytes data } := by
  unfold writeFrameLimited
  rw [checkedFrameLen_of_le hmax h, frameBytes, ← append_assoc]
  rfl

/-- Whatever the I/O is, an oversized payload is refused before it is touched. -/
theorem writeFrameLimited_of_gt {σ : Type} (io : FrameIo σ) {data : Bytes}
    (h : maximum < data.length) (s : σ) : ∃ report, report.context = .frameTooLarge ∧
      writeFrameLimited io data maximum s = .error report s := by
  obtain ⟨report, hctx, hlen⟩ := checkedFrameLen_of_gt h
  refine ⟨report, hctx, ?_⟩
  unfold writeFrameLimited
  rw [hlen]
  rfl

def truncatedReport : Report := ⟨.frameTruncated, none, none⟩

/-- A byte stream to the adapter: it asks again after every fault among the answers. -/
def Pipe.Clean (a : Adapter) (p : Pipe) : Prop := p.incoming.Clean a.retried

def Pipe.stream (p : Pipe) : Bytes := p.incoming.bytes

variable {p : Pipe}

theorem readFrameBytes_of_le (a : Adapter) (hp : p.Clean a) {n : Nat} (hn : n ≤ p.stream.length) :
    ∃ q : Pipe, (pipe a).readFrameBytes n p = .ok (p.stream.take n) q ∧
      q.stream = p.stream.drop n ∧ q.Clean a := by
  obtain ⟨incoming, hread, hrest, hclean⟩ := Source.readExact_of_le _ .unexpectedEof n _ hp hn
  refine ⟨{ p with incoming }, ?_, hrest, hclean⟩
  simp only [pipe, hread]
  rfl

theorem readFrameBytes_of_lt (a : Adapter) (hp : p.Clean a) {n : Nat} (hn : p.stream.length < n) :
    (pipe a).readFrameBytes n p = .error truncatedReport { p with incoming := [] } := by
  have hread := Source.readExact_of_lt a.retried .unexpectedEof n p.incoming hp hn
  simp only [pipe, hread]
  cases a <;> rfl

theorem call_bind_ok {σ α β : Type} {x : Call σ α} {f : α → Call σ β} {s s' : σ} {r : α}
    (h : x s = .ok r s') : (x >>= f) s = f r s' := by
  show EStateM.bind x f s = _
  rw [EStateM.bind, h]

theorem call_bind_error {σ α β : Type} {x : Call σ α} {f : α → Call σ β} {s s' : σ} {e : Report}
    (h : x s = .error e s') : (x >>= f) s = .error e s' := by
  show EStateM.bind x f s = _
  rw [EStateM.bind, h]

/-- The call ends as the front of the stream says. -/
def ReadsFront (a : Adapter) (maximum : Nat) (call : EStateM.Result Report Pipe Bytes) : Front → Prop
  | .frame payload rest => ∃ q, call = .ok payload q ∧ q.stream = rest ∧ q.Clean a
  | .tooLarge length rest => ∃ q, call = .error (frameTooLarge length maximum) q ∧ q.stream = rest
  | .truncated => ∃ q, call = .error truncatedReport q ∧ q.stream = []

section
variable (a : Adapter) {reserve : Nat → Bool} {maximum : Nat}
  (hmax : maximum ≤ maxCommandFrame) (hres : ∀ n ≤ maximum, reserve n = true)

include hmax hres in
theorem readFrame_reads_front (hp : p.Clean a) :
    ReadsFront a maximum (readFrameWithLimit (pipe a) reserve maximum p)
      (front maximum p.stream) := by
  have hlimit : validateFrameLimit maximum = .ok () := if_neg (by omega)
  unfold readFrameWithLimit front
  rw [hlimit, call_bind_ok (show orFail (Except.ok ()) p = .ok () p from rfl)]
  by_cases h4 : p.stream.length < 4
  · rw [if_pos h4, call_bind_error (readFrameBytes_of_lt a hp h4)]
    exact ⟨_, rfl, rfl⟩
  obtain ⟨q, hread, hrest, hq⟩ := readFrameBytes_of_le a hp (n := 4) (by omega)
  rw [if_neg h4, call_bind_ok hread]
  by_cases hlarge : maximum < ofLE (p.stream.take 4)
  · rw [if_pos hlarge, failIf, if_pos hlarge]
    exact ⟨q, rfl, hrest⟩
  have hreserve : ¬ reserve (ofLE (p.stream.take 4)) = false := by
    rw [hres _ (by omega)]
    decide
  rw [if_neg hlarge, failIf, if_neg hlarge, failIf, if_neg hreserve]
  show ReadsFront a maximum ((pipe a).readFrameBytes (ofLE (p.stream.take 4)) q) _
  rw [← hrest]
  by_cases hshort : q.stream.length < ofLE (p.stream.take 4)
  · rw [if_pos hshort, readFrameBytes_of_lt a hq hshort]
    exact ⟨_, rfl, rfl⟩
  · obtain ⟨q', hread', hrest', hq'⟩ :=
      readFrameBytes_of_le a hq (n := ofLE (p.stream.take 4)) (by omega)
    rw [if_neg hshort, hread']
    exact ⟨q', rfl, hrest', hq'⟩

/-! ## Whole streams -/

/-- Calls repeated until one fails: the values returned, the error and the
state it leaves. -/
inductive Drains {σ α : Type} (call : Call σ α) : σ → List α → Report → σ → Prop
  | stop {s s' : σ} {e : Report} : call s = .error e s' → Drains call s [] e s'
  | next {s s' s'' : σ} {r : α} {rs : List α} {e : Report} :
    call s = .ok r s' → Drains call s' rs e s'' → Drains call s (r :: rs) e s''

theorem Drains.unique {σ α : Type} {call : Call σ α} {s s₁ s₂ : σ} {rs₁ rs₂ : List α}
    {e₁ e₂ : Report} (h₁ : Drains call s rs₁ e₁ s₁) (h₂ : Drains call s rs₂ e₂ s₂) :
    rs₁ = rs₂ ∧ e₁ = e₂ ∧ s₁ = s₂ := by
  induction h₁ generalizing rs₂ with
  | stop hcall =>
    cases h₂ with
    | stop hcall' => rw [hcall] at hcall'; cases hcall'; exact ⟨rfl, rfl, rfl⟩
    | next hcall' _ => rw [hcall] at hcall'; cases hcall'
  | next hcall _ ih =>
    cases h₂ with
    | stop hcall' => rw [hcall] at hcall'; cases hcall'
    | next hcall' hrest =>
      rw [hcall] at hcall'
      cases hcall'
      obtain ⟨rfl, rfl, rfl⟩ := ih hrest
      exact ⟨rfl, rfl, rfl⟩

/-- How a run of the reader ends: `rest` is what followed the last whole frame,
`left` what is unread afterwards. -/
inductive Ends (maximum : Nat) : (rest : Bytes) → TransportError → (left : Bytes) → Prop
  | endOfStream : Ends maximum [] .frameTruncated []
  | truncated {rest : Bytes} : rest ≠ [] →
    rest.length < 4 ∨ ofLE (rest.take 4) ≤ maximum ∧ rest.length < 4 + ofLE (rest.take 4) →
    Ends maximum rest .frameTruncated []
  | tooLarge {rest : Bytes} : 4 ≤ rest.length → maximum < ofLE (rest.take 4) →
    Ends maximum rest .frameTooLarge (rest.drop 4)

theorem ends_of_front_truncated {stream : Bytes} (h : front maximum stream = .truncated) :
    Ends maximum stream .frameTruncated [] := by
  by_cases hnil : stream = []
  · subst hnil
    exact .endOfStream
  refine .truncated hnil ?_
  unfold front at h
  split at h
  · exact .inl ‹_›
  · split at h
    · cases h
    · split at h
      · next hlen =>
        rw [length_drop] at hlen
        exact .inr ⟨by omega, by omega⟩
      · cases h

theorem ends_of_front_tooLarge {stream rest : Bytes} {length : Nat}
    (h : front maximum stream = .tooLarge length rest) :
    Ends maximum stream .frameTooLarge rest := by
  unfold front at h
  split at h
  · cases h
  · split at h
    · next hlarge =>
      cases h
      exact .tooLarge (by omega) hlarge
    · split at h <;> cases h

include hmax hres in
/-- **Every stream, every chunking**: the reader returns the whole frames at the
front of the stream, one after the other, and then stops as `Ends` says. -/
theorem drain_of_clean (p : Pipe) (hp : p.Clean a) :
    ∃ (frames : List Bytes) (e : Report) (q : Pipe) (rest : Bytes),
      Drains (readFrameWithLimit (pipe a) reserve maximum) p frames e q ∧
      p.stream = frames.flatMap frameBytes ++ rest ∧
      (∀ frame ∈ frames, frame.length ≤ maximum) ∧ Ends maximum rest e.context q.stream := by
  -- strong induction on the length of the stream: a frame read leaves less of it
  induction hn : p.stream.length using Nat.strong_induction_on generalizing p with
  | _ n ih =>
    have hread := readFrame_reads_front a hmax hres hp
    cases hfront : front maximum p.stream with
    | truncated =>
      rw [hfront] at hread
      obtain ⟨q, hcall, hleft⟩ := hread
      exact ⟨[], _, q, p.stream, .stop hcall, rfl, by simp, hleft ▸ ends_of_front_truncated hfront⟩
    | tooLarge length rest =>
      rw [hfront] at hread
      obtain ⟨q, hcall, hleft⟩ := hread
      exact ⟨[], _, q, p.stream, .stop hcall, rfl, by simp, hleft ▸ ends_of_front_tooLarge hfront⟩
    | frame payload rest =>
      rw [hfront] at hread
      obtain ⟨q, hcall, hrest, hq⟩ := hread
      have h32 : maximum < 2 ^ 32 := by unfold maxCommandFrame at hmax; omega
      obtain ⟨hle, hstream⟩ := (front_eq_frame h32 _ _ _).1 hfront
      have hless : q.stream.length < n := by
        rw [← hn, hstream, hrest]
        simp only [frameBytes, length_append, length_leBytes, Word.bytes]
        omega
      obtain ⟨frames, e, q', rest', hdrain, heq, hall, hends⟩ := ih _ hless q hq rfl
      refine ⟨payload :: frames, e, q', rest', .next hcall hdrain, ?_, ?_, hends⟩
      · rw [hstream, ← hrest, heq]
        simp
      · intro frame hmem
        rcases mem_cons.1 hmem with rfl | hmem
        · exact hle
        · exact hall frame hmem

include hmax in
theorem writes_of_le (payloads : List Bytes)
    (hall : ∀ payload ∈ payloads, payload.length ≤ maximum) (p : Pipe) :
    payloads.forM (fun payload => writeFrameLimited (pipe a) payload maximum) p =
      .ok () { p with outgoing := p.outgoing ++ payloads.flatMap frameBytes } := by
  induction payloads generalizing p with
  | nil => simp only [flatMap_nil, append_nil]; rfl
  | cons payload payloads ih =>
    have hwrite := writeFrameLimited_of_le a hmax (hall payload mem_cons_self) p
    show (writeFrameLimited (pipe a) payload maximum >>= fun _ =>
      payloads.forM fun payload => writeFrameLimited (pipe a) payload maximum) p = _
    rw [call_bind_ok hwrite, ih fun payload hmem => hall payload (mem_cons_of_mem _ hmem)]
    simp

include hmax hres in
theorem drain_of_frames (payloads : List Bytes)
    (hall : ∀ payload ∈ payloads, payload.length ≤ maximum) (hp : p.Clean a)
    (hstream : p.stream = payloads.flatMap frameBytes) :
    ∃ q, Drains (readFrameWithLimit (pipe a) reserve maximum) p payloads truncatedReport q ∧
      q.stream = [] := by
  induction payloads generalizing p with
  | nil =>
    have hread := readFrame_reads_front a hmax hres hp
    have hfront : front maximum p.stream = .truncated := by
      rw [hstream]
      rfl
    rw [hfront] at hread
    obtain ⟨q, hcall, hleft⟩ := hread
    exact ⟨q, .stop hcall, hleft⟩
  | cons payload payloads ih =>
    have hread := readFrame_reads_front a hmax hres hp
    have h32 : maximum < 2 ^ 32 := by unfold maxCommandFrame at hmax; omega
    rw [(front_eq_frame h32 _ payload (payloads.flatMap frameBytes)).2
      ⟨hall payload mem_cons_self, by rw [hstream, flatMap_cons]⟩] at hread
    obtain ⟨q, hcall, hrest, hq⟩ := hread
    obtain ⟨q', hdrain, hleft⟩ :=
      ih (fun payload hmem => hall payload (mem_cons_of_mem _ hmem)) hq hrest
    exact ⟨q', .next hcall hdrain, hleft⟩

include hmax hres in
theorem stream_of_readFrame {p q : Pipe} {payload : Bytes} (hp : p.Clean a)
    (h : readFrameWithLimit (pipe a) reserve maximum p = .ok payload q) :
    p.stream = frameBytes payload ++ q.stream ∧ payload.length ≤ maximum := by
  have hread := readFrame_reads_front a hmax hres hp
  cases hfront : front maximum p.stream with
  | truncated | tooLarge length rest =>
    rw [hfront, h] at hread
    obtain ⟨_, hcall, -⟩ := hread
    cases hcall
  | frame payload' rest =>
    rw [hfront, h] at hread
    obtain ⟨_, hcall, hrest, -⟩ := hread
    cases hcall
    have h32 : maximum < 2 ^ 32 := by unfold maxCommandFrame at hmax; omega
    obtain ⟨hle, hstream⟩ := (front_eq_frame h32 _ _ _).1 hfront
    exact ⟨by rw [hstream, hrest], hle⟩

end

/-- **The frame codec**, for a limit within the library ceiling and an allocator
that can reserve up to it.  What was written is read back; over any stream the
reader returns whole frames of it and then ends as `Ends` lists; no call takes
bytes beyond its frame; an oversized payload is refused before the I/O is used. -/
theorem frame_codec (writer reader : Adapter) (reserve : Nat → Bool) (maximum : Nat)
    (hmax : maximum ≤ maxCommandFrame) (hres : ∀ n ≤ maximum, reserve n = true) :
    (∀ payloads : List Bytes, (∀ payload ∈ payloads, payload.length ≤ maximum) →
      ∀ p : Pipe, ∃ written : Bytes,
        payloads.forM (fun payload => writeFrameLimited (pipe writer) payload maximum) p =
          .ok () { p with outgoing := p.outgoing ++ written } ∧
        ∀ q : Pipe, q.Clean reader → q.stream = written → ∃ q' : Pipe, q'.stream = [] ∧
          ∀ frames e q'', Drains (readFrameWithLimit (pipe reader) reserve maximum) q frames e q'' ↔
            frames = payloads ∧ e = truncatedReport ∧ q'' = q') ∧
    (∀ p : Pipe, p.Clean reader → ∃ (frames : List Bytes) (e : Report) (q : Pipe) (rest : Bytes),
      Drains (readFrameWithLimit (pipe reader) reserve maximum) p frames e q ∧
      p.stream = frames.flatMap frameBytes ++ rest ∧
      (∀ frame ∈ frames, frame.length ≤ maximum) ∧ Ends maximum rest e.context q.stream) ∧
    (∀ (p q : Pipe) (payload : Bytes), p.Clean reader →
      readFrameWithLimit (pipe reader) reserve maximum p = .ok payload q →
      p.stream = frameBytes payload ++ q.stream ∧ payload.length ≤ maximum) ∧
    (∀ (σ : Type) (io : FrameIo σ) (s : σ) (data : Bytes), maximum < data.length →
      ∃ report, report.context = .frameTooLarge ∧
        writeFrameLimited io data maximum s = .error report s) := by
  refine ⟨fun payloads hall p => ⟨payloads.flatMap frameBytes, writes_of_le writer hmax payloads
    hall p, fun q hq hstream => ?_⟩, fun p hp => drain_of_clean reader hmax hres p hp,
    fun p q payload hp h => stream_of_readFrame reader hmax hres hp h,
    fun σ io s data h => writeFrameLimited_of_gt io h s⟩
  obtain ⟨q', hdrain, hleft⟩ := drain_of_frames reader hmax hres payloads hall hq hstream
  refine ⟨q', hleft, fun frames e q'' => ⟨fun h => h.unique hdrain, ?_⟩⟩
  rintro ⟨rfl, rfl, rfl⟩
  exact hdrain

/-- Two frames sent in three chunks, one of them interrupted. -/
def splitPipe : Pipe where
  incoming := [.data 2 [0, 0], .fault .interrupted, .data 0 [7, 8, 1, 0], .data 0 [0, 9]]
  outgoing := []

theorem frame_codec_splitPipe : splitPipe.stream = [[7, 8], [9]].flatMap frameBytes ∧
      ∃ e q, Drains (readFrameWithLimit (pipe .sync) (fun _ => true) 2) splitPipe [[7, 8], [9]]
        e q := by
  refine ⟨by decide, ?_⟩
  obtain ⟨written, hwritten, hread⟩ := (frame_codec .async .sync (fun _ => true) 2 (by decide)
    (fun _ _ => rfl)).1 [[7, 8], [9]] (by decide) ⟨[], []⟩
  obtain rfl : written = [[7, 8], [9]].flatMap frameBytes := by
    have hw := writes_of_le .async (show 2 ≤ maxCommandFrame by decide) [[7, 8], [9]] (by decide) ⟨[], []⟩
    rw [hw] at hwritten
    cases hwritten
    rfl
  have hclean : splitPipe.Clean .sync := by
    intro e he
    simp only [splitPipe, mem_cons, reduceCtorEq, Answer.fault.injEq, false_or,
      not_mem_nil, or_false] at he
    subst he
    rfl
  obtain ⟨q', -, hiff⟩ := hread splitPipe hclean (by decide)
  exact ⟨_, q', (hiff _ _ _).2 ⟨rfl, rfl, rfl⟩⟩

end Jyth.Com
