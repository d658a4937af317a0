import Jyth.Lib.Segments
import Jyth.Storage.Types

/-!
# Digests of sources

The digest texts of a registry (`sha256:<hex>`), their parsing by
`ExpectedDigest::parse`, and the identities the pipeline derives for what it
caches (`LinkDigestBuilder`).  A text is its UTF-8 bytes.

The digests are taken to be collision-free where an identity rests on them: a
BLAKE3 hash is a byte string of any length, and `Hashes` holds injective
functions.  SHA-256 and SHA-512 keep their widths and may collide; no identity
rests on them.
-/

namespace Jyth.Registry

open Format Segments Option

/-- The UTF-8 bytes of a string. -/
abbrev Text := Bytes

def colon : UInt8 := 0x3a
def slash : UInt8 := 0x2f

/-! ## `ExpectedDigest::parse` -/

inductive ExpectedDigestError
  | missingSeparator
  | unsupportedAlgorithm (algorithm : Text)
  | invalidLength (algorithm : Text) (length : Nat)
  | invalidHex
deriving DecidableEq

/-- Two digits a byte, of either case. -/
def hexPairs : Text → Option Bytes
  | [] => some []
  | [_] => none
  | high :: low :: rest => do
    let high ← hexValue high
    let low ← hexValue low
    let bytes ← hexPairs rest
    return UInt8.ofNat (high * 16 + low) :: bytes

def decodeHex (algorithm hex : Text) (width : Nat) : Except ExpectedDigestError (Block width) := do
  failIf (hex.length ≠ width * 2) (.invalidLength algorithm hex.length)
  match hexPairs hex with
  | some bytes => if h : bytes.length = width then return ⟨bytes, h⟩ else throw .invalidHex
  | none => throw .invalidHex

def sha256Name : Text := utf8 "sha256"
def sha512Name : Text := utf8 "sha512"
def blake3Name : Text := utf8 "blake3"

def parseExpectedDigest (value : Text) : Except ExpectedDigestError ExpectedDigest := do
  let (algorithm, hex) ← (splitOnce colon value).elim (throw .missingSeparator) pure
  if algorithm = blake3Name then return .blake3 (← decodeHex algorithm hex 32)
  else if algorithm = sha256Name then return .sha256 (← decodeHex algorithm hex 32)
  else if algorithm = sha512Name then return .sha512 (← decodeHex algorithm hex 64)
  else throw (.unsupportedAlgorithm algorithm)

/-! ## Hashes -/

inductive Field
  | bytes (tag value : Bytes)
  | u128 (tag : Bytes) (value : BitVec 128)
deriving DecidableEq

/-- The fields that are hashed, in order. -/
structure LinkDigestBuilder where
  domain : Bytes
  fields : List Field
deriving DecidableEq

/-- A cache identity: the hash and the size chosen by the caller. -/
structure LinkDigest where
  linkHash : Bytes
  fileSize : BitVec 128
deriving DecidableEq

/-- The hash functions.  `finish` is BLAKE3 of what a builder has been fed. -/
structure Hashes where
  blake3 : Bytes → Bytes
  finish : LinkDigestBuilder → Bytes
  sha256 : Bytes → Block 32
  sha512 : Bytes → Block 64
  blake3_injective : Function.Injective blake3
  finish_injective : Function.Injective finish

namespace LinkDigestBuilder

def new (domain : Bytes) : LinkDigestBuilder := ⟨domain, []⟩

def bytes (b : LinkDigestBuilder) (tag value : Bytes) : LinkDigestBuilder :=
  { b with fields := b.fields ++ [.bytes tag value] }

def str (b : LinkDigestBuilder) (tag : Bytes) (value : Text) : LinkDigestBuilder :=
  b.bytes tag value

def u128 (b : LinkDigestBuilder) (tag : Bytes) (value : BitVec 128) : LinkDigestBuilder :=
  { b with fields := b.fields ++ [.u128 tag value] }

def finish (b : LinkDigestBuilder) (hashes : Hashes) (fileSize : BitVec 128) : LinkDigest :=
  ⟨hashes.finish b, fileSize⟩

end LinkDigestBuilder

namespace Hashes

variable (hashes : Hashes)

def verify (expected : ExpectedDigest) (content : Bytes) : Bool :=
  match expected with
  | .blake3 bytes => bytes.1 = hashes.blake3 content
  | .sha256 bytes => bytes = hashes.sha256 content
  | .sha512 bytes => bytes = hashes.sha512 content

def hexLower (bytes : Bytes) : Text := bytes.flatMap fun b => toHex 2 b.toNat

def computeDigest (algorithm : Text) (content : Bytes) : Option Text :=
  if algorithm = sha256Name then
    some (utf8 "sha256:" ++ hexLower (hashes.sha256 content).1)
  else if algorithm = sha512Name then
    some (utf8 "sha512:" ++ hexLower (hashes.sha512 content).1)
  else none

def manifestBodyDigest (content : Bytes) : Text :=
  utf8 "sha256:" ++ hexLower (hashes.sha256 content).1

/-- The content has the digest that is written. -/
def HashesTo (digest : Text) (content : Bytes) : Prop :=
  ∃ expected, parseExpectedDigest digest = .ok expected ∧ hashes.verify expected content = true

end Hashes

/-! ## Spelling a digest -/

variable {hex bytes : Text}

theorem hexPairs_length (h : hexPairs hex = some bytes) : hex.length = bytes.length * 2 := by
  induction hex using hexPairs.induct generalizing bytes with
  | case1 =>
    cases h
    rfl
  | case2 => cases h
  | case3 high low rest ih =>
    simp only [hexPairs, bind_eq_bind, bind_eq_some_iff] at h
    obtain ⟨_, -, _, -, tail, htail, hbytes⟩ := h
    cases hbytes
    simp only [List.length_cons, ih htail]
    omega

open Hashes

theorem hexLower_cons (b : UInt8) (bytes : Bytes) : hexLower (b :: bytes) =
      hexDigit (b.toNat / 16) :: hexDigit (b.toNat % 16) :: hexLower bytes := by
  have hlt := b.toNat_lt
  have hhigh : b.toNat / 16 % 16 = b.toNat / 16 := Nat.mod_eq_of_lt (by omega)
  simp [hexLower, toHex, hhigh]

theorem hexPairs_hexLower (bytes : Bytes) : hexPairs (hexLower bytes) = some bytes := by
  induction bytes with
  | nil => rfl
  | cons b bytes ih =>
    have hlt := b.toNat_lt
    have hhigh := hexValue_hexDigit (b.toNat / 16) (by omega)
    have hlow := hexValue_hexDigit (b.toNat % 16) (by omega)
    have hb : UInt8.ofNat (b.toNat / 16 * 16 + b.toNat % 16) = b := by
      rw [Nat.div_add_mod']
      exact UInt8.ofNat_toNat
    rw [hexLower_cons, hexPairs, hhigh, hlow, ih]
    exact congrArg (fun b => some (b :: bytes)) hb

theorem decodeHex_hexLower {width : Nat} (algorithm : Text) (block : Block width) :
    decodeHex algorithm (hexLower block.1) width = .ok block := by
  have hpairs := hexPairs_hexLower block.1
  have hlength := hexPairs_length hpairs
  rw [block.2] at hlength
  unfold decodeHex
  simp only [hpairs, failIf, hlength, block.2, ne_eq, not_true_eq_false, ↓reduceIte, ↓reduceDIte]
  rfl

theorem hexPairs_of_decodeHex {algorithm hex : Text} {width : Nat} {block : Block width}
    (h : decodeHex algorithm hex width = .ok block) : hexPairs hex = some block.1 := by
  obtain ⟨_, -, h⟩ := bind_eq_ok.1 h
  cases hpairs : hexPairs hex with
  | none =>
    rw [hpairs] at h
    cases h
  | some bytes =>
    simp only [hpairs] at h
    split at h
    · cases h
      rfl
    · cases h

def algorithmName : ExpectedDigest → Text
  | .blake3 _ => blake3Name
  | .sha256 _ => sha256Name
  | .sha512 _ => sha512Name

variable {expected : ExpectedDigest}

theorem parse_eq_ok {digest : Text} (h : parseExpectedDigest digest = .ok expected) : ∃ hex,
      digest = algorithmName expected ++ colon :: hex ∧
      hexPairs hex = some expected.digestBytes := by
  unfold parseExpectedDigest at h
  cases hcut : splitOnce colon digest with
  | none =>
    rw [hcut] at h
    cases h
  | some cut =>
    obtain ⟨algorithm, hex⟩ := cut
    refine ⟨hex, ?_⟩
    rw [splitOnce_eq_some hcut]
    simp only [hcut, elim_some, pure_bind] at h
    split_ifs at h with hblake3 hsha256 hsha512
    · obtain ⟨block, hblock, hexpected⟩ := bind_eq_ok.1 h
      cases hexpected
      exact ⟨congrArg (· ++ colon :: hex) hblake3, hexPairs_of_decodeHex hblock⟩
    · obtain ⟨block, hblock, hexpected⟩ := bind_eq_ok.1 h
      cases hexpected
      exact ⟨congrArg (· ++ colon :: hex) hsha256, hexPairs_of_decodeHex hblock⟩
    · obtain ⟨block, hblock, hexpected⟩ := bind_eq_ok.1 h
      cases hexpected
      exact ⟨congrArg (· ++ colon :: hex) hsha512, hexPairs_of_decodeHex hblock⟩

theorem computeDigest_hashesTo {hashes : Hashes} {algorithm digest : Text} {content : Bytes}
    (h : hashes.computeDigest algorithm content = some digest) :
    hashes.HashesTo digest content := by
  unfold computeDigest at h
  split at h
  · cases h
    refine ⟨.sha256 (hashes.sha256 content), ?_, decide_eq_true rfl⟩
    have hcut : splitOnce colon (utf8 "sha256:" ++ hexLower (hashes.sha256 content).1) =
        some (sha256Name, hexLower (hashes.sha256 content).1) :=
      splitOnce_append (show colon ∉ sha256Name by decide) _
    simp only [parseExpectedDigest, hcut, elim_some, pure_bind]
    rw [if_neg (by decide), if_pos trivial, decodeHex_hexLower]
    rfl
  · split at h
    · cases h
      refine ⟨.sha512 (hashes.sha512 content), ?_, decide_eq_true rfl⟩
      have hcut : splitOnce colon (utf8 "sha512:" ++ hexLower (hashes.sha512 content).1) =
          some (sha512Name, hexLower (hashes.sha512 content).1) :=
        splitOnce_append (show colon ∉ sha512Name by decide) _
      simp only [parseExpectedDigest, hcut, elim_some, pure_bind]
      rw [if_neg (by decide), if_neg (by decide), if_pos trivial, decodeHex_hexLower]
      rfl
    · cases h

theorem hexLower_of_hexPairs (h : hexPairs hex = some bytes) :
    hexLower bytes = hex.map asciiLower := by
  induction hex using hexPairs.induct generalizing bytes with
  | case1 =>
    cases h
    rfl
  | case2 => cases h
  | case3 high low rest ih =>
    simp only [hexPairs, bind_eq_bind, bind_eq_some_iff] at h
    obtain ⟨hi, hhigh, lo, hlow, tail, htail, hbytes⟩ := h
    cases hbytes
    obtain ⟨hhilt, hhi⟩ := hexDigit_of_hexValue hhigh
    obtain ⟨hlolt, hlo⟩ := hexDigit_of_hexValue hlow
    have hbyte : (UInt8.ofNat (hi * 16 + lo)).toNat = hi * 16 + lo := by
      rw [UInt8.toNat_ofNat']
      omega
    rw [hexLower_cons, hbyte, ih htail, show (hi * 16 + lo) / 16 = hi by omega,
      show (hi * 16 + lo) % 16 = lo by omega, hhi, hlo]
    rfl

theorem hexLower_inj {bytes' : Bytes} : hexLower bytes = hexLower bytes' ↔ bytes = bytes' := by
  refine ⟨fun h => ?_, congrArg _⟩
  have hpairs := congrArg hexPairs h
  rwa [hexPairs_hexLower, hexPairs_hexLower, some.injEq] at hpairs

/-- The computed digest is the expected one in lower case just if the content is the expected. -/
theorem computeDigest_iff_verify {hashes : Hashes} {digest : Text} {content : Bytes}
    (hparse : parseExpectedDigest digest = .ok expected)
    (hsha : algorithmName expected ≠ blake3Name) :
    hashes.computeDigest (algorithmName expected) content = some (digest.map asciiLower) ↔
      hashes.verify expected content = true := by
  obtain ⟨hex, rfl, hpairs⟩ := parse_eq_ok hparse
  rw [List.map_append, List.map_cons, ← hexLower_of_hexPairs hpairs]
  cases expected with
  | blake3 block => exact absurd rfl hsha
  | sha256 block =>
    have hcompute : hashes.computeDigest sha256Name content =
        some (utf8 "sha256:" ++ hexLower (hashes.sha256 content).1) := if_pos rfl
    rw [algorithmName, hcompute, verify, decide_eq_true_iff, eq_comm, Subtype.ext_iff,
      ← hexLower_inj, some.injEq]
    exact (List.append_right_inj (utf8 "sha256:"))
  | sha512 block =>
    have hcompute : hashes.computeDigest sha512Name content =
        some (utf8 "sha512:" ++ hexLower (hashes.sha512 content).1) :=
      (if_neg (by decide)).trans (if_pos rfl)
    rw [algorithmName, hcompute, verify, decide_eq_true_iff, eq_comm, Subtype.ext_iff,
      ← hexLower_inj, some.injEq]
    exact (List.append_right_inj (utf8 "sha512:"))

/-! ## An instance

The assumptions of `Hashes` can be met. -/

namespace Sample

def escape : Bytes → Bytes
  | [] => [0]
  | b :: bytes => 1 :: b :: escape bytes

theorem escape_append_inj {a a' r r' : Bytes} (h : escape a ++ r = escape a' ++ r') :
    a = a' ∧ r = r' := by
  induction a generalizing a' with
  | nil =>
    cases a' with
    | nil => exact ⟨rfl, by simpa [escape] using h⟩
    | cons b a' => simp [escape] at h
  | cons b a ih =>
    cases a' with
    | nil => simp [escape] at h
    | cons b' a' =>
      simp only [escape, List.cons_append, List.cons.injEq, true_and] at h
      obtain ⟨rfl, rfl⟩ := ih h.2
      exact ⟨by rw [h.1], rfl⟩

def encodeFields : List Field → Bytes
  | [] => []
  | .bytes tag value :: fields => 2 :: (escape tag ++ (escape value ++ encodeFields fields))
  | .u128 tag value :: fields => 3 :: (escape tag ++ (escape (leBytes value) ++ encodeFields fields))

theorem encodeFields_injective : Function.Injective encodeFields := by
  intro fields
  induction fields with
  | nil => rintro (_ | ⟨_ | _, _⟩) h <;> simp_all [encodeFields]
  | cons field fields ih =>
    rintro (_ | ⟨field', fields'⟩) h
    · cases field <;> simp [encodeFields] at h
    · cases field <;> cases field' <;> simp only [encodeFields, List.cons.injEq] at h
      · obtain ⟨rfl, hrest⟩ := escape_append_inj h.2
        obtain ⟨rfl, hfields⟩ := escape_append_inj hrest
        rw [ih hfields]
      · exact absurd h.1 (by decide)
      · exact absurd h.1 (by decide)
      · obtain ⟨rfl, hrest⟩ := escape_append_inj h.2
        obtain ⟨hvalue, hfields⟩ := escape_append_inj hrest
        rw [ih hfields, leBytes_injective hvalue]

def pad (width : Nat) (bytes : Bytes) : Block width :=
  ⟨(bytes ++ List.replicate width 0).take width, by simp⟩

def hashes : Hashes where
  blake3 := id
  finish b := escape b.domain ++ encodeFields b.fields
  sha256 := pad 32
  sha512 := pad 64
  blake3_injective := Function.injective_id
  finish_injective := by
    rintro ⟨domain, fields⟩ ⟨domain', fields'⟩ h
    obtain ⟨hdomain, hfields⟩ := escape_append_inj h
    exact congrArg₂ LinkDigestBuilder.mk hdomain (encodeFields_injective hfields)

end Sample

end Jyth.Registry
