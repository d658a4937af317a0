import Jyth.Storage.Types

/-!
# The persisted `Blueprint` encoding

`Blueprint.encode` and `Blueprint.decode` of `storage/index/serde.rs`.  Both
are infallible in the source and panic instead; a panic is the error value
here, carrying its message.  `usize` is 64 bits wide.

Decoding accepts exactly the encodings (`decode_eq_ok`), with one asymmetry:
`decode` bounds the extract path by `maxPayloadLen`, `encode` does not.
-/

namespace Jyth

open Format Exact

abbrev Panic := String

def blueprintFormatMarker : UInt8 := 0x02

def maxLayerCount : Nat := 100000

def maxPayloadLen : Nat := 2 ^ 32 - 1

/-! ## Platform paths -/

def wideUnits : Bytes → List UInt16
  | b₀ :: b₁ :: bs => UInt16.ofNat (ofLE [b₀, b₁]) :: wideUnits bs
  | _ => []

theorem wideUnits_flatMap (path : List UInt16) : wideUnits (path.flatMap leBytes) = path := by
  induction path with
  | nil => rfl
  | cons u us ih =>
    have hu : ofLE [UInt8.ofNat u.toNat, UInt8.ofNat (u.toNat / 256)] = u.toNat :=
      ofLE_toLE 2 u.toNat u.toNat_lt
    show UInt16.ofNat (ofLE [UInt8.ofNat u.toNat, UInt8.ofNat (u.toNat / 256)]) ::
      wideUnits (us.flatMap leBytes) = u :: us
    rw [ih, hu, UInt16.ofNat_toNat]

open List

theorem flatMap_wideUnits : ∀ bs : Bytes, bs.length % 2 = 0 → (wideUnits bs).flatMap leBytes = bs
  | [], _ => rfl | [b], h => by simp at h | b₀ :: b₁ :: bs, h => by
    have hlt : ofLE [b₀, b₁] < 2 ^ 16 := by simpa using ofLE_lt [b₀, b₁]
    have hw : leBytes (UInt16.ofNat (ofLE [b₀, b₁])) = [b₀, b₁] := by
      show toLE 2 (UInt16.ofNat (ofLE [b₀, b₁])).toNat = [b₀, b₁]
      rw [UInt16.toNat_ofNat', Nat.mod_eq_of_lt hlt]
      exact toLE_ofLE [b₀, b₁]
    have hrest : bs.length % 2 = 0 := by
      simp only [length_cons] at h
      omega
    rw [wideUnits, flatMap_cons, hw, flatMap_wideUnits bs hrest]
    rfl

theorem length_flatMap_leBytes (path : List UInt16) :
    (path.flatMap leBytes).length = 2 * path.length := by
  induction path with
  | nil => rfl
  | cons u us ih =>
    rw [flatMap_cons, length_append, ih, length_leBytes, length_cons]
    show 2 + _ = _
    omega

/-- A platform's path codec: the two `cfg` branches of `encode_path` and
`decode_path` are the two instances. -/
class OsUnit (U : Type) where
  encodePath : PathBuf U → Bytes
  decodePath : Bytes → Except Panic (PathBuf U)
  decodePath_eq_ok : ∀ bs path, decodePath bs = .ok path ↔ bs = encodePath path

/-- `cfg(unix)`. -/
instance : OsUnit UInt8 where
  encodePath path := path
  decodePath bs := .ok bs
  decodePath_eq_ok bs path := by simp

/-- `cfg(not(unix))`. -/
instance : OsUnit UInt16 where
  encodePath path := path.flatMap leBytes
  decodePath bs :=
    if bs.length % 2 = 0 then .ok (wideUnits bs)
    else .error "platform-local path bytes must be an even-length u16 stream"
  decodePath_eq_ok bs path := by
    constructor
    · intro h
      split at h
      · next he =>
        cases h
        exact (flatMap_wideUnits bs he).symm
      · cases h
    · rintro rfl
      rw [if_pos (by rw [length_flatMap_leBytes]; omega), wideUnits_flatMap]

export OsUnit (encodePath decodePath decodePath_eq_ok)

section
variable {U : Type} [OsUnit U]

/-! ## Encoding -/

def LinkDigest.encode (d : LinkDigest) : Bytes := d.linkHash.1 ++ beBytes d.fileSize

def encodeExpectedDigest (bytes : Bytes) (d : ExpectedDigest) : Except Panic Bytes := do
  let bytes := bytes ++ [d.discriminant]
  let payload := d.digestBytes
  if 2 ^ 32 ≤ payload.length then throw "expected digest length fits in u32"
  return bytes ++ beBytes (UInt32.ofNat payload.length) ++ payload

def linkVariant : ArtifactLink U → UInt8
  | .local .. => 1
  | .bytes .. => 2
  | .http .. => 3

def linkPayload : ArtifactLink U → Bytes
  | .local path _ => encodePath path
  | .bytes payload _ => payload
  | .http url _ => utf8 url

def linkSize : ArtifactLink U → BitVec 128
  | .local _ size => size
  | .bytes _ size => size
  | .http _ size => size

def encodeLayer (bytes : Bytes) (layer : Layer U) : Except Panic Bytes := do
  let bytes := bytes ++ layer.uuid.1 ++ [linkVariant layer.link]
  let payload := linkPayload layer.link
  if 2 ^ 64 ≤ payload.length then throw "layer link payload length fits in u64"
  if ¬ payload.length ≤ maxPayloadLen then throw "layer link payload overflow"
  let bytes := bytes ++ beBytes (UInt64.ofNat payload.length) ++ payload
  let bytes := bytes ++ beBytes (linkSize layer.link)
  let bytes ← encodeExpectedDigest bytes layer.expectedDigest
  return bytes ++ layer.linkDigest.encode

def encodeExtract (bytes : Bytes) : Option (PathBuf U) → Except Panic Bytes
  | none => return bytes ++ [0]
  | some path => do
    let pathBytes := encodePath path
    if 2 ^ 64 ≤ pathBytes.length then throw "extract path length fits in u64"
    return bytes ++ [1] ++ beBytes (UInt64.ofNat pathBytes.length) ++ pathBytes

def Blueprint.encode (b : Blueprint U) : Except Panic Bytes := do
  if 2 ^ 32 ≤ b.layers.length then throw "blueprint layer count fits in u32"
  if ¬ b.layers.length ≤ maxLayerCount then throw "blueprint layer count overflow"
  let bytes := [blueprintFormatMarker] ++ b.targetEntryUuid.1 ++ [b.targetEntryNamespace.toBytes]
    ++ beBytes (UInt32.ofNat b.layers.length)
  let bytes ← b.layers.foldlM encodeLayer bytes
  encodeExtract bytes b.extract

/-! ## Decoding -/

def truncatedByte : Panic := "blueprint decoding: input truncated at a single-byte field"

def truncatedField : Panic := "blueprint decoding: input truncated at a fixed-width field"

def decodeExpectedDigest : Reader Panic ExpectedDigest := do
  let disc ← takeByte truncatedByte
  let len : UInt32 ← takeBE truncatedField
  if ¬ (len.toNat = 32 ∨ len.toNat = 64) then
    throw "expected digest length must be 32 or 64 bytes"
  else do
    let payload ← takeN truncatedField len.toNat
    orThrow "expected digest discriminant and payload match" (ExpectedDigest.fromParts disc payload)

def LinkDigest.decode : Reader Panic LinkDigest := do
  let linkHash ← takeBlock truncatedField 32
  let fileSize ← takeBE truncatedField
  pure ⟨linkHash, fileSize⟩

def decodeLink (variant : UInt8) (payload : Bytes) (size : BitVec 128) :
    Except Panic (ArtifactLink U) :=
  if variant = 1 then (fun path => .local path size) <$> decodePath payload
  else if variant = 2 then .ok (.bytes payload size)
  else if variant = 3 then
    match fromUtf8? payload with
    | some url => .ok (.http url size)
    | none => .error "Http link payload is valid UTF-8"
  else .error s!"unknown ArtifactLink variant {variant}"

def decodeLayer : Reader Panic (Layer U) := do
  let uuid ← takeBlock truncatedField 16
  let variant ← takeByte truncatedByte
  let payloadLen : UInt64 ← takeBE truncatedField
  if ¬ payloadLen.toNat ≤ maxPayloadLen then throw "layer link payload overflow"
  else do
    let payload ← takeN truncatedField payloadLen.toNat
    let size : BitVec 128 ← takeBE truncatedField
    let link ← (decodeLink variant payload size : Except Panic (ArtifactLink U))
    let expectedDigest ← decodeExpectedDigest
    let linkDigest ← LinkDigest.decode
    pure ⟨uuid, link, expectedDigest, linkDigest⟩

def decodeExtractPath : Reader Panic (PathBuf U) := do
  let len : UInt64 ← takeBE truncatedField
  if ¬ len.toNat ≤ maxPayloadLen then throw "extract path length overflow"
  else do
    let pathBytes ← takeN truncatedField len.toNat
    (decodePath pathBytes : Except Panic (PathBuf U))

def decodeExtract : Reader Panic (Option (PathBuf U)) :=
  presence truncatedByte (fun flag => s!"unknown blueprint extract presence variant {flag}")
    decodeExtractPath

def decodeBlueprint : Reader Panic (Blueprint U) := do
  let marker ← takeByte truncatedByte
  if ¬ marker = blueprintFormatMarker then throw "blueprint format marker mismatch"
  else do
    let uuid ← takeBlock truncatedField 16
    let ns ← takeByte truncatedByte
    let ns ← orThrow "blueprint target namespace byte is a valid Namespace discriminant"
      (Namespace.fromBytes ns)
    let layerCount : UInt32 ← takeBE truncatedField
    if ¬ layerCount.toNat ≤ maxLayerCount then
      throw "blueprint layer count exceeds the documented upper bound"
    else do
      let layers ← times decodeLayer layerCount.toNat
      let extract ← decodeExtract
      pure ⟨uuid, ns, layers, extract⟩

def Blueprint.decode (bytes : Bytes) : Except Panic (Blueprint U) :=
  runAll "blueprint decoding: did not consume the complete encoded value" decodeBlueprint bytes

/-! ## Exactness of the field readers -/

theorem decodeLink_eq_ok (variant : UInt8) (payload : Bytes) (size : BitVec 128)
    (link : ArtifactLink U) : decodeLink variant payload size = .ok link ↔
      variant = linkVariant link ∧ payload = linkPayload link ∧ size = linkSize link := by
  unfold decodeLink
  constructor
  · intro h
    split at h
    · next hv =>
      cases hp : (decodePath payload : Except Panic (PathBuf U)) with
      | error e => rw [hp] at h; cases h
      | ok path =>
        rw [hp] at h
        cases h
        exact ⟨hv, (decodePath_eq_ok _ _).1 hp, rfl⟩
    · split at h
      · next hv => cases h; exact ⟨hv, rfl, rfl⟩
      · split at h
        · next hv =>
          split at h
          · next url hu => cases h; exact ⟨hv, (fromUtf8?_eq_some _ _).1 hu, rfl⟩
          · cases h
        · cases h
  · rintro ⟨rfl, rfl, rfl⟩
    cases link with
    | «local» path size =>
      show (fun path => ArtifactLink.local path size) <$> decodePath (encodePath path) = _
      rw [(decodePath_eq_ok _ path).2 rfl]
      rfl
    | bytes payload size => rfl
    | http url size =>
      show (match fromUtf8? (utf8 url) with
        | some url => Except.ok (ArtifactLink.http url size)
        | none => Except.error _) = _
      rw [(fromUtf8?_eq_some _ url).2 rfl]

def expectedDigestBytes (d : ExpectedDigest) : Bytes :=
  [d.discriminant] ++ beBytes (UInt32.ofNat d.digestBytes.length) ++ d.digestBytes

theorem length_digestBytes (d : ExpectedDigest) :
    d.digestBytes.length = 32 ∨ d.digestBytes.length = 64 := by
  obtain ⟨bs, hbs⟩ | ⟨bs, hbs⟩ | ⟨bs, hbs⟩ := d <;> simp [ExpectedDigest.digestBytes, hbs]

theorem encodeExpectedDigest_eq (bytes : Bytes) (d : ExpectedDigest) :
    encodeExpectedDigest bytes d = .ok (bytes ++ expectedDigestBytes d) := by
  have hlen := length_digestBytes d
  have hsmall : ¬ 2 ^ 32 ≤ d.digestBytes.length := by omega
  simp only [encodeExpectedDigest, if_neg hsmall, expectedDigestBytes, append_assoc]
  rfl

theorem exact_decodeExpectedDigest :
    Exact decodeExpectedDigest (fun d bs => bs = expectedDigestBytes d) := by
  refine ((Exact.takeByte _).bind fun disc => (Exact.takeBE _).bind fun len =>
    Exact.reject _ fun _ => (Exact.takeN _ _).bind fun payload =>
      orThrow _ _).congr fun d bs => ?_
  simp only [existsAndEq, and_assoc, true_and, append_nil]
  constructor
  · rintro ⟨disc, len, payload, -, hlen, hd, rfl⟩
    obtain ⟨rfl, rfl⟩ := (ExpectedDigest.fromParts_eq_some _ _ _).1 hd
    simp [expectedDigestBytes, hlen]
  · rintro rfl
    have hlen := length_digestBytes d
    have hn : (UInt32.ofNat d.digestBytes.length).toNat = d.digestBytes.length := by
      rw [UInt32.toNat_ofNat']
      omega
    exact ⟨_, _, _, by rw [hn]; exact not_not.2 hlen, hn.symm,
      (ExpectedDigest.fromParts_eq_some _ _ _).2 ⟨rfl, rfl⟩, by simp [expectedDigestBytes]⟩

theorem exact_linkDigest_decode : Exact LinkDigest.decode (fun d bs => bs = d.encode) := by
  refine ((Exact.takeBlock _ _).bind fun hash => (Exact.takeBE _).bind fun size =>
    pure _).congr fun d bs => ?_
  simp only [existsAndEq, and_assoc, true_and, append_nil]
  constructor
  · rintro ⟨hash, size, rfl, rfl⟩
    rfl
  · rintro rfl
    exact ⟨d.linkHash, d.fileSize, rfl, rfl⟩

/-! ## Layers -/

/-- The link of the layer can be encoded. -/
def LayerFits (layer : Layer U) : Prop := (linkPayload layer.link).length ≤ maxPayloadLen

def layerBytes (layer : Layer U) : Bytes :=
  layer.uuid.1 ++ [linkVariant layer.link]
    ++ beBytes (UInt64.ofNat (linkPayload layer.link).length) ++ linkPayload layer.link
    ++ beBytes (linkSize layer.link) ++ expectedDigestBytes layer.expectedDigest
    ++ layer.linkDigest.encode

theorem toNat_u64_of_le {n : Nat} (h : n ≤ maxPayloadLen) : (UInt64.ofNat n).toNat = n := by
  rw [UInt64.toNat_ofNat']
  unfold maxPayloadLen at h
  omega

theorem encodeLayer_eq_ok (bytes out : Bytes) (layer : Layer U) :
    encodeLayer bytes layer = .ok out ↔ LayerFits layer ∧ out = bytes ++ layerBytes layer := by
  unfold encodeLayer LayerFits
  by_cases hfit : (linkPayload layer.link).length ≤ maxPayloadLen
  · have h64 : ¬ 2 ^ 64 ≤ (linkPayload layer.link).length := by
      unfold maxPayloadLen at hfit
      omega
    simp only [if_neg h64, hfit, not_true, if_false, encodeExpectedDigest_eq, true_and]
    show Except.ok _ = _ ↔ _
    simp [layerBytes, eq_comm]
  · simp only [hfit, not_false_eq_true, if_true, false_and, iff_false]
    split <;> (intro h; cases h)

theorem exact_decodeLayer : Exact (decodeLayer : Reader Panic (Layer U))
      (fun layer bs => LayerFits layer ∧ bs = layerBytes layer) := by
  refine ((Exact.takeBlock _ _).bind fun uuid => (Exact.takeByte _).bind fun variant =>
    (Exact.takeBE _).bind fun len => Exact.reject _ fun _ =>
      (Exact.takeN _ _).bind fun payload => (Exact.takeBE _).bind fun size =>
        (lift _).bind fun link => exact_decodeExpectedDigest.bind fun digest =>
          exact_linkDigest_decode.bind fun ld => pure _).congr fun layer bs => ?_
  simp only [existsAndEq, and_assoc, true_and, append_nil, nil_append, not_not]
  constructor
  · rintro ⟨uuid, variant, len, payload, size, link, digest, ld, hle, hlen, hlink, rfl, rfl⟩
    obtain ⟨rfl, rfl, rfl⟩ := (decodeLink_eq_ok _ _ _ _).1 hlink
    exact ⟨by rwa [LayerFits, hlen], by simp [layerBytes, hlen]⟩
  · rintro ⟨hfit, rfl⟩
    have hn := toNat_u64_of_le hfit
    exact ⟨layer.uuid, _, _, _, _, layer.link, layer.expectedDigest, layer.linkDigest,
      by rwa [hn], hn.symm, (decodeLink_eq_ok _ _ _ _).2 ⟨rfl, rfl, rfl⟩, rfl, by simp [layerBytes]⟩

theorem foldlM_encodeLayer_eq_ok (layers : List (Layer U)) (bytes out : Bytes) :
    layers.foldlM encodeLayer bytes = .ok out ↔
      (∀ layer ∈ layers, LayerFits layer) ∧ out = bytes ++ layers.flatMap layerBytes := by
  induction layers generalizing bytes with
  | nil =>
    show Except.ok bytes = _ ↔ _
    simp [eq_comm]
  | cons layer layers ih =>
    rw [foldlM_cons]
    cases h : encodeLayer bytes layer with
    | error e =>
      constructor
      · intro h'; cases h'
      · rintro ⟨hall, -⟩
        have := (encodeLayer_eq_ok bytes _ layer).2 ⟨hall layer mem_cons_self, rfl⟩
        rw [h] at this
        cases this
    | ok mid =>
      obtain ⟨hfit, rfl⟩ := (encodeLayer_eq_ok _ _ _).1 h
      show layers.foldlM encodeLayer _ = _ ↔ _
      rw [ih]
      simp [hfit]

/-! ## Whole blueprints -/

def extractPathLen : Option (PathBuf U) → Nat
  | none => 0
  | some path => (encodePath path).length

def extractPathBytes (path : PathBuf U) : Bytes :=
  beBytes (UInt64.ofNat (encodePath path).length) ++ encodePath path

def extractBytes : Option (PathBuf U) → Bytes := presenceBytes extractPathBytes

theorem encodeExtract_eq_ok (bytes out : Bytes) (extract : Option (PathBuf U)) :
    encodeExtract bytes extract = .ok out ↔
      extractPathLen extract < 2 ^ 64 ∧ out = bytes ++ extractBytes extract := by
  cases extract with
  | none =>
    show Except.ok _ = _ ↔ _
    simp [extractPathLen, extractBytes, presenceBytes, eq_comm]
  | some path =>
    simp only [encodeExtract, extractPathLen, extractBytes, presenceBytes, extractPathBytes]
    by_cases h : 2 ^ 64 ≤ (encodePath path).length
    · simp only [if_pos h, not_lt.2 h, false_and, iff_false]
      intro h'; cases h'
    · simp only [if_neg h, not_le.1 h, true_and]
      show Except.ok _ = _ ↔ _
      simp [eq_comm]

theorem exact_decodeExtractPath :
    Exact (decodeExtractPath : Reader Panic (PathBuf U)) (fun path bs =>
      (encodePath path).length ≤ maxPayloadLen ∧ bs = extractPathBytes path) := by
  refine ((Exact.takeBE _).bind fun len => Exact.reject _ fun _ => (Exact.takeN _ _).bind
    fun pathBytes => lift _).congr fun path bs => ?_
  simp only [existsAndEq, and_assoc, true_and, append_nil, not_not]
  constructor
  · rintro ⟨len, pathBytes, hle, hlen, hp, rfl⟩
    obtain rfl := (decodePath_eq_ok _ _).1 hp
    exact ⟨by rwa [hlen], by simp [extractPathBytes, hlen]⟩
  · rintro ⟨hfit, rfl⟩
    have hn := toNat_u64_of_le hfit
    exact ⟨_, _, by rwa [hn], hn.symm, (decodePath_eq_ok _ _).2 rfl, rfl⟩

theorem exact_decodeExtract : Exact (decodeExtract : Reader Panic (Option (PathBuf U)))
      (fun extract bs => extractPathLen extract ≤ maxPayloadLen ∧ bs = extractBytes extract) := by
  refine (presence _ _ exact_decodeExtractPath).congr fun extract bs => ?_
  cases extract <;> simp [extractPathLen, extractBytes]

/-- What encoder and decoder agree on: the count and every layer fit. -/
def Blueprint.LayersFit (b : Blueprint U) : Prop :=
  b.layers.length ≤ maxLayerCount ∧ ∀ layer ∈ b.layers, LayerFits layer

/-- The extract path passes the bound that only `decode` checks. -/
def Blueprint.ExtractFits (b : Blueprint U) : Prop := extractPathLen b.extract ≤ maxPayloadLen

def blueprintBytes (b : Blueprint U) : Bytes :=
  [blueprintFormatMarker] ++ b.targetEntryUuid.1 ++ [b.targetEntryNamespace.toBytes]
    ++ beBytes (UInt32.ofNat b.layers.length) ++ b.layers.flatMap layerBytes
    ++ extractBytes b.extract

theorem encode_eq_ok (b : Blueprint U) (out : Bytes) : b.encode = .ok out ↔
      (b.LayersFit ∧ extractPathLen b.extract < 2 ^ 64) ∧ out = blueprintBytes b := by
  unfold Blueprint.encode Blueprint.LayersFit
  by_cases hcount : b.layers.length ≤ maxLayerCount
  · have h32 : ¬ 2 ^ 32 ≤ b.layers.length := by
      unfold maxLayerCount at hcount
      omega
    simp only [if_neg h32, hcount, not_true, if_false, true_and]
    show (b.layers.foldlM encodeLayer _ >>= fun bytes => encodeExtract bytes b.extract) = _ ↔ _
    cases h : b.layers.foldlM encodeLayer ([blueprintFormatMarker] ++ b.targetEntryUuid.1
        ++ [b.targetEntryNamespace.toBytes] ++ beBytes (UInt32.ofNat b.layers.length)) with
    | error e =>
      constructor
      · intro h'; cases h'
      · rintro ⟨⟨hall, -⟩, -⟩
        rw [(foldlM_encodeLayer_eq_ok _ _ _).2 ⟨hall, rfl⟩] at h
        cases h
    | ok mid =>
      obtain ⟨hall, rfl⟩ := (foldlM_encodeLayer_eq_ok _ _ _).1 h
      show encodeExtract _ _ = _ ↔ _
      rw [encodeExtract_eq_ok, and_iff_right hall]
      rfl
  · simp only [hcount, not_false_eq_true, if_true, false_and, iff_false]
    split <;> (intro h; cases h)

theorem exact_decodeBlueprint : Exact (decodeBlueprint : Reader Panic (Blueprint U))
      (fun b bs => (b.LayersFit ∧ b.ExtractFits) ∧ bs = blueprintBytes b) := by
  refine ((Exact.takeByte _).bind fun marker => Exact.reject _ fun _ =>
    (Exact.takeBlock _ _).bind fun uuid => (Exact.takeByte _).bind fun ns =>
      (Exact.orThrow _ _).bind fun ns => (Exact.takeBE _).bind fun count => Exact.reject _ fun _ =>
        (times exact_decodeLayer _).bind fun layers => exact_decodeExtract.bind
          fun extract => pure _).congr fun b bs => ?_
  simp only [existsAndEq, true_and, and_assoc, append_nil, nil_append, not_not]
  constructor
  · rintro ⟨uuid, nsByte, ns, count, layers, extract, hns, hle, hlen, hall, hfit, rfl, rfl⟩
    obtain rfl := (Namespace.fromBytes_eq_some _ _).1 hns
    exact ⟨⟨by rwa [hlen], hall⟩, hfit, by simp [blueprintBytes, hlen]⟩
  · rintro ⟨⟨hcount, hall⟩, hfit, rfl⟩
    have hn : (UInt32.ofNat b.layers.length).toNat = b.layers.length := by
      rw [UInt32.toNat_ofNat']
      unfold maxLayerCount at hcount
      omega
    exact ⟨b.targetEntryUuid, _, b.targetEntryNamespace, _, b.layers, b.extract,
      (Namespace.fromBytes_eq_some _ _).2 rfl, by rwa [hn], hn.symm, hall, hfit, rfl,
      by simp [blueprintBytes]⟩

theorem decode_eq_ok (bytes : Bytes) (b : Blueprint U) : Blueprint.decode bytes = .ok b ↔
      (b.LayersFit ∧ b.ExtractFits) ∧ bytes = blueprintBytes b :=
  exact_decodeBlueprint.runAll_eq_ok _ bytes b

/-- **The blueprint codec.**  On what `encode` accepts, `decode` gives the
blueprint back precisely when the extract path is at most `maxPayloadLen`
bytes; every accepted byte string is the encoding of what it decodes to. -/
theorem blueprint_decode_encode_iff_extractFits :
    (∀ (b : Blueprint U) (bytes : Bytes), b.encode = .ok bytes →
      (Blueprint.decode bytes = .ok b ↔ b.ExtractFits)) ∧
    (∀ (bytes : Bytes) (b : Blueprint U), Blueprint.decode bytes = .ok b →
      b.encode = .ok bytes) := by
  refine ⟨fun b bytes henc => ?_, fun bytes b hdec => ?_⟩
  · obtain ⟨⟨hlayers, -⟩, rfl⟩ := (encode_eq_ok b bytes).1 henc
    rw [decode_eq_ok]
    simp [hlayers]
  · obtain ⟨⟨hlayers, hfit⟩, rfl⟩ := (decode_eq_ok bytes b).1 hdec
    refine (encode_eq_ok b _).2 ⟨⟨hlayers, ?_⟩, rfl⟩
    unfold Blueprint.ExtractFits maxPayloadLen at hfit
    omega

end

def extractOnly (n : Nat) : Blueprint UInt8 where
  targetEntryUuid := default
  targetEntryNamespace := .kernel
  layers := []
  extract := some (List.replicate n 0x61)

/-- An extract path of `2 ^ 32` bytes is encoded, and its encoding is refused. -/
theorem blueprint_overlong_extract : ¬ (∀ bytes, (extractOnly (2 ^ 32)).encode = .ok bytes →
      Blueprint.decode bytes = .ok (extractOnly (2 ^ 32))) := by
  have hlen : ∀ n, extractPathLen (extractOnly n).extract = n := fun n => length_replicate
  have hlayers : ∀ n, (extractOnly n).LayersFit := fun n => ⟨Nat.zero_le _, by simp [extractOnly]⟩
  intro h
  have henc := (encode_eq_ok (extractOnly (2 ^ 32)) _).2 ⟨⟨hlayers _, by rw [hlen]; norm_num⟩, rfl⟩
  have hfit := ((decode_eq_ok _ _).1 (h _ henc)).1.2
  unfold Blueprint.ExtractFits at hfit
  rw [hlen] at hfit
  unfold maxPayloadLen at hfit
  omega

end Jyth
