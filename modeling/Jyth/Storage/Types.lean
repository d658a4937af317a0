import Jyth.Lib.Words

/-!
# Stored artifacts: identities, digests, links, blueprints

The domain types of `storage` and `artifact`.  Hashes and UUIDs are byte
blocks of the width the source gives them; nothing here computes a hash.
-/

namespace Jyth

open Format

/-- `Namespace`, with the persisted discriminants `1 … 4`. -/
inductive Namespace
  | kernel | rootfs | layers | modules
deriving DecidableEq

namespace Namespace

def toBytes : Namespace → UInt8
  | kernel => 1
  | rootfs => 2
  | layers => 3
  | modules => 4

def fromBytes : UInt8 → Option Namespace
  | 1 => some kernel
  | 2 => some rootfs
  | 3 => some layers
  | 4 => some modules
  | _ => none

theorem fromBytes_eq_some (v : UInt8) (n : Namespace) : fromBytes v = some n ↔ v = n.toBytes := by
  constructor
  · intro h
    unfold fromBytes at h
    split at h <;> cases h <;> rfl
  · rintro rfl
    cases n <;> rfl

end Namespace

abbrev Uuid := Block 16

abbrev Hash := Block 32

structure ArtifactId where
  namespc : Namespace
  uuid : Uuid
deriving DecidableEq

structure LinkDigest where
  linkHash : Hash
  fileSize : BitVec 128
deriving DecidableEq

structure FileDigest where
  fileHash : Hash
  fileSize : BitVec 128
deriving DecidableEq

inductive ExpectedDigest
  | blake3 (bytes : Block 32)
  | sha256 (bytes : Block 32)
  | sha512 (bytes : Block 64)
deriving DecidableEq

namespace ExpectedDigest

def discriminant : ExpectedDigest → UInt8
  | blake3 _ => 1
  | sha256 _ => 2
  | sha512 _ => 3

def digestBytes : ExpectedDigest → Bytes
  | blake3 bs => bs.1
  | sha256 bs => bs.1
  | sha512 bs => bs.1

def fromParts (disc : UInt8) (bs : Bytes) : Option ExpectedDigest :=
  if h : disc = 1 ∧ bs.length = 32 then some (blake3 ⟨bs, h.2⟩)
  else if h : disc = 2 ∧ bs.length = 32 then some (sha256 ⟨bs, h.2⟩)
  else if h : disc = 3 ∧ bs.length = 64 then some (sha512 ⟨bs, h.2⟩)
  else none

theorem fromParts_eq_some (disc : UInt8) (bs : Bytes) (d : ExpectedDigest) :
    fromParts disc bs = some d ↔ disc = d.discriminant ∧ bs = d.digestBytes := by
  constructor
  · intro h
    unfold fromParts at h
    split at h
    · next hc => cases h; exact ⟨hc.1, rfl⟩
    · split at h
      · next hc => cases h; exact ⟨hc.1, rfl⟩
      · split at h
        · next hc => cases h; exact ⟨hc.1, rfl⟩
        · cases h
  · rintro ⟨rfl, rfl⟩
    obtain ⟨bs, hbs⟩ | ⟨bs, hbs⟩ | ⟨bs, hbs⟩ := d <;>
      simp [fromParts, discriminant, digestBytes, hbs]

end ExpectedDigest

inductive ArtifactType
  | compressed | containerTar | containerCpio | fileBzImage
deriving DecidableEq

inductive ArtifactCompression
  | none | gzip | zstd
deriving DecidableEq

/-- The record of a stored file. -/
structure FileRef where
  uuid : Uuid
  namespc : Namespace
  fileDigest : FileDigest
  artifactType : ArtifactType
  artifactCompression : ArtifactCompression
deriving DecidableEq

/-- The record of a source. -/
structure LinkRef where
  uuid : Uuid
  namespc : Namespace
  linkDigest : LinkDigest
deriving DecidableEq

structure NamespacedLinkDigest where
  namespc : Namespace
  linkDigest : LinkDigest
deriving DecidableEq

structure NamespacedFileDigest where
  namespc : Namespace
  fileDigest : FileDigest
deriving DecidableEq

def FileRef.artifactId (f : FileRef) : ArtifactId := ⟨f.namespc, f.uuid⟩

def FileRef.namespacedDigest (f : FileRef) : NamespacedFileDigest := ⟨f.namespc, f.fileDigest⟩

def LinkRef.artifactId (l : LinkRef) : ArtifactId := ⟨l.namespc, l.uuid⟩

def LinkRef.namespacedDigest (l : LinkRef) : NamespacedLinkDigest := ⟨l.namespc, l.linkDigest⟩

/-! ## Blueprints

A path is the list of its `OsString` units: bytes on Unix, wide characters on
Windows.  The types below are generic in the unit `U`. -/

abbrev PathBuf (U : Type) := List U

/-- Where the bytes of an artifact come from, with the size known for them. -/
inductive ArtifactLink (U : Type)
  | «local» (path : PathBuf U) (size : BitVec 128)
  | bytes (payload : Bytes) (size : BitVec 128)
  | http (url : String) (size : BitVec 128)
deriving DecidableEq

structure Layer (U : Type) where
  uuid : Uuid
  link : ArtifactLink U
  expectedDigest : ExpectedDigest
  linkDigest : LinkDigest
deriving DecidableEq

/-- How an artifact is made from layers. -/
structure Blueprint (U : Type) where
  targetEntryUuid : Uuid
  targetEntryNamespace : Namespace
  layers : List (Layer U)
  extract : Option (PathBuf U)
deriving DecidableEq

def Blueprint.artifactId {U : Type} (b : Blueprint U) : ArtifactId :=
  ⟨b.targetEntryNamespace, b.targetEntryUuid⟩

end Jyth
