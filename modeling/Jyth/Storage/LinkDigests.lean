import Jyth.Lib.Chunked
import Jyth.Lib.Words
import Jyth.Storage.Types

/-!
# The digests of links

`ArtifactLink::digest` hashes what a local or in-memory link holds, and the URL of an
HTTP link, in the same way, without a mark of the kind of link: an HTTP link and a file
whose content is the URL have one digest (`http_digest_eq_iff`).

`LinkDigestBuilder` has its domain and its fields hashed with their lengths.
-/

namespace Jyth

open Format ArtifactLink

variable {U ε : Type}

/-! ## Links -/

structure FileReadError (U ε : Type) where
  path : PathBuf U
  error : ε
deriving DecidableEq

/-- What opening a path gives: an error, or a file that is read in chunks. -/
abbrev Files (U ε : Type) := PathBuf U → Except ε (Source ε)

/-- The read loop; the hasher has been fed `hashed` so far. -/
def feed (hashed : Bytes) : Source ε → Except ε Bytes
  | [] => .ok hashed
  | .fault e :: _ => .error e
  | .data b bs :: rest => feed (hashed ++ b :: bs) rest

namespace ArtifactLink

def size : ArtifactLink U → BitVec 128
  | .local _ size => size
  | .bytes _ size => size
  | .http _ size => size

/-- What is fed to the hasher. -/
def hashed (files : Files U ε) : ArtifactLink U → Except (FileReadError U ε) Bytes
  | .local path _ =>
    match files path >>= feed [] with
    | .ok hashed => return hashed
    | .error error => throw ⟨path, error⟩
  | .bytes payload _ => return payload
  | .http url _ => return utf8 url

def digest (blake3 : Bytes → Hash) (files : Files U ε) (link : ArtifactLink U) :
    Except (FileReadError U ε) LinkDigest := do
  let hashed ← link.hashed files
  return ⟨blake3 hashed, link.size⟩

/-- The source is an HTTP link. -/
def IsHttp : ArtifactLink U → Prop
  | .http _ _ => True
  | _ => False

/-- The content of a link to a file that can be read, or to bytes in memory. -/
def content (files : Files U ε) : ArtifactLink U → Option Bytes
  | .local path _ =>
    match files path with
    | .ok source => if source.any (fun a => a matches .fault _) then none else some source.bytes
    | .error _ => none
  | .bytes payload _ => some payload
  | .http _ _ => none

end ArtifactLink

theorem feed_eq_ok (hashed result : Bytes) (source : Source ε) : feed hashed source = .ok result ↔
      source.any (fun a => a matches .fault _) = false ∧ result = hashed ++ source.bytes := by
  induction source generalizing hashed with
  | nil => simp [feed, Source.bytes, eq_comm]
  | cons answer rest ih =>
    cases answer with
    | fault e => simp [feed]
    | data b bs => simp [feed, ih, Source.bytes]

theorem hashed_eq_ok (files : Files U ε) {link : ArtifactLink U} (hlink : ¬ link.IsHttp)
    (bytes : Bytes) : link.hashed files = .ok bytes ↔ link.content files = some bytes := by
  cases link with
  | http url size => exact absurd trivial hlink
  | bytes payload size =>
    rw [hashed, content, pure_eq_ok, Option.some.injEq]
  | «local» path size =>
    have hread : (ArtifactLink.local path size).hashed files = .ok bytes ↔
        (files path >>= feed []) = .ok bytes := by
      rw [hashed]
      cases files path >>= feed [] with
      | ok hashed => rw [pure_eq_ok, Except.ok.injEq]
      | error error => simp [throw, throwThe, MonadExceptOf.throw]
    rw [hread, content, bind_eq_ok]
    cases files path with
    | error e => simp
    | ok source =>
      simp only [Except.ok.injEq, exists_eq_left', feed_eq_ok, List.nil_append]
      cases source.any fun a => a matches .fault _ <;> simp [eq_comm]

/-- The hash tells the two inputs apart.  No function onto 32 bytes does so for all
inputs at once. -/
def NoCollision (blake3 : Bytes → Hash) (a b : Bytes) : Prop := blake3 a = blake3 b → a = b

/-- **Kinds of links are not separated.**  As far as the hash tells contents apart, an
HTTP link has the digest of another link just if the URL is the content of that link and
their sizes agree. -/
theorem http_digest_eq_iff (blake3 : Bytes → Hash) (files : Files U ε) (url : String)
    (size : BitVec 128) {link : ArtifactLink U} (hlink : ¬ link.IsHttp)
    (hhash : ∀ bytes, link.content files = some bytes → NoCollision blake3 (utf8 url) bytes) :
    (∃ d, (http url size).digest blake3 files = .ok d ∧ link.digest blake3 files = .ok d) ↔
      link.content files = some (utf8 url) ∧ link.size = size := by
  simp only [digest, bind_eq_ok, pure_eq_ok, hashed_eq_ok files hlink]
  constructor
  · rintro ⟨d, ⟨_, hurl, rfl⟩, bytes, hbytes, hd⟩
    rw [hashed, pure_eq_ok] at hurl
    rw [LinkDigest.mk.injEq] at hd
    subst hurl
    rw [hhash bytes hbytes hd.1.symm]
    exact ⟨hbytes, hd.2⟩
  · rintro ⟨hbytes, rfl⟩
    exact ⟨_, ⟨_, rfl, rfl⟩, _, hbytes, rfl⟩

theorem length_leading (bytes : Bytes) : ((bytes ++ List.replicate 32 0).take 32).length = 32 := by
  simp

/-- A hash for examples: the first 32 bytes. -/
def leading (bytes : Bytes) : Hash := ⟨(bytes ++ List.replicate 32 0).take 32, length_leading bytes⟩

def noPaths : Files UInt8 Unit := fun _ => .error ()

theorem other_bytes_separate :
    ¬ ∃ d, (http "a" 1 : ArtifactLink UInt8).digest leading noPaths = .ok d ∧
      (bytes [0x62] 1 : ArtifactLink UInt8).digest leading noPaths = .ok d := by
  rw [http_digest_eq_iff leading noPaths "a" 1 (id : ¬ (bytes [0x62] 1).IsHttp)]
  · decide
  · intro bytes hbytes hhash
    cases hbytes
    exact absurd hhash (by decide)

/-- Whatever the hash is, the URL `http://a/` and its nine bytes in memory have one digest. -/
theorem url_bytes_collide : (utf8 "http://a/").length = 9 ∧ ∀ blake3, ∃ d,
      (http "http://a/" 9 : ArtifactLink UInt8).digest blake3 noPaths = .ok d ∧
      (bytes (utf8 "http://a/") 9 : ArtifactLink UInt8).digest blake3 noPaths = .ok d :=
  ⟨by decide, fun blake3 => ⟨⟨blake3 (utf8 "http://a/"), 9⟩, rfl, rfl⟩⟩

/-! ## Derived digests -/

structure LinkDigestBuilder where
  hasher : Bytes
deriving DecidableEq

namespace LinkDigestBuilder

def new (domain : Bytes) : LinkDigestBuilder := ⟨prefixed domain⟩

def bytes (b : LinkDigestBuilder) (tag value : Bytes) : LinkDigestBuilder :=
  ⟨b.hasher ++ (prefixed tag ++ prefixed value)⟩

def str (b : LinkDigestBuilder) (tag value : Bytes) : LinkDigestBuilder := b.bytes tag value

def u128 (b : LinkDigestBuilder) (tag : Bytes) (value : BitVec 128) : LinkDigestBuilder :=
  ⟨b.hasher ++ (prefixed tag ++ beBytes value)⟩

def finish (b : LinkDigestBuilder) (blake3 : Bytes → Hash) (fileSize : BitVec 128) : LinkDigest :=
  ⟨blake3 b.hasher, fileSize⟩

end LinkDigestBuilder

end Jyth
