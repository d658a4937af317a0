import Jyth.Registry.Digest

/-!
# OCI references

`OciReference`: parsing a reference, recovering one from a manifest URL, and the
URLs built from it.  The `url` crate's parser is a parameter (`parseUrl`).
-/

namespace Jyth.Registry

open Format Segments

inductive OciReferenceError
  | empty | hasUrlScheme | invalidReference | invalidDigest | unsupportedDigestAlgorithm
  | invalidDigestHex | invalidTag | emptyRepositoryComponent | invalidRepositoryComponent
  | invalidManifestUrl
deriving DecidableEq

/-- A parsed image reference. -/
structure OciReference where
  host : Text
  repository : Text
  tag : Option Text
  digest : Option Text
  scheme : Text
deriving DecidableEq

def defaultHost : Text := utf8 "registry-1.docker.io"

def maxComponentLen : Nat := 255

def maxTagLen : Nat := 128

/-! ## Validation -/

def isLower (b : UInt8) : Bool := 0x61 ≤ b && b ≤ 0x7a

def isUpper (b : UInt8) : Bool := 0x41 ≤ b && b ≤ 0x5a

def isDigit (b : UInt8) : Bool := 0x30 ≤ b && b ≤ 0x39

def isAlphanumeric (b : UInt8) : Bool := isLower b || isUpper b || isDigit b

def validateDigest (digest : Text) : Except OciReferenceError Unit := do
  let (algorithm, hex) ← (splitOnce colon digest).elim (throw .invalidDigest) pure
  let expectedLen ←
    if algorithm = sha256Name then pure 64
    else if algorithm = sha512Name then pure 128
    else throw .unsupportedDigestAlgorithm
  failIf (hex.length ≠ expectedLen ∨ ¬ hex.all fun b => (hexValue b).isSome) .invalidDigestHex

def validateTag : Text → Except OciReferenceError Unit
  | [] => throw .invalidTag
  | first :: rest => do
    failIf (maxTagLen < (first :: rest).length) .invalidTag
    failIf (¬ (isAlphanumeric first || first = 0x5f)) .invalidTag
    failIf (rest.any fun b => ¬ (isAlphanumeric b || b = 0x5f || b = 0x2e || b = 0x2d)) .invalidTag

def inComponent (b : UInt8) : Bool := isLower b || isDigit b

def skipSeparator (b : UInt8) (rest : Text) : Option Text :=
  if b = 0x2e then some rest
  else if b = 0x5f then some (if rest.head? = some 0x5f then rest.tail else rest)
  else if b = 0x2d then some (rest.dropWhile (· = 0x2d))
  else none

/-- The loop over separators and the runs that follow them.  Every round takes
at least a byte, so the length of the text is enough `fuel`. -/
def componentTail : Nat → Text → Bool
  | _, [] => true
  | 0, _ :: _ => false
  | fuel + 1, b :: rest =>
    match skipSeparator b rest with
    | none => false
    | some rest =>
      (rest.head?.any inComponent) && componentTail fuel (rest.dropWhile inComponent)

def validateComponent (component : Text) : Except OciReferenceError Unit := do
  failIf (¬ component.head?.any inComponent) .invalidRepositoryComponent
  failIf (¬ componentTail component.length (component.dropWhile inComponent))
    .invalidRepositoryComponent

def validateRepository (repository : Text) : Except OciReferenceError Unit := do
  failIf (repository = []) .emptyRepositoryComponent
  (repository.splitOn slash).forM fun component => do
    failIf (component = []) .emptyRepositoryComponent
    failIf (maxComponentLen < component.length) .invalidRepositoryComponent
    validateComponent component

/-! ## Parsing -/

def splitOnceAt (sep : Text) : Text → Option (Text × Text)
  | [] => if sep = [] then some ([], []) else none
  | b :: rest =>
    if sep.isPrefixOf (b :: rest) then some ([], (b :: rest).drop sep.length)
    else (splitOnceAt sep rest).map fun cut => (b :: cut.1, cut.2)

def splitScheme (value : Text) : Except OciReferenceError (Option Text × Text) :=
  match splitOnceAt (utf8 "://") value with
  | some (scheme, rest) =>
    if scheme = utf8 "http" ∨ scheme = utf8 "https" then
      if rest = [] then throw .invalidReference else return (some scheme, rest)
    else throw .hasUrlScheme
  | none => return (none, value)

def splitDigest (reference : Text) : Except OciReferenceError (Text × Option Text) :=
  match splitOnce 0x40 reference with
  | some (name, digest) =>
    if name ≠ [] ∧ digest ≠ [] then do
      validateDigest digest
      return (name, some digest)
    else throw .invalidDigest
  | none => return (reference, none)

/-- The last colon separates a tag if no slash follows it. -/
def splitTag (name : Text) : Except OciReferenceError (Text × Option Text) :=
  match rsplitOnce colon name with
  | some (repository, tag) =>
    if slash ∈ tag then return (name, none)
    else if repository = [] ∨ tag = [] then throw .invalidTag
    else return (repository, some tag)
  | none => return (name, none)

def looksLikeHost (first : Text) : Bool :=
  first.contains 0x2e || first.contains colon || first = utf8 "localhost" ||
    (first.head? = some 0x5b && first.contains 0x5d)

def splitHost (repository : Text) : Text × Text :=
  match splitOnce slash repository with
  | none => (defaultHost, repository)
  | some (first, rest) =>
    if looksLikeHost first then (first, rest) else (defaultHost, repository)

namespace OciReference

def parse (value : Text) : Except OciReferenceError OciReference := do
  failIf (value = []) .empty
  let (scheme, reference) ← splitScheme value
  let (name, digest) ← splitDigest reference
  let (repository, tag) ← splitTag name
  tag.forM validateTag
  let (host, repository) := splitHost repository
  let repository :=
    if host = defaultHost ∧ slash ∉ repository then utf8 "library/" ++ repository else repository
  validateRepository repository
  let tag := tag <|> if digest = none then some (utf8 "latest") else none
  return ⟨host, repository, tag, digest, scheme.getD (utf8 "https")⟩

structure Url where
  scheme : Text
  host : Option Text
  port : Option UInt16
  path : Text

def splitSelector (selector : Text) : Except OciReferenceError (Option Text × Option Text) :=
  if (utf8 "sha256:").isPrefixOf selector ∨ (utf8 "sha512:").isPrefixOf selector then do
    validateDigest selector
    return (none, some selector)
  else do
    validateTag selector
    return (some selector, none)

def fromManifestUrl (parseUrl : Text → Option Url) (url : Text) :
    Except OciReferenceError OciReference := do
  let parsed ← (parseUrl url).elim (throw .invalidManifestUrl) pure
  failIf (parsed.scheme ≠ utf8 "https" ∧ parsed.scheme ≠ utf8 "http") .invalidManifestUrl
  let host ← parsed.host.elim (throw .invalidManifestUrl) pure
  let host := match parsed.port with
    | some port => host ++ [colon] ++ utf8 (toString port.toNat)
    | none => host
  let segments := (parsed.path.splitOn slash).filter (· ≠ [])
  failIf (segments.length < 3 ∨ segments.head? ≠ some (utf8 "v2")) .invalidManifestUrl
  -- the last segment called `manifests` is the last but one
  let selector := segments.getLast?.getD []
  failIf (selector = utf8 "manifests" ∨ segments.dropLast.getLast? ≠ some (utf8 "manifests"))
    .invalidManifestUrl
  let repository := [slash].intercalate segments.tail.dropLast.dropLast
  validateRepository repository
  let (tag, digest) ← splitSelector selector
  return ⟨host, repository, tag, digest, parsed.scheme⟩

/-! ## URLs -/

variable (reference : OciReference)

def selector : Text := (reference.digest <|> reference.tag).getD (utf8 "latest")

/-- `{scheme}://{host}/v2/{repo}/` -/
def baseUrl : Text :=
  reference.scheme ++ utf8 "://" ++ reference.host ++ utf8 "/v2/" ++ reference.repository

def manifestUrlForDigest (digest : Text) : Text :=
  reference.baseUrl ++ utf8 "/manifests" ++ slash :: digest

def manifestUrl : Text := reference.manifestUrlForDigest reference.selector

def blobUrl (digest : Text) : Text := reference.baseUrl ++ utf8 "/blobs" ++ slash :: digest

end OciReference

end Jyth.Registry
