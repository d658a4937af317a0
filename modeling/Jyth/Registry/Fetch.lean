import Jyth.Registry.Challenge
import Jyth.Registry.Manifest

/-!
# Fetching a manifest

`fetch_manifest` of `ops/registry.rs`: one request and, after a Bearer challenge, one
more.  The digest in the URL is checked instead of the one in the header, and both are
compared as texts (`manifest_identity_iff`).
-/

namespace Jyth.Registry

open Format Segments Option
open Jyth.Image (Report)

/-- A response.  A header that is no text counts as absent; `body` is `none` if it cannot
be read. -/
structure HttpReply where
  status : Nat
  wwwAuthenticate : Option (List Char)
  contentType : Option Text
  contentDigest : Option Text
  body : Option Bytes

/-- A status of the 200s. -/
def HttpReply.success (reply : HttpReply) : Prop := 200 ≤ reply.status ∧ reply.status < 300

instance : DecidablePred HttpReply.success := fun _ => inferInstanceAs (Decidable (_ ∧ _))

/-- The registry at a URL, and the token service.  `host` is the host of the URL, and
`send` answers a request that bears a token or none. -/
structure Network where
  host : Option Text
  send : Option Text → Except Report HttpReply
  bearerToken : BearerChallenge → Except Report Text

/-- The token, and the host it is for. -/
structure TokenState where
  token : Option Text
  host : Option Text

/-- The token goes to no other host than the one it was fetched for. -/
def TokenState.bearer (tokens : TokenState) (net : Network) : Option Text :=
  if tokens.host.isSome ∧ net.host = tokens.host then tokens.token else none

def httpMaxRedirects : Nat := 10

def fetchWithChallenge (hashes : Hashes) (net : Network) (url : Text) (tokens : TokenState)
    (redirectDepth authAttempt : Nat) : Except Report ManifestResponse := do
  failIf (httpMaxRedirects < redirectDepth) (fault .httpRequest "too many redirects")
  let reply ← net.send (tokens.bearer net)
  match if reply.status = 401 then reply.wwwAuthenticate.bind BearerChallenge.parse else none with
  | some challenge =>
    if h : 1 ≤ authAttempt then
      throw (fault .httpStatus "Bearer authentication retry limit exceeded")
    else do
      let token ← net.bearerToken challenge
      fetchWithChallenge hashes net url ⟨some token, net.host⟩ redirectDepth (authAttempt + 1)
  | none =>
    failIf (¬ reply.success) ⟨.httpStatus, none⟩
    match reply.body with
    | some body => acceptManifest hashes url ⟨reply.contentType, reply.contentDigest, body⟩
    | none => do
      let _ ← validateContentDigestHeader reply.contentDigest
      throw ⟨.httpRequest, none⟩
termination_by 1 - authAttempt

def fetchManifest (hashes : Hashes) (net : Network) (url : Text) : Except Report ManifestResponse :=
  fetchWithChallenge hashes net url ⟨none, none⟩ 0 0

variable {hashes : Hashes} {net : Network} {url : Text}

theorem fetch_eq_ok {tokens : TokenState} {depth attempt : Nat} {response : ManifestResponse}
    (h : fetchWithChallenge hashes net url tokens depth attempt = .ok response) :
    ∃ token reply body, net.send token = .ok reply ∧
      acceptManifest hashes url ⟨reply.contentType, reply.contentDigest, body⟩ = .ok response := by
  rw [fetchWithChallenge] at h
  obtain ⟨_, -, h⟩ := bind_eq_ok.1 h
  obtain ⟨reply, hsend, h⟩ := bind_eq_ok.1 h
  split at h
  · split at h
    · cases h
    · next hattempt =>
      obtain ⟨token, -, h⟩ := bind_eq_ok.1 h
      exact fetch_eq_ok h
  · obtain ⟨_, -, h⟩ := bind_eq_ok.1 h
    split at h
    · next body _ => exact ⟨_, reply, body, hsend, h⟩
    · obtain ⟨_, -, h⟩ := bind_eq_ok.1 h
      cases h
termination_by 1 - attempt

theorem fetch_of_success {tokens : TokenState} {reply : HttpReply} {body : Bytes}
    (hsend : net.send (tokens.bearer net) = .ok reply) (hsuccess : reply.success)
    (hbody : reply.body = some body) (attempt : Nat) :
    fetchWithChallenge hashes net url tokens 0 attempt =
      acceptManifest hashes url ⟨reply.contentType, reply.contentDigest, body⟩ := by
  have hstatus : reply.status ≠ 401 := by
    have hupper := hsuccess.2
    omega
  rw [fetchWithChallenge, hsend]
  simp only [failIf, Nat.not_lt_zero, bind, Except.bind, hstatus, hbody, hsuccess,
    not_true_eq_false, ↓reduceIte]

theorem validateContentDigestHeader_eq_ok {header contentDigest : Option Text}
    (h : validateContentDigestHeader header = .ok contentDigest) : contentDigest = header ∧
      ∀ v, header = some v → ∃ expected, parseExpectedDigest v = .ok expected ∧
        algorithmName expected ≠ blake3Name := by
  cases header with
  | none =>
    cases h
    exact ⟨rfl, nofun⟩
  | some value =>
    unfold validateContentDigestHeader at h
    simp only at h
    split at h
    all_goals
      cases h
      try
        next hparse =>
        refine ⟨rfl, fun v hv => ?_⟩
        cases hv
        exact ⟨_, hparse, of_decide_eq_true rfl⟩

theorem not_blake3_of_selector {digest : Text} {expected : ExpectedDigest}
    (hurl : requestedDigestFromUrl url = some digest)
    (hparse : parseExpectedDigest digest = .ok expected) : algorithmName expected ≠ blake3Name := by
  intro hname
  obtain ⟨hex, rfl, -⟩ := parse_eq_ok hparse
  unfold requestedDigestFromUrl at hurl
  obtain ⟨hselector, hsegment⟩ := ite_none_right_eq_some.1 hurl
  rw [some.inj hsegment, hname] at hselector
  cases hselector

theorem algorithmOf_eq {digest : Text} {expected : ExpectedDigest}
    (hparse : parseExpectedDigest digest = .ok expected) :
    algorithmOf digest = algorithmName expected := by
  obtain ⟨hex, rfl, -⟩ := parse_eq_ok hparse
  cases expected <;> rfl

variable {contentDigest : Option Text} {body : Bytes} {e : Text}

/-- The computed digest is compared with the one to be checked as it is spelled. -/
theorem checkBody_eq_ok (he : (requestedDigestFromUrl url <|> contentDigest) = some e) :
    checkBody hashes url contentDigest body = .ok () ↔
      hashes.computeDigest (algorithmOf e) body = some e := by
  simp only [checkBody, he]
  cases hashes.computeDigest (algorithmOf e) body with
  | none =>
    constructor
    · intro h
      cases h
    · intro h
      cases h
  | some computed =>
    simp only [elim_some, pure_bind, failIf_eq_ok, not_not, some.injEq]

/-- A header of the checked algorithm is right just if it is what was computed. -/
theorem hashesTo_header_iff {v d : Text} {expected : ExpectedDigest}
    (hparse : parseExpectedDigest v = .ok expected) (hsha : algorithmName expected ≠ blake3Name)
    (halgorithm : algorithmOf v = algorithmOf d)
    (hcomputed : hashes.computeDigest (algorithmOf d) body = some d) :
    hashes.HashesTo v body ↔ v.map asciiLower = d := by
  rw [← halgorithm, algorithmOf_eq hparse] at hcomputed
  have hverify : hashes.computeDigest _ body = _ ↔ hashes.verify expected body = true :=
    computeDigest_iff_verify hparse hsha
  rw [hcomputed, some.injEq, eq_comm] at hverify
  rw [hverify]
  constructor
  · rintro ⟨other, hother, h⟩
    cases hparse.symm.trans hother
    exact h
  · exact fun h => ⟨expected, hparse, h⟩

theorem not_blake3_of_checked {expected : ExpectedDigest}
    (hvalid : ∀ v, contentDigest = some v → ∃ expected, parseExpectedDigest v = .ok expected ∧
      algorithmName expected ≠ blake3Name)
    (he : (requestedDigestFromUrl url <|> contentDigest) = some e)
    (hparse : parseExpectedDigest e = .ok expected) : algorithmName expected ≠ blake3Name := by
  cases hd : requestedDigestFromUrl url with
  | none =>
    rw [hd] at he
    obtain ⟨other, hother, hsha⟩ := hvalid e he
    cases hparse.symm.trans hother
    exact hsha
  | some d =>
    rw [hd] at he
    cases he
    exact not_blake3_of_selector hd hparse

theorem acceptManifest_eq_ok {reply : ManifestReply}
    (hheader : validateContentDigestHeader reply.contentDigest = .ok contentDigest) :
    acceptManifest hashes url reply =
        .ok ⟨reply.body, mediaTypeOf reply.contentType, contentDigest⟩ ↔
      checkBody hashes url contentDigest reply.body = .ok () := by
  rw [acceptManifest, hheader]
  constructor
  · intro h
    obtain ⟨_, hheader, h⟩ := bind_eq_ok.1 h
    cases hheader
    obtain ⟨_, hok, -⟩ := bind_eq_ok.1 h
    exact hok
  · exact fun h => congrArg (· >>= fun _ => _) h

/-- **Manifest identity.**  A manifest that is returned hashes to the digest in the URL.  It
hashes to the digest returned with it if the URL has none, and else, for one algorithm, just if
the two are the same but for letter case.  A manifest that hashes to the digest to be checked is
accepted just if that one is in lower case. -/
theorem manifest_identity_iff (hashes : Hashes) (net : Network) (url : Text) :
    (∀ response, fetchManifest hashes net url = .ok response →
      (∀ d, requestedDigestFromUrl url = some d → hashes.HashesTo d response.bytes) ∧
      ∀ v, response.contentDigest = some v →
        (requestedDigestFromUrl url = none → hashes.HashesTo v response.bytes) ∧
        ∀ d, requestedDigestFromUrl url = some d → algorithmOf v = algorithmOf d →
          (hashes.HashesTo v response.bytes ↔ v.map asciiLower = d)) ∧
    ∀ tokens attempt reply body contentDigest e, net.send (tokens.bearer net) = .ok reply →
      reply.success → reply.body = some body →
      validateContentDigestHeader reply.contentDigest = .ok contentDigest →
      (requestedDigestFromUrl url <|> contentDigest) = some e → hashes.HashesTo e body →
      (fetchWithChallenge hashes net url tokens 0 attempt =
        .ok ⟨body, mediaTypeOf reply.contentType, contentDigest⟩ ↔ e.map asciiLower = e) := by
  constructor
  · intro response h
    obtain ⟨token, reply, body, hsend, haccept⟩ := fetch_eq_ok h
    obtain ⟨contentDigest, hheader, haccept⟩ := bind_eq_ok.1 haccept
    obtain ⟨_, hcheck, hresponse⟩ := bind_eq_ok.1 haccept
    cases hresponse
    obtain ⟨rfl, hvalid⟩ := validateContentDigestHeader_eq_ok hheader
    refine ⟨fun d hd => hashesTo_of_checkBody hcheck (by rw [hd]; rfl), fun v hv => ⟨fun hd => ?_,
      fun d hd halgorithm => ?_⟩⟩
    · exact hashesTo_of_checkBody hcheck (by rw [hd]; exact hv)
    · obtain ⟨expected, hparse, hsha⟩ := hvalid v hv
      exact hashesTo_header_iff hparse hsha halgorithm
        ((checkBody_eq_ok (by rw [hd]; rfl)).1 hcheck)
  · intro tokens attempt reply body contentDigest e hsend hsuccess hbody hheader he hmatches
    obtain ⟨expected, hparse, hverify⟩ := hmatches
    obtain ⟨rfl, hvalid⟩ := validateContentDigestHeader_eq_ok hheader
    have hsha := not_blake3_of_checked hvalid he hparse
    have haccepted : acceptManifest hashes url ⟨reply.contentType, reply.contentDigest, body⟩ = _ ↔
      _ := acceptManifest_eq_ok hheader
    rw [fetch_of_success hsend hsuccess hbody, haccepted, checkBody_eq_ok he,
      algorithmOf_eq hparse, (computeDigest_iff_verify hparse hsha).2 hverify, some.injEq]

/-! ## A registry with one manifest -/

def answering (header : Option Text) (body : Bytes) : Network where
  host := none
  send _ := .ok ⟨200, none, none, header, some body⟩
  bearerToken _ := .error ⟨.httpRequest, none⟩

/-- A SHA-256 digest that starts with these digits and goes on with zeros. -/
def spelled (digits : String) : Text :=
  utf8 "sha256:" ++ utf8 digits ++ List.replicate (64 - (utf8 digits).length) 0x30

def pinned (digits : String) : Text := utf8 "/manifests/" ++ spelled digits

theorem pinned_manifest_accepted : fetchManifest Sample.hashes
      (answering (some (spelled "ab")) [0xab]) (pinned "ab") =
    .ok ⟨[0xab], [], some (spelled "ab")⟩ := by
  have hurl : requestedDigestFromUrl (pinned "ab") = some (spelled "ab") := by decide +kernel
  refine ((manifest_identity_iff Sample.hashes (answering (some (spelled "ab")) [0xab])
    (pinned "ab")).2 ⟨none, none⟩ 0 _ [0xab] (some (spelled "ab")) (spelled "ab") rfl (by decide)
    rfl (by decide +kernel) (by rw [hurl]; rfl) ?_).2 (by decide +kernel)
  exact ⟨.sha256 (Sample.hashes.sha256 [0xab]), by decide +kernel, by decide +kernel⟩

/-- A digest in the header is returned unchecked next to the one in the URL, and one
in upper case is never met. -/
theorem unchecked_header :
    (∃ response, fetchManifest Sample.hashes (answering (some (spelled "cd")) [0xab])
      (pinned "ab") = .ok response ∧ response.contentDigest = some (spelled "cd") ∧
      ¬ Sample.hashes.HashesTo (spelled "cd") response.bytes) ∧
    Sample.hashes.HashesTo (spelled "AB") [0xab] ∧
      ∀ response, fetchManifest Sample.hashes (answering none [0xab]) (pinned "AB") ≠
        .ok response := by
  have hparse : parseExpectedDigest (spelled "cd") = .ok (.sha256 (Sample.pad 32 [0xcd])) := by
    decide +kernel
  refine ⟨⟨⟨[0xab], [], some (spelled "cd")⟩, ?_, rfl, ?_⟩, ?_, fun response h => ?_⟩
  · exact (fetch_of_success rfl (by decide) rfl 0).trans (by rfl)
  · rintro ⟨expected, hexpected, hverify⟩
    cases hparse.symm.trans hexpected
    exact absurd hverify (by decide +kernel)
  · exact ⟨.sha256 (Sample.hashes.sha256 [0xab]), by decide +kernel, by decide +kernel⟩
  · have hrefused := (fetch_of_success rfl (by decide) rfl 0).symm.trans h
    have hnone : (acceptManifest Sample.hashes (pinned "AB") ⟨none, none, [0xab]⟩).isOk = false := by
      decide +kernel
    rw [hrefused] at hnone
    cases hnone

end Jyth.Registry
