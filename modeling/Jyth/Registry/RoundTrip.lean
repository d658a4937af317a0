import Jyth.Registry.Components

/-!
# References and their canonical text

A reference is displayed as `host/repository[:tag][@digest]`, and two references are
equal if they are displayed alike.  Parsing that text again gives the reference back if
its host reads as one and a repository of the default host has a namespace (`Located`):
every parsed reference is of this kind, one recovered from a manifest URL need not be
(`canonical_round_trip`).
-/

namespace Jyth.Registry

open Format Segments Scan List

def atSign : UInt8 := 0x40

/-! ## Bytes of the parts -/

variable {b : UInt8} {repository : Text}

section

variable (h : validateRepository repository = .ok ())
include h

theorem mem_ofComponent_of_repository (hb : b ∈ repository) : b = slash ∨ ofComponent b = true := by
  have hjoin : [slash].intercalate (repository.splitOn slash) = repository :=
    intercalate_splitOn slash
  rw [← hjoin] at hb
  rcases mem_intercalate hb with hslash | ⟨component, hmem, hb⟩
  · exact .inl hslash
  · have hcomponent := ((validateRepository_eq_ok repository).1 h component hmem).2
    exact .inr (componentLanguage_over component hcomponent b hb)

theorem not_mem_repository (hslash : b ≠ slash) (hb : ofComponent b = false) : b ∉ repository := by
  intro hmem
  rcases mem_ofComponent_of_repository h hmem with heq | hof
  · exact hslash heq
  · rw [hb] at hof
    cases hof

theorem nil_not_mem_splitOn_repository : [] ∉ repository.splitOn slash :=
  fun hmem => nil_not_mem_componentLanguage ((validateRepository_eq_ok repository).1 h [] hmem).2

end

def ofTag (b : UInt8) : Bool := isAlphanumeric b || b = 0x5f || b = 0x2e || b = 0x2d

theorem validateTag_bytes {tag : Text} (h : validateTag tag = .ok ()) :
    tag ≠ [] ∧ ∀ b ∈ tag, ofTag b = true := by
  cases tag with
  | nil => cases h
  | cons first rest =>
    simp only [validateTag, check_bind_eq_ok, failIf_eq_ok, not_not] at h
    obtain ⟨-, hfirst, hrest⟩ := h
    refine ⟨cons_ne_nil _ _, fun b hb => ?_⟩
    rcases mem_cons.1 hb with rfl | hb
    · simp only [Bool.or_eq_true] at hfirst
      simp only [ofTag, Bool.or_eq_true]
      tauto
    · by_contra hbad
      refine hrest (any_eq_true.2 ⟨b, hb, ?_⟩)
      simpa [ofTag] using hbad

theorem not_mem_tag {tag : Text} (h : validateTag tag = .ok ()) (hb : ofTag b = false) :
    b ∉ tag := by
  intro hmem
  rw [(validateTag_bytes h).2 b hmem] at hb
  cases hb

theorem validateDigest_bytes {digest : Text} (h : validateDigest digest = .ok ()) :
    digest ≠ [] ∧ slash ∉ digest := by
  rw [validateDigest, bind_eq_ok] at h
  obtain ⟨⟨algorithm, hex⟩, hcut, h⟩ := h
  cases hsplit : splitOnce colon digest with
  | none =>
    rw [hsplit] at hcut
    cases hcut
  | some cut =>
    rw [hsplit] at hcut
    cases hcut
    have hdigest := splitOnce_eq_some hsplit
    have hparts : slash ∉ algorithm ∧ hex.all (fun b => (hexValue b).isSome) = true := by
      by_cases h256 : algorithm = sha256Name
      · subst h256
        simp only [↓reduceIte, pure_bind, failIf_eq_ok, not_or, not_not] at h
        exact ⟨by decide, h.2⟩
      by_cases h512 : algorithm = sha512Name
      · subst h512
        simp only [h256, ↓reduceIte, pure_bind, failIf_eq_ok, not_or, not_not] at h
        exact ⟨by decide, h.2⟩
      · simp only [h256, h512, ↓reduceIte] at h
        cases h
    have hslash : slash ∉ hex := by
      intro hmem
      exact absurd (all_eq_true.1 hparts.2 slash hmem) (by decide)
    rw [hdigest]
    refine ⟨by simp, ?_⟩
    simp only [mem_append, mem_cons, not_or]
    exact ⟨hparts.1, by decide, hslash⟩

theorem splitOnceAt_eq_some {sep s front rest : Text} (h : splitOnceAt sep s = some (front, rest)) :
    s = front ++ (sep ++ rest) := by
  induction s generalizing front with
  | nil =>
    rw [splitOnceAt] at h
    split at h
    · next hsep =>
      cases h
      simp [hsep]
    · cases h
  | cons b s ih =>
    rw [splitOnceAt] at h
    split at h
    · next hprefix =>
      cases h
      obtain ⟨rest, hrest⟩ := isPrefixOf_iff_prefix.1 hprefix
      rw [← hrest]
      simp
    · obtain ⟨⟨front', rest'⟩, hcut, heq⟩ := Option.map_eq_some_iff.1 h
      cases heq
      rw [ih hcut, cons_append]

namespace OciReference

/-! ## The canonical text -/

/-- What `build_canonical` appends behind `mark` for a part that is there. -/
def part (mark : UInt8) : Option Text → Text
  | none => []
  | some value => mark :: value

def buildCanonical (host repository : Text) (tag digest : Option Text) : Text :=
  host ++ slash :: repository ++ part colon tag ++ part atSign digest

/-- What is displayed, and compared by `==`. -/
def canonical (r : OciReference) : Text := buildCanonical r.host r.repository r.tag r.digest

/-- What both constructors check of a reference, and what the host of a URL and the first
segment of a path have in common. -/
structure Checked (r : OciReference) : Prop where
  host_ne : r.host ≠ []
  slash_host : slash ∉ r.host
  at_host : atSign ∉ r.host
  repository : validateRepository r.repository = .ok ()
  tag : ∀ t ∈ r.tag, validateTag t = .ok ()
  digest : ∀ d ∈ r.digest, validateDigest d = .ok ()
  pinned : r.tag = none → r.digest ≠ none

/-- The host reads as a host, and Docker Hub's is followed by a namespace. -/
def Located (r : OciReference) : Prop :=
  looksLikeHost r.host = true ∧ (r.host = defaultHost → slash ∈ r.repository)

instance (r : OciReference) : Decidable r.Located := inferInstanceAs (Decidable (_ ∧ _))

variable {r : OciReference}

theorem slash_not_mem_parts (h : r.Checked) : slash ∉ part colon r.tag ++ part atSign r.digest := by
  rw [mem_append, not_or]
  constructor
  · cases htag : r.tag with
    | none => simp [part]
    | some t =>
      have hslash := not_mem_tag (h.tag t htag) (b := slash) (by decide)
      simpa [part, hslash] using (by decide : slash ≠ colon)
  · cases hdigest : r.digest with
    | none => simp [part]
    | some d =>
      have hslash := (validateDigest_bytes (h.digest d hdigest)).2
      simpa [part, hslash] using (by decide : slash ≠ atSign)

/-- No two slashes follow each other, so nothing is taken for a scheme. -/
theorem splitScheme_canonical (h : r.Checked) : splitScheme r.canonical = .ok (none, r.canonical) := by
  cases hcut : splitOnceAt (utf8 "://") r.canonical with
  | none => simp [splitScheme, hcut, pure, Except.pure]
  | some cut =>
    exfalso
    have hsplit := congrArg (splitOn slash) (splitOnceAt_eq_some hcut)
    have htext : cut.1 ++ (utf8 "://" ++ cut.2) =
        (cut.1 ++ [colon]) ++ slash :: (([] : Text) ++ slash :: cut.2) := by
      simp [show utf8 "://" = [colon, slash, slash] from rfl]
    rw [htext, splitOn_append_cons_self, splitOn_append_cons_self, canonical,
      buildCanonical, append_assoc, append_assoc, cons_append,
      splitOn_append_cons_self] at hsplit
    have hnil : ([] : Text) ∈ r.host.splitOn slash ++
        (r.repository ++ (part colon r.tag ++ part atSign r.digest)).splitOn slash := by
      rw [hsplit]
      simp
    obtain ⟨front, last, hfront, hlast⟩ :=
      splitOn_append_of_not_mem r.repository (slash_not_mem_parts h)
    have hnot := nil_not_mem_splitOn_repository h.repository
    rw [hfront, mem_append, mem_singleton, not_or] at hnot
    rw [hlast, splitOn_of_not_mem h.slash_host] at hnil
    simp only [mem_append, mem_singleton, h.host_ne.symm, hnot.1, false_or] at hnil
    exact hnot.2 (append_eq_nil_iff.1 hnil.symm).1.symm

theorem splitDigest_canonical (h : r.Checked) : splitDigest r.canonical =
      .ok (r.host ++ slash :: r.repository ++ part colon r.tag, r.digest) := by
  have hname : atSign ∉ r.host ++ slash :: r.repository ++ part colon r.tag := by
    have hrepository := not_mem_repository h.repository (b := atSign) (by decide) (by decide)
    have htag : atSign ∉ part colon r.tag := by
      cases htag : r.tag with
      | none => simp [part]
      | some t =>
        have hat := not_mem_tag (h.tag t htag) (b := atSign) (by decide)
        simpa [part, hat] using (by decide : atSign ≠ colon)
    simp only [mem_append, mem_cons, not_or]
    exact ⟨⟨h.at_host, by decide, hrepository⟩, htag⟩
  cases hdigest : r.digest with
  | none =>
    have hcut : splitOnce 0x40 r.canonical = none := by
      rw [splitOnce_eq_none, canonical, buildCanonical, hdigest, part, append_nil]
      exact hname
    rw [splitDigest, hcut, canonical, buildCanonical, hdigest]
    simp [part, pure, Except.pure]
  | some d =>
    have hvalid := h.digest d hdigest
    have hcut : splitOnce 0x40 r.canonical =
        some (r.host ++ slash :: r.repository ++ part colon r.tag, d) := by
      rw [canonical, buildCanonical, hdigest]
      exact splitOnce_append hname d
    have hne : r.host ++ slash :: r.repository ++ part colon r.tag ≠ [] := by simp
    rw [splitDigest, hcut]
    simp only [hne, (validateDigest_bytes hvalid).1, hvalid, ne_eq, not_false_eq_true, and_self,
      ↓reduceIte]
    rfl

theorem splitTag_canonical (h : r.Checked) :
    splitTag (r.host ++ slash :: r.repository ++ part colon r.tag) =
      .ok (r.host ++ slash :: r.repository, r.tag) := by
  cases htag : r.tag with
  | some t =>
    have hvalid := h.tag t htag
    have hcolon := not_mem_tag hvalid (b := colon) (by decide)
    have hslash := not_mem_tag hvalid (b := slash) (by decide)
    rw [splitTag, part, rsplitOnce_append hcolon]
    simp [hslash, (validateTag_bytes hvalid).1, pure, Except.pure]
  | none =>
    rw [part, append_nil, splitTag]
    cases hcut : rsplitOnce colon (r.host ++ slash :: r.repository) with
    | none => rfl
    | some cut =>
      obtain ⟨front, last⟩ := cut
      have hcolon : colon ∉ slash :: r.repository := by
        have hrepository := not_mem_repository h.repository (b := colon) (by decide) (by decide)
        simpa [hrepository] using (by decide : colon ≠ slash)
      have hslash : slash ∈ last := by
        rcases append_eq_append_iff.1 (rsplitOnce_eq_some hcut) with
          ⟨between, -, hrest⟩ | ⟨between, -, hrest⟩
        · exact absurd (by rw [hrest]; simp) hcolon
        · cases between with
          | nil =>
            rw [nil_append] at hrest
            exact absurd (cons.inj hrest).1 (by decide)
          | cons b between =>
            rw [(cons.inj hrest).2]
            simp
      simp [hslash, pure, Except.pure]

variable {value : Option Text} {name : Text} {f : Text → Except OciReferenceError Unit}
  {digest tag : Option Text}

theorem option_forM_eq_ok (h : ∀ t ∈ value, f t = .ok ()) : value.forM f = .ok () := by
  cases value with
  | none => rfl
  | some t => exact h t rfl

def withNamespace (host repository : Text) : Text :=
  if host = defaultHost ∧ slash ∉ repository then utf8 "library/" ++ repository else repository

theorem parse_canonical (h : r.Checked) : parse r.canonical = do
      let (host, repository) := splitHost (r.host ++ slash :: r.repository)
      validateRepository (withNamespace host repository)
      return ⟨host, withNamespace host repository, r.tag, r.digest, utf8 "https"⟩ := by
  have hne : r.canonical ≠ [] := by simp [canonical, buildCanonical]
  have htag : (r.tag <|> if r.digest = none then some (utf8 "latest") else none) = r.tag := by
    cases htag : r.tag with
    | some t => rfl
    | none => simp [h.pinned htag]
  have hstep : ∀ {α β : Type} (a : α) (f : α → Except OciReferenceError β),
      ((Except.ok a : Except OciReferenceError α) >>= f) = f a := fun _ _ => rfl
  simp only [parse, failIf, hne, ↓reduceIte, splitScheme_canonical h, hstep,
    splitDigest_canonical h, splitTag_canonical h, option_forM_eq_ok h.tag, htag, withNamespace]
  rfl

variable {host repository : Text}

theorem splitHost_of_slash (h : slash ∉ host) : splitHost (host ++ slash :: repository) =
      if looksLikeHost host then (host, repository)
      else (defaultHost, host ++ slash :: repository) := by
  rw [splitHost, splitOnce_append h]

theorem parse_canonical_of_located (h : r.Checked) (hlocated : r.Located) :
    parse r.canonical = .ok { r with scheme := utf8 "https" } := by
  have hnamespace : withNamespace r.host r.repository = r.repository :=
    if_neg fun hc => hc.2 (hlocated.2 hc.1)
  rw [parse_canonical h, splitHost_of_slash h.slash_host, if_pos hlocated.1]
  simp only [hnamespace, h.repository]
  rfl

/-- Any other is read as a repository of Docker Hub with a component more. -/
theorem canonical_ne_of_not_located (h : r.Checked) (hlocated : ¬ r.Located) {r' : OciReference}
    (hr' : parse r.canonical = .ok r') : r'.canonical ≠ r.canonical := by
  rw [parse_canonical h, splitHost_of_slash h.slash_host] at hr'
  have hlonger : ∀ {host repository : Text},
      (r.host ++ slash :: r.repository).length < (host ++ slash :: repository).length →
      canonical ⟨host, repository, r.tag, r.digest, utf8 "https"⟩ ≠ r.canonical := by
    intro host repository hlt heq
    have hlen := congrArg List.length heq
    simp only [canonical, buildCanonical, length_append, length_cons] at hlen hlt
    omega
  by_cases hhost : looksLikeHost r.host = true
  · rw [if_pos hhost] at hr'
    simp only [check_bind_eq_ok, pure_eq_ok] at hr'
    obtain ⟨-, rfl⟩ := hr'
    have hbare : r.host = defaultHost ∧ slash ∉ r.repository := by
      by_contra hcon
      exact hlocated ⟨hhost, fun hd => by_contra fun hs => hcon ⟨hd, hs⟩⟩
    refine hlonger ?_
    rw [withNamespace, if_pos hbare]
    simp only [length_append, length_cons]
    have : 0 < (utf8 "library/").length := by decide
    omega
  · rw [if_neg hhost] at hr'
    simp only [check_bind_eq_ok, pure_eq_ok] at hr'
    obtain ⟨-, rfl⟩ := hr'
    refine hlonger ?_
    have hslash : slash ∈ r.host ++ slash :: r.repository := by simp
    rw [withNamespace, if_neg fun hc => hc.2 hslash]
    simp only [length_append, length_cons]
    have : 0 < defaultHost.length := by decide
    omega

/-! ## What the constructors make -/

theorem looksLikeHost_ne (h : looksLikeHost host = true) : host ≠ [] := by
  rintro rfl
  exact absurd h (by decide)

theorem splitHost_spec (name : Text) (hat : atSign ∉ name) :
    looksLikeHost (splitHost name).1 = true ∧ slash ∉ (splitHost name).1 ∧
      atSign ∉ (splitHost name).1 := by
  have hdefault : looksLikeHost defaultHost = true ∧ slash ∉ defaultHost ∧ atSign ∉ defaultHost := by
    decide
  cases hcut : splitOnce slash name with
  | none =>
    have heq : splitHost name = (defaultHost, name) := by rw [splitHost, hcut]
    rw [heq]
    exact hdefault
  | some cut =>
    obtain ⟨first, rest⟩ := cut
    have heq : splitHost name =
        if looksLikeHost first then (first, rest) else (defaultHost, name) := by
      rw [splitHost, hcut]
    rw [heq]
    by_cases hhost : looksLikeHost first = true
    · rw [if_pos hhost]
      refine ⟨hhost, not_mem_of_splitOnce hcut, fun hmem => hat ?_⟩
      rw [splitOnce_eq_some hcut]
      exact mem_append_left _ hmem
    · rw [if_neg hhost]
      exact hdefault

theorem splitDigest_spec {reference : Text} (h : splitDigest reference = .ok (name, digest)) :
    atSign ∉ name ∧ ∀ d ∈ digest, validateDigest d = .ok () := by
  unfold splitDigest at h
  cases hcut : splitOnce 0x40 reference with
  | none =>
    rw [hcut] at h
    cases h
    exact ⟨splitOnce_eq_none.1 hcut, by simp⟩
  | some cut =>
    rw [hcut] at h
    by_cases hne : cut.1 ≠ [] ∧ cut.2 ≠ []
    · simp only [if_pos hne, check_bind_eq_ok, pure_eq_ok, Prod.mk.injEq] at h
      obtain ⟨hvalid, rfl, rfl⟩ := h
      exact ⟨not_mem_of_splitOnce hcut, by simpa using hvalid⟩
    · simp only [if_neg hne] at h
      cases h

theorem splitTag_spec (h : splitTag name = .ok (repository, tag)) : repository ⊆ name := by
  unfold splitTag at h
  cases hcut : rsplitOnce colon name with
  | none =>
    rw [hcut] at h
    cases h
    exact List.Subset.refl _
  | some cut =>
    rw [hcut] at h
    by_cases hslash : slash ∈ cut.2
    · simp only [if_pos hslash, pure_eq_ok, Prod.mk.injEq] at h
      exact h.1 ▸ List.Subset.refl _
    · by_cases hne : cut.1 = [] ∨ cut.2 = []
      · simp only [if_neg hslash, if_pos hne] at h
        cases h
      · simp only [if_neg hslash, if_neg hne, pure_eq_ok, Prod.mk.injEq] at h
        obtain ⟨rfl, rfl⟩ := h
        intro b hb
        rw [rsplitOnce_eq_some hcut]
        exact mem_append_left _ hb

theorem of_option_forM_eq_ok (h : value.forM f = .ok ()) : ∀ t ∈ value, f t = .ok () := by
  rintro t rfl
  exact h

theorem slash_mem_withNamespace (h : host = defaultHost) :
    slash ∈ withNamespace host repository := by
  unfold withNamespace
  split
  · exact mem_append_left _ (by decide)
  · next hc => exact by_contra fun hs => hc ⟨h, hs⟩

theorem parse_eq_ok {value : Text} (h : parse value = .ok r) : r.Checked ∧ r.Located := by
  simp only [parse, bind_eq_ok, pure_eq_ok] at h
  obtain ⟨_, -, ⟨scheme, reference⟩, -, ⟨name, digest⟩, hdigest, ⟨repository, tag⟩, htag, ⟨⟩,
    hvalid, ⟨⟩, hrepository, rfl⟩ := h
  obtain ⟨hat, hdigests⟩ := splitDigest_spec hdigest
  obtain ⟨hhost, hslash, hathost⟩ :=
    splitHost_spec repository fun hmem => hat (splitTag_spec htag hmem)
  refine ⟨⟨looksLikeHost_ne hhost, hslash, hathost, hrepository, ?_, hdigests, ?_⟩, hhost,
    slash_mem_withNamespace⟩
  · intro t ht
    cases tag with
    | some t' =>
      obtain rfl := Option.some.inj ht
      exact of_option_forM_eq_ok hvalid t' rfl
    | none =>
      by_cases hd : digest = none
      · have hlatest : utf8 "latest" = t := by simpa [hd] using ht
        rw [← hlatest]
        decide
      · simp [hd] at ht
  · intro hnone
    cases tag with
    | some t => cases hnone
    | none =>
      rintro rfl
      simp at hnone

/-- What the URL parser promises of a host: a domain name or an address. -/
def PlainHosts (parseUrl : Text → Option Url) : Prop :=
  ∀ url parsed host, parseUrl url = some parsed → parsed.host = some host →
    host ≠ [] ∧ slash ∉ host ∧ atSign ∉ host

theorem splitSelector_spec {selector : Text} (h : splitSelector selector = .ok (tag, digest)) :
    (∀ t ∈ tag, validateTag t = .ok ()) ∧ (∀ d ∈ digest, validateDigest d = .ok ()) ∧
      (tag = none → digest ≠ none) := by
  unfold splitSelector at h
  split at h
  · simp only [check_bind_eq_ok, pure_eq_ok, Prod.mk.injEq] at h
    obtain ⟨hvalid, rfl, rfl⟩ := h
    exact ⟨by simp, by simpa using hvalid, by simp⟩
  · simp only [check_bind_eq_ok, pure_eq_ok, Prod.mk.injEq] at h
    obtain ⟨hvalid, rfl, rfl⟩ := h
    exact ⟨by simpa using hvalid, by simp, by simp⟩

theorem plain_withPort (h : host ≠ [] ∧ slash ∉ host ∧ atSign ∉ host) (port : Option UInt16) :
    let full := match port with
      | some port => host ++ [colon] ++ utf8 (toString port.toNat)
      | none => host
    full ≠ [] ∧ slash ∉ full ∧ atSign ∉ full := by
  cases port with
  | none => exact h
  | some port =>
    simp only [mem_append, mem_singleton, not_or]
    exact ⟨by simp [h.1], ⟨⟨h.2.1, by decide⟩, fun hmem => absurd (digit_of_mem_decimal hmem) (by decide)⟩,
      ⟨h.2.2, by decide⟩, fun hmem => absurd (digit_of_mem_decimal hmem) (by decide)⟩

theorem some_of_elim {α : Type} {e : OciReferenceError} {value : Option α} {a : α}
    (h : value.elim (throw e) (pure : α → Except OciReferenceError α) = .ok a) : value = some a := by
  cases value with
  | none => cases h
  | some b =>
    rw [Option.elim_some, pure_eq_ok] at h
    rw [h]

theorem fromManifestUrl_eq_ok {parseUrl : Text → Option Url} (hparse : PlainHosts parseUrl)
    {url : Text} (h : fromManifestUrl parseUrl url = .ok r) : r.Checked := by
  simp only [fromManifestUrl, bind_eq_ok, pure_eq_ok] at h
  obtain ⟨parsed, hparsed, ⟨⟩, -, host, hhost, ⟨⟩, -, ⟨⟩, -, ⟨⟩, hrepository, ⟨tag, digest⟩,
    hselector, rfl⟩ := h
  have hplain := hparse url parsed host (some_of_elim hparsed) (some_of_elim hhost)
  obtain ⟨hne, hslash, hat⟩ := plain_withPort hplain parsed.port
  obtain ⟨htag, hdigest, hpinned⟩ := splitSelector_spec hselector
  exact ⟨hne, hslash, hat, hrepository, htag, hdigest, hpinned⟩

/-- **References and their text.**  A parsed reference comes back from its canonical
text with the same host, repository, tag and digest.  One recovered from a manifest URL
comes back as an equal one just if it is located. -/
theorem canonical_round_trip {parseUrl : Text → Option Url} (hparse : PlainHosts parseUrl)
    (value : Text) :
    (∀ r, parse value = .ok r → ∃ r', parse r.canonical = .ok r' ∧ r'.host = r.host ∧
      r'.repository = r.repository ∧ r'.tag = r.tag ∧ r'.digest = r.digest) ∧
    (∀ r, fromManifestUrl parseUrl value = .ok r →
      ((∃ r', parse r.canonical = .ok r' ∧ r'.canonical = r.canonical) ↔ r.Located)) := by
  refine ⟨fun r hr => ?_, fun r hr => ⟨?_, fun hlocated => ?_⟩⟩
  · obtain ⟨hchecked, hlocated⟩ := parse_eq_ok hr
    exact ⟨_, parse_canonical_of_located hchecked hlocated, rfl, rfl, rfl, rfl⟩
  · rintro ⟨r', hr', hsame⟩
    by_contra hlocated
    exact canonical_ne_of_not_located (fromManifestUrl_eq_ok hparse hr) hlocated hr' hsame
  · exact ⟨_, parse_canonical_of_located (fromManifestUrl_eq_ok hparse hr) hlocated, rfl⟩

/-- A URL parser for examples: every URL leads to the manifest `1` of `x` at `host`. -/
def urlsAt (host : String) (_ : Text) : Option Url :=
  some ⟨utf8 "https", some (utf8 host), none, utf8 "/v2/x/manifests/1"⟩

def manifestAt (host : String) : OciReference :=
  ⟨utf8 host, utf8 "x", some (utf8 "1"), none, utf8 "https"⟩

theorem plainHosts_urlsAt (host : String)
    (h : utf8 host ≠ [] ∧ slash ∉ utf8 host ∧ atSign ∉ utf8 host) : PlainHosts (urlsAt host) := by
  intro url parsed host' hparsed hhost
  cases hparsed
  cases hhost
  exact h

theorem canonical_round_trip_dotted : (∃ r', parse (manifestAt "a.b").canonical = .ok r' ∧
        r'.canonical = (manifestAt "a.b").canonical) ∧
      ∃ r', parse (utf8 "registry-1.docker.io/library/x:latest") = .ok r' ∧
        r'.host = defaultHost ∧ r'.repository = utf8 "library/x" := by
  have htrip := fun value => canonical_round_trip (plainHosts_urlsAt "a.b" (by decide)) value
  have hurl : fromManifestUrl (urlsAt "a.b") [] = .ok (manifestAt "a.b") := by decide
  have hname : parse (utf8 "x") =
      .ok ⟨defaultHost, utf8 "library/x", some (utf8 "latest"), none, utf8 "https"⟩ := by decide
  refine ⟨((htrip []).2 _ hurl).2 (by decide), ?_⟩
  obtain ⟨r', hparse, hhost, hrepository, -⟩ := (htrip (utf8 "x")).1 _ hname
  exact ⟨r', hparse, hhost, hrepository⟩

/-- A host without a dot is read as a component of a repository of Docker Hub. -/
theorem bare_host_misread : fromManifestUrl (urlsAt "registry") [] = .ok (manifestAt "registry") ∧
      (manifestAt "registry").canonical = utf8 "registry/x:1" ∧ parse (utf8 "registry/x:1") =
        .ok ⟨defaultHost, utf8 "registry/x", some (utf8 "1"), none, utf8 "https"⟩ ∧
      canonical ⟨defaultHost, utf8 "registry/x", some (utf8 "1"), none, utf8 "https"⟩ ≠
        (manifestAt "registry").canonical := by
  decide

end OciReference

end Jyth.Registry
