import Jyth.Hcs.Journal

/-!
# Access rules of a disk file

`edit_file_dacl` of `security.rs`: the access control list of a VHDX is read, the rule
of a VM's identity is added or taken out, and the list is written back.  A file without
a list grants everything to everyone.

What a list means is Windows' rule: for each right the first rule decides that has
the right, stands for one of the principal's SIDs and is not for inheritance only; a
right without such a rule is denied.  The list is stored as it is written; what the
parent directory passes on when a list is written is left out.

    grant, then revoke, without a rule of the SID: the same rights ↔ the file has a list
    grant: reads and writes ↔ the first rule for each right allows it, or there is none
        and the SID had no rule                                (access_edits_reversible_iff)
-/

namespace Jyth.Hcs

open Format List

structure Sid where
  authority : BitVec 48
  subAuthorities : List UInt32
deriving DecidableEq

/-- `GetLengthSid`. -/
def Sid.length (sid : Sid) : Nat := 8 + 4 * sid.subAuthorities.length

/-- `vm_identity_sid`: the four RIDs are little-endian windows of the GUID's bytes, whose
first three fields are little-endian themselves. -/
def vmIdentitySid (v : VmId) : Sid where
  authority := 5
  subAuthorities :=
    let window (low : Nat) : BitVec 8 := v.extractLsb' low 8
    let swapped (low : Nat) : BitVec 32 :=
      window low ++ window (low + 8) ++ window (low + 16) ++ window (low + 24)
    [83, 1, ⟨v.extractLsb' 96 32⟩, ⟨v.extractLsb' 64 16 ++ v.extractLsb' 80 16⟩, ⟨swapped 32⟩,
      ⟨swapped 0⟩]

inductive AceKind
  | allow | deny
deriving DecidableEq

/-- A rule of an access list. -/
structure Ace where
  kind : AceKind
  /-- The rule came from the parent directory. -/
  inherited : Bool
  /-- The rule is for inheritance only and says nothing of the file itself. -/
  inheritOnly : Bool
  mask : BitVec 32
  sid : Sid
deriving DecidableEq

/-- A header, an access mask and the SID. -/
def Ace.size (ace : Ace) : Nat := 8 + ace.sid.length

/-- The access control list of a file, if it has one. -/
abbrev Dacl := Option (List Ace)

/-! ## Meaning -/

section Meaning

def fileGenericRead : BitVec 32 := 0x00120089
def fileGenericWrite : BitVec 32 := 0x00120116
def fileGenericExecute : BitVec 32 := 0x001200a0
def fileAllAccess : BitVec 32 := 0x001f01ff

def mapGeneric (mask : BitVec 32) : BitVec 32 :=
  let given (bit : Nat) (rights : BitVec 32) : BitVec 32 := if mask.getLsbD bit then rights else 0
  (mask &&& 0x0fffffff) ||| given 31 fileGenericRead ||| given 30 fileGenericWrite |||
    given 29 fileGenericExecute ||| given 28 fileAllAccess

/-- What a rule says of a right of a principal with the SIDs of `token`. -/
def Ace.verdict (token : List Sid) (right : Nat) (ace : Ace) : Option AceKind :=
  if ! ace.inheritOnly && token.contains ace.sid && (mapGeneric ace.mask).getLsbD right then
    some ace.kind
  else none

def Dacl.allows (dacl : Dacl) (token : List Sid) (right : Nat) : Bool :=
  match dacl with
  | none => true
  | some aces => aces.findSome? (Ace.verdict token right) = some .allow

/-- Every right of reading and writing is granted. -/
def Dacl.readsAndWrites (dacl : Dacl) (token : List Sid) : Prop :=
  ∀ right, (fileGenericRead ||| fileGenericWrite).getLsbD right = true →
    dacl.allows token right = true

end Meaning

/-! ## Editing -/

section Edit

def vmDiskAccessMask : BitVec 32 := 0xc0000000

def aclHeaderBytes : Nat := 8

/-- The size of an access control list is a 16-bit number. -/
def maxAclBytes : Nat := 0xffff

def securityReport (message : String) : Text :=
  utf8 "a Windows security descriptor was invalid; " ++ utf8 message

/-- `acl_bytes_in_use`; it stays 0 for a file without a list. -/
def bytesInUse (dacl : Dacl) : Nat :=
  dacl.elim 0 fun aces => aclHeaderBytes + (aces.map Ace.size).sum

/-- The rule that is added. -/
def grantedAce (sid : Sid) : Ace := ⟨.allow, false, false, vmDiskAccessMask, sid⟩

/-- The rules that are copied, in their order. -/
def copied (sid : Sid) (grant : Bool) (aces : List Ace) : List Ace :=
  aces.filter fun ace => ace.sid ≠ sid || grant

def editFileDacl (dacl : Dacl) (sid : Sid) (grant : Bool) : Except Text Dacl :=
  let addedAceSize := 8 + sid.length
  let existingBytes := max (bytesInUse dacl) aclHeaderBytes
  let newAclSize := existingBytes + if grant then addedAceSize else 0
  if maxAclBytes < newAclSize then .error (securityReport "InitializeAcl failed")
  else
    let aces := dacl.getD []
    let alreadyPresent := grant && aces.any (·.sid = sid)
    .ok (some (copied sid grant aces ++
      if grant && ! alreadyPresent then [grantedAce sid] else []))

end Edit

/-! ## Round trip -/

section RoundTrip

variable {sid : Sid} {aces : List Ace} {dacl after : Dacl}

theorem copied_grant (sid : Sid) (aces : List Ace) : copied sid true aces = aces := by
  simp [copied]

theorem copied_of_absent (h : ∀ ace ∈ aces, ace.sid ≠ sid) (grant : Bool) :
    copied sid grant aces = aces := by
  rw [copied, filter_eq_self]
  intro ace hace
  simp [h ace hace]

theorem grant_eq_ok : editFileDacl dacl sid true = .ok after ↔
    max (bytesInUse dacl) aclHeaderBytes + (8 + sid.length) ≤ maxAclBytes ∧
      after = some (dacl.getD [] ++
        if (dacl.getD []).any (·.sid = sid) then [] else [grantedAce sid]) := by
  simp only [editFileDacl, copied_grant, if_true, Bool.true_and]
  split
  · next hlarge =>
    constructor
    · intro h
      cases h
    · intro h
      omega
  · next hfits =>
    rw [Except.ok.injEq, eq_comm]
    by_cases hpresent : ((dacl.getD []).any (·.sid = sid)) = true <;>
      simp [hpresent, Nat.le_of_not_lt hfits]

theorem revoke_eq (h : bytesInUse (some aces) ≤ maxAclBytes) :
    editFileDacl (some aces) sid false = .ok (some (copied sid false aces)) := by
  have hfits : ¬ maxAclBytes < max (bytesInUse (some aces)) aclHeaderBytes := by
    simp only [maxAclBytes, aclHeaderBytes] at h ⊢
    omega
  simp [editFileDacl, hfits]

theorem bytesInUse_append (aces : List Ace) (ace : Ace) :
    bytesInUse (some (aces ++ [ace])) = bytesInUse (some aces) + ace.size := by
  simp [bytesInUse, Nat.add_assoc]

theorem revoke_grant (habsent : ∀ ace ∈ dacl.getD [], ace.sid ≠ sid)
    (hgrant : editFileDacl dacl sid true = .ok after) :
    editFileDacl after sid false = .ok (some (dacl.getD [])) := by
  obtain ⟨hfits, rfl⟩ := grant_eq_ok.1 hgrant
  have hnone : ((dacl.getD []).any (·.sid = sid)) = false := by
    simpa using habsent
  simp only [hnone, Bool.false_eq_true, if_false]
  have hlist : bytesInUse (some (dacl.getD [])) ≤ max (bytesInUse dacl) aclHeaderBytes := by
    cases dacl with
    | none => exact Nat.le_refl _
    | some aces => exact Nat.le_max_left _ _
  have hsize : bytesInUse (some (dacl.getD [] ++ [grantedAce sid])) ≤ maxAclBytes := by
    rw [bytesInUse_append]
    change _ + (8 + sid.length) ≤ _
    omega
  rw [revoke_eq hsize]
  have hcopied : copied sid false (dacl.getD [] ++ [grantedAce sid]) = dacl.getD [] := by
    rw [copied, filter_append]
    change copied sid false _ ++ _ = _
    rw [copied_of_absent habsent]
    simp [grantedAce]
  rw [hcopied]

/-- Without a list everything is allowed, by an empty list nothing. -/
theorem allows_getD_iff : (∀ principal right,
    Dacl.allows (some (dacl.getD [])) principal right = dacl.allows principal right) ↔ dacl ≠ none := by
  cases dacl with
  | none => exact ⟨fun h => absurd (h [] 0) (by decide), fun h => absurd rfl h⟩
  | some aces => exact ⟨fun _ => nofun, fun _ _ _ => rfl⟩

end RoundTrip

/-! ## What a grant gives -/

section Grant

variable {sid : Sid} {aces : List Ace} {token : List Sid} {right : Nat}

theorem mapGeneric_granted : mapGeneric vmDiskAccessMask = fileGenericRead ||| fileGenericWrite := by
  decide

theorem verdict_grantedAce (htoken : sid ∈ token)
    (hright : (fileGenericRead ||| fileGenericWrite).getLsbD right = true) :
    (grantedAce sid).verdict token right = some .allow := by
  refine if_pos ?_
  simp [grantedAce, htoken, mapGeneric_granted, hright]

/-- What the first rule says that decides a right. -/
def decided (aces : List Ace) (token : List Sid) (right : Nat) : Option AceKind :=
  aces.findSome? (Ace.verdict token right)

/-- After a grant a principal with the SID reads and writes just if the first rule that decides
one of these rights allows it; where none decides, the SID must have had no rule at all. -/
theorem grant_readsAndWrites_iff {dacl after : Dacl}
    (hgrant : editFileDacl dacl sid true = .ok after) (htoken : sid ∈ token) :
    after.readsAndWrites token ↔
      ∀ right, (fileGenericRead ||| fileGenericWrite).getLsbD right = true →
        decided (dacl.getD []) token right = some .allow ∨
          decided (dacl.getD []) token right = none ∧ ∀ ace ∈ dacl.getD [], ace.sid ≠ sid := by
  obtain ⟨-, rfl⟩ := grant_eq_ok.1 hgrant
  refine forall_congr' fun right => forall_congr' fun hright => ?_
  rw [Dacl.allows, decide_eq_true_iff, findSome?_append]
  change (decided _ _ _).or _ = _ ↔ _
  cases hfirst : decided (dacl.getD []) token right with
  | some kind => simp
  | none =>
    by_cases hany : ((dacl.getD []).any (·.sid = sid)) = true
    · have hsome : ¬∀ ace ∈ dacl.getD [], ace.sid ≠ sid := by simpa using hany
      simp [hany, hsome]
    · have hnone : ∀ ace ∈ dacl.getD [], ace.sid ≠ sid := by simpa using hany
      rw [if_neg hany, findSome?_singleton, verdict_grantedAce htoken hright]
      exact ⟨fun _ => .inr ⟨rfl, hnone⟩, fun _ => rfl⟩

end Grant

/-! ## Grants and revocations -/

/-- Without a rule of the SID, a grant and a revocation leave every principal's rights as they
were just if the file has a list; and a grant lets the VM read and write just if the list it
finds does not take these rights first. -/
theorem access_edits_reversible_iff (dacl after : Dacl) (sid : Sid) (token : List Sid)
    (hgrant : editFileDacl dacl sid true = .ok after) :
    ((∀ ace ∈ dacl.getD [], ace.sid ≠ sid) → ∃ final, editFileDacl after sid false = .ok final ∧
      ((∀ principal right, final.allows principal right = dacl.allows principal right) ↔
        dacl ≠ none)) ∧
    (sid ∈ token → (after.readsAndWrites token ↔
      ∀ right, (fileGenericRead ||| fileGenericWrite).getLsbD right = true →
        decided (dacl.getD []) token right = some .allow ∨
          decided (dacl.getD []) token right = none ∧ ∀ ace ∈ dacl.getD [], ace.sid ≠ sid)) :=
  ⟨fun habsent => ⟨_, revoke_grant habsent hgrant, allows_getD_iff⟩,
    fun htoken => grant_readsAndWrites_iff hgrant htoken⟩

/-- A list of one rule that gives everything to another SID. -/
def ownerRule : Ace := ⟨.allow, true, false, 0x10000000, ⟨5, [18]⟩⟩

theorem ownerRule_ne : ∀ ace ∈ [ownerRule], ace.sid ≠ vmIdentitySid 1 := by decide

theorem owned_file_edits_reversible :
    (∃ final, editFileDacl (some [ownerRule, grantedAce (vmIdentitySid 1)]) (vmIdentitySid 1) false =
        .ok final ∧ ∀ principal right,
          final.allows principal right = Dacl.allows (some [ownerRule]) principal right) ∧
      Dacl.readsAndWrites (some [ownerRule, grantedAce (vmIdentitySid 1)]) [vmIdentitySid 1] := by
  have hgrant : editFileDacl (some [ownerRule]) (vmIdentitySid 1) true =
      .ok (some [ownerRule, grantedAce (vmIdentitySid 1)]) := by decide
  obtain ⟨hround, hreads⟩ := access_edits_reversible_iff (some [ownerRule]) _ (vmIdentitySid 1)
    [vmIdentitySid 1] hgrant
  obtain ⟨final, hfinal, hrights⟩ := hround ownerRule_ne
  refine ⟨⟨final, hfinal, hrights.2 nofun⟩, (hreads (mem_singleton.2 rfl)).2 fun right _ => ?_⟩
  refine .inr ⟨findSome?_eq_none_iff.2 fun ace hace => if_neg ?_, ownerRule_ne⟩
  simp [mem_singleton.1 hace, ownerRule, vmIdentitySid]

/-- A rule that denies the VM of id 1 what a grant would give. -/
def denyingRule : Ace := ⟨.deny, false, false, vmDiskAccessMask, vmIdentitySid 1⟩

/-- A file without a list is open to everyone; after a grant and a revocation it has an
empty list, and nobody may read it.  And if a rule already denies the VM's SID access, the
grant succeeds and adds nothing. -/
theorem access_edits_irreversible : (∃ after, editFileDacl none (vmIdentitySid 1) true = .ok after ∧
      editFileDacl after (vmIdentitySid 1) false = .ok (some []) ∧
      Dacl.allows none [⟨5, [18]⟩] 0 = true ∧ Dacl.allows (some []) [⟨5, [18]⟩] 0 = false) ∧
    editFileDacl (some [denyingRule]) (vmIdentitySid 1) true = .ok (some [denyingRule]) ∧
      Dacl.allows (some [denyingRule]) [vmIdentitySid 1] 0 = false := by
  refine ⟨⟨some [grantedAce (vmIdentitySid 1)], ?_⟩, ?_⟩
  · decide
  · decide

end Jyth.Hcs
