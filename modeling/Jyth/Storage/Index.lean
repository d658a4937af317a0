import Jyth.Lib.Run
import Jyth.Lib.Table
import Jyth.Storage.Types

/-!
# The cache index

The redb tables of `storage/index` and the operations of the `ImageStore` port
on them.  A write transaction is one step; a failed call leaves the tables as
they were.  `get_by_link_ref` reads a record, probes its backing bytes and
removes it in a second transaction, so other transactions may come in between:
it is modelled both as one call (`lookup`) and as its two halves
(`beginLookup`, `finishLookup`).

* `index_coherent_iff`: in which runs `FILE_DIGESTS` never points at a record
  with another digest.
* `reservations_stable`: a reservation, once made, is never changed.
-/

namespace Jyth

open Format List Option

inductive IndexError
  | «open» | schemaMismatch | transaction | identityMismatch | namespaceMismatch | entryNotFound
  | artifactMissing | blueprintTargetMismatch | blueprintConflict | missingPrevious
  | fileRefIdentityConflict
deriving DecidableEq

section
variable (U : Type)

/-- The tables of the index; a blueprint's paths have units in `U`. -/
structure Index where
  linkDigests : Table NamespacedLinkDigest ArtifactId
  fileDigests : Table NamespacedFileDigest ArtifactId
  linkRefs : Table ArtifactId LinkRef
  fileRefs : Table ArtifactId FileRef
  blueprints : Table ArtifactId (Blueprint U)

def Index.empty : Index U := ⟨fun _ => none, fun _ => none, fun _ => none, fun _ => none,
  fun _ => none⟩

end

/-! ## Backing bytes -/

inductive ProbeError
  | notFound | other
deriving DecidableEq

/-- What the probes of a cached file answer: `symlink_metadata` (a regular file?
of which length?), opening it, and reading it to its end. -/
structure Backing where
  metadata : Except ProbeError (Bool × Nat)
  opened : Except ProbeError Unit
  contents : Except ProbeError Bytes

/-- `FileRef::path` is determined by the artifact's identity. -/
abbrev Disk := ArtifactId → Backing

inductive StoredFileValidity
  | valid | miss | indeterminate
deriving DecidableEq

def probeFailure : ProbeError → StoredFileValidity
  | .notFound => .miss
  | .other => .indeterminate

section
variable (blake3 : Bytes → Hash)

def storedFileValidity (disk : Disk) (f : FileRef) : StoredFileValidity :=
  let backing := disk f.artifactId
  match backing.metadata with
  | .error e => probeFailure e
  | .ok (isFile, len) =>
    if isFile = false ∨ len ≠ f.fileDigest.fileSize.toNat then .miss
    else
      match backing.opened with
      | .error e => probeFailure e
      | .ok () =>
        match backing.contents with
        | .error e => probeFailure e
        | .ok bytes => if blake3 bytes = f.fileDigest.fileHash then .valid else .miss

end

/-! ## Transactions -/

namespace Index

variable {U : Type}

/-- `link_ref::get_or_create`; `fresh` is what `Uuid::now_v7` returns. -/
def getOrCreate (ix : Index U) (d : NamespacedLinkDigest) (fresh : Uuid) : LinkRef × Index U :=
  let id := (ix.linkDigests d).getD ⟨d.namespc, fresh⟩
  let l := (ix.linkRefs id).getD ⟨id.uuid, d.namespc, d.linkDigest⟩
  (l, { ix with
    linkDigests := ix.linkDigests.insertNew d id
    linkRefs := ix.linkRefs.insertNew id l })

def upsert (ix : Index U) (l : LinkRef) (f : FileRef) : Except IndexError (Index U) :=
  if l.namespc ≠ f.namespc ∨ l.uuid ≠ f.uuid then .error .identityMismatch
  else
    let id := (ix.linkDigests l.namespacedDigest).getD l.artifactId
    .ok { ix with
      linkDigests := ix.linkDigests.insertNew l.namespacedDigest id
      fileDigests := ix.fileDigests.insertNew f.namespacedDigest f.artifactId
      linkRefs := ix.linkRefs.insertNew id l
      fileRefs := ix.fileRefs.insert f.artifactId f }

/-- The digest table after `update`: the new key is added, and the previous one
removed if this identity owned it. -/
def rebindDigest (t : Table NamespacedFileDigest ArtifactId) (previous f : FileRef) :
    Table NamespacedFileDigest ArtifactId :=
  if previous.namespacedDigest = f.namespacedDigest then t
  else
    let t := t.insertNew f.namespacedDigest f.artifactId
    if t previous.namespacedDigest = some f.artifactId then t.remove previous.namespacedDigest
    else t

def update (ix : Index U) (f : FileRef) : Except IndexError (Index U) :=
  match ix.fileRefs f.artifactId with
  | none => .error .missingPrevious
  | some previous =>
    if previous.uuid ≠ f.uuid ∨ previous.namespc ≠ f.namespc then .error .fileRefIdentityConflict
    else .ok { ix with
      fileDigests := rebindDigest ix.fileDigests previous f
      fileRefs := ix.fileRefs.insert f.artifactId f }

def invalidate (ix : Index U) (f : FileRef) : Index U :=
  { ix with
    fileRefs := ix.fileRefs.remove f.artifactId
    fileDigests :=
      if ix.fileDigests f.namespacedDigest = some f.artifactId then
        ix.fileDigests.remove f.namespacedDigest
      else ix.fileDigests }

/-- The second half of `get_by_link_ref`, for the record `f` its read found. -/
def settleLookup (blake3 : Bytes → Hash) (ix : Index U) (disk : Disk) (f : FileRef) :
    Option FileRef × Index U :=
  match storedFileValidity blake3 disk f with
  | .valid => (some f, ix)
  | .miss => (none, ix.invalidate f)
  | .indeterminate => (none, ix)

def getByLinkRef (blake3 : Bytes → Hash) (ix : Index U) (disk : Disk) (l : LinkRef) :
    Option FileRef × Index U :=
  match ix.fileRefs l.artifactId with
  | none => (none, ix)
  | some f => ix.settleLookup blake3 disk f

def getByLinkDigest (ix : Index U) (d : NamespacedLinkDigest) : Option (Blueprint U) :=
  (ix.linkDigests d).bind ix.blueprints

def upsertBlueprint (ix : Index U) (b : Blueprint U) : Blueprint U × Index U :=
  (b, { ix with blueprints := ix.blueprints.insert b.artifactId b })

end Index

/-! ## The store and its clients -/

section
variable (U : Type)

/-- The index, the cached files, and what clients hold: the reservations made,
with the digest asked for, and the records read by lookups still in progress. -/
structure Store where
  index : Index U
  disk : Disk
  reservations : List (NamespacedLinkDigest × LinkRef)
  lookups : List FileRef

/-- The operations of the index. -/
inductive Op
  | reserve (d : NamespacedLinkDigest) (fresh : Uuid)
  | publish (l : LinkRef) (f : FileRef)
  | replace (f : FileRef)
  | lookup (l : LinkRef)
  | beginLookup (l : LinkRef)
  | finishLookup (f : FileRef)
  | readBlueprint (d : NamespacedLinkDigest)
  | publishBlueprint (b : Blueprint U)
  | changeFiles (disk : Disk)

end

namespace Store

variable {U : Type} (blake3 : Bytes → Hash)

def init (disk : Disk) : Store U := ⟨Index.empty U, disk, [], []⟩

def commit (s : Store U) : Except IndexError (Index U) → Store U
  | .ok index => { s with index }
  | .error _ => s

def step (s : Store U) : Op U → Store U
  | .reserve d fresh =>
    let (l, index) := s.index.getOrCreate d fresh
    { s with index, reservations := s.reservations ++ [(d, l)] }
  | .publish l f => s.commit (s.index.upsert l f)
  | .replace f => s.commit (s.index.update f)
  | .lookup l => { s with index := (s.index.getByLinkRef blake3 s.disk l).2 }
  | .beginLookup l => { s with lookups := s.lookups ++ (s.index.fileRefs l.artifactId).toList }
  | .finishLookup f =>
    if f ∈ s.lookups then
      { s with index := (s.index.settleLookup blake3 s.disk f).2, lookups := s.lookups.erase f }
    else s
  | .readBlueprint _ => s
  | .publishBlueprint b => { s with index := (s.index.upsertBlueprint b).2 }
  | .changeFiles disk => { s with disk }

end Store

/-! ## Coherence of the digest table -/

namespace Index

variable {U : Type}

/-- A digest key leads to a record that carries the identity and the digest. -/
def Coherent (ix : Index U) : Prop :=
  ∀ d id, ix.fileDigests d = some id →
    ∃ f, ix.fileRefs id = some f ∧ f.artifactId = id ∧ f.namespacedDigest = d

/-- Dropping the record at the identity of `f`, other than for one with the
digest of `f`, would leave that record's digest key behind. -/
def Orphans (ix : Index U) (f : FileRef) : Prop :=
  ∃ previous, ix.fileRefs f.artifactId = some previous ∧
    previous.namespacedDigest ≠ f.namespacedDigest ∧
    ix.fileDigests previous.namespacedDigest = some f.artifactId

theorem coherent_empty : (empty U).Coherent := by
  intro d id h
  cases h

variable {ix : Index U} {f : FileRef} {ix' : Index U} {l : LinkRef} {d : NamespacedFileDigest}

theorem Coherent.digest_eq (h : ix.Coherent) {id : ArtifactId} (hd : ix.fileDigests d = some id)
    (hf : ix.fileRefs id = some f) : f.namespacedDigest = d := by
  obtain ⟨f', hf', -, hd'⟩ := h d id hd
  rw [hf] at hf'
  cases hf'
  exact hd'

theorem upsert_eq_ok (h : ix.upsert l f = .ok ix') : l.artifactId = f.artifactId ∧
      ix'.fileDigests = ix.fileDigests.insertNew f.namespacedDigest f.artifactId ∧
      ix'.fileRefs = ix.fileRefs.insert f.artifactId f := by
  unfold upsert at h
  split at h
  · cases h
  · next hid =>
    cases h
    rw [not_or, not_not, not_not] at hid
    refine ⟨?_, rfl, rfl⟩
    rw [LinkRef.artifactId, FileRef.artifactId, hid.1, hid.2]

theorem upsert_coherent_iff (hix : ix.Coherent)
    (h : ix.upsert l f = .ok ix') : ix'.Coherent ↔ ¬ ix.Orphans f := by
  obtain ⟨-, hdigests, hrefs⟩ := upsert_eq_ok h
  unfold Coherent
  rw [hdigests, hrefs]
  constructor
  · rintro hco ⟨previous, hprev, hne, howner⟩
    obtain ⟨f', hf', -, hd'⟩ := hco _ _ (Table.insertNew_of_some howner)
    rw [Table.insert_apply, if_pos rfl] at hf'
    cases hf'
    exact hne hd'.symm
  · intro hno d id hd
    rw [Table.insert_apply]
    rcases Table.insertNew_eq_some hd with hd | ⟨rfl, rfl, -⟩
    · split
      · next hid =>
        subst hid
        obtain ⟨previous, hprev, -, rfl⟩ := hix d _ hd
        by_cases hne : previous.namespacedDigest = f.namespacedDigest
        · exact ⟨f, rfl, rfl, hne.symm⟩
        · exact absurd ⟨previous, hprev, hne, hd⟩ hno
      · exact hix d id hd
    · exact ⟨f, if_pos rfl, rfl, rfl⟩

/-- After `update` a digest leads to an identity as before or by the new record,
and the replaced digest no longer leads to the identity. -/
theorem rebindDigest_eq_some {t : Table NamespacedFileDigest ArtifactId} {previous : FileRef} {id : ArtifactId}
    (h : rebindDigest t previous f d = some id) :
    (t d = some id ∨ d = f.namespacedDigest ∧ id = f.artifactId) ∧
      (id = f.artifactId → d = previous.namespacedDigest →
        previous.namespacedDigest = f.namespacedDigest) := by
  unfold rebindDigest at h
  by_cases hsame : previous.namespacedDigest = f.namespacedDigest
  · rw [if_pos hsame] at h
    exact ⟨.inl h, fun _ _ => hsame⟩
  rw [if_neg hsame] at h
  have hold : t.insertNew f.namespacedDigest f.artifactId d = some id →
      t d = some id ∨ d = f.namespacedDigest ∧ id = f.artifactId := by
    intro h
    rcases Table.insertNew_eq_some h with h | ⟨hd, hid, -⟩
    · exact .inl h
    · exact .inr ⟨hd, hid⟩
  by_cases howner : t.insertNew f.namespacedDigest f.artifactId previous.namespacedDigest =
      some f.artifactId
  · simp only [if_pos howner, Table.remove_apply] at h
    by_cases hd : d = previous.namespacedDigest
    · rw [if_pos hd] at h
      cases h
    · rw [if_neg hd] at h
      exact ⟨hold h, fun _ hd' => absurd hd' hd⟩
  · simp only [if_neg howner] at h
    refine ⟨hold h, ?_⟩
    rintro rfl rfl
    exact absurd h howner

theorem update_coherent (hix : ix.Coherent) (h : ix.update f = .ok ix') : ix'.Coherent := by
  unfold update at h
  split at h
  · cases h
  · next previous hprev =>
    split at h
    · cases h
    · cases h
      intro d id hd
      obtain ⟨horigin, hreplaced⟩ := rebindDigest_eq_some hd
      show ∃ f', ix.fileRefs.insert f.artifactId f id = some f' ∧ _
      rw [Table.insert_apply]
      by_cases hid : id = f.artifactId
      · rw [if_pos hid]
        refine ⟨f, rfl, hid.symm, ?_⟩
        rcases horigin with hd | ⟨rfl, -⟩
        · subst hid
          have hprevd := hix.digest_eq hd hprev
          rw [← hreplaced rfl hprevd.symm, hprevd]
        · rfl
      · rw [if_neg hid]
        rcases horigin with hd | ⟨-, hid'⟩
        · exact hix d id hd
        · exact absurd hid' hid

theorem invalidate_coherent_iff (hix : ix.Coherent) (f : FileRef) :
    (ix.invalidate f).Coherent ↔ ¬ ix.Orphans f := by
  constructor
  · rintro hco ⟨previous, hprev, hne, howner⟩
    have hkey : (ix.invalidate f).fileDigests previous.namespacedDigest = some f.artifactId := by
      unfold invalidate
      by_cases hf : ix.fileDigests f.namespacedDigest = some f.artifactId
      · simp only [if_pos hf, Table.remove_apply, if_neg hne, howner]
      · simp only [if_neg hf, howner]
    obtain ⟨f', hf', -, -⟩ := hco _ _ hkey
    change ix.fileRefs.remove f.artifactId f.artifactId = some f' at hf'
    rw [Table.remove_apply, if_pos rfl] at hf'
    cases hf'
  · intro hno d id hd
    have hold : ix.fileDigests d = some id ∧ (d = f.namespacedDigest → id ≠ f.artifactId) := by
      unfold invalidate at hd
      by_cases hf : ix.fileDigests f.namespacedDigest = some f.artifactId
      · simp only [if_pos hf, Table.remove_apply] at hd
        by_cases hdf : d = f.namespacedDigest
        · rw [if_pos hdf] at hd
          cases hd
        · rw [if_neg hdf] at hd
          exact ⟨hd, fun h => absurd h hdf⟩
      · simp only [if_neg hf] at hd
        refine ⟨hd, ?_⟩
        rintro rfl rfl
        exact hf hd
    obtain ⟨f', hf', hid, hd'⟩ := hix d id hold.1
    have hne : id ≠ f.artifactId := by
      rintro rfl
      exact hno ⟨f', hf', fun h => hold.2 (hd'.symm.trans h) rfl, hd'.symm ▸ hold.1⟩
    refine ⟨f', ?_, hid, hd'⟩
    show ix.fileRefs.remove f.artifactId id = some f'
    rw [Table.remove_apply, if_neg hne, hf']

/-- Every record is filed under its own identity. -/
def Keyed (ix : Index U) : Prop := ∀ id f, ix.fileRefs id = some f → f.artifactId = id

theorem keyed_insert {t : Table ArtifactId FileRef} (h : ∀ id f, t id = some f → f.artifactId = id)
    (f : FileRef) : ∀ id f', t.insert f.artifactId f id = some f' → f'.artifactId = id := by
  intro id f' hf'
  rw [Table.insert_apply] at hf'
  by_cases hid : id = f.artifactId
  · rw [if_pos hid] at hf'
    rw [← some.inj hf', hid]
  · rw [if_neg hid] at hf'
    exact h id f' hf'

theorem upsert_keyed (hix : ix.Keyed) (h : ix.upsert l f = .ok ix') : ix'.Keyed := by
  unfold Keyed
  rw [(upsert_eq_ok h).2.2]
  exact keyed_insert hix f

theorem update_keyed (hix : ix.Keyed) (h : ix.update f = .ok ix') : ix'.Keyed := by
  unfold update at h
  split at h
  · cases h
  · split at h
    · cases h
    · cases h
      exact keyed_insert hix f

theorem settleLookup_keyed (hix : ix.Keyed) (blake3 : Bytes → Hash) (disk : Disk)
    (f : FileRef) : (ix.settleLookup blake3 disk f).2.Keyed := by
  unfold settleLookup
  split
  · exact hix
  · intro id f' hf'
    change ix.fileRefs.remove f.artifactId id = some f' at hf'
    rw [Table.remove_apply] at hf'
    by_cases hid : id = f.artifactId
    · rw [if_pos hid] at hf'
      cases hf'
    · rw [if_neg hid] at hf'
      exact hix id f' hf'
  · exact hix

theorem settleLookup_coherent_iff (hix : ix.Coherent) (blake3 : Bytes → Hash)
    (disk : Disk) (f : FileRef) : (ix.settleLookup blake3 disk f).2.Coherent ↔
      (storedFileValidity blake3 disk f = .miss → ¬ ix.Orphans f) := by
  unfold settleLookup
  split
  · next h => simp [h, hix]
  · next h => simp [h, invalidate_coherent_iff hix]
  · next h => simp [h, hix]

theorem getByLinkRef_coherent (hix : ix.Coherent) (hkeyed : ix.Keyed)
    (blake3 : Bytes → Hash) (disk : Disk) (l : LinkRef) :
    (ix.getByLinkRef blake3 disk l).2.Coherent := by
  unfold getByLinkRef
  split
  · exact hix
  · next f hf =>
    refine (settleLookup_coherent_iff hix blake3 disk f).2 fun _ => ?_
    rintro ⟨previous, hprev, hne, -⟩
    rw [hkeyed _ _ hf, hf] at hprev
    cases hprev
    exact hne rfl

end Index

namespace Store

variable {U : Type} (blake3 : Bytes → Hash)

/-- The condition on a step: publishing `f`, or removing it at the end of a
lookup, does not orphan the digest key of another record of its identity. -/
def KeepsDigests (s : Store U) : Op U → Prop
  | .publish l f => l.artifactId = f.artifactId → ¬ s.index.Orphans f
  | .finishLookup f =>
    f ∈ s.lookups → storedFileValidity blake3 s.disk f = .miss → ¬ s.index.Orphans f
  | _ => True

theorem step_keyed (s : Store U) (op : Op U) (hs : s.index.Keyed) :
    (s.step blake3 op).index.Keyed := by
  cases op with
  | publish l f =>
    cases h : s.index.upsert l f with
    | error e => simpa only [step, h, commit] using hs
    | ok ix => simpa only [step, h, commit] using Index.upsert_keyed hs h
  | replace f =>
    cases h : s.index.update f with
    | error e => simpa only [step, h, commit] using hs
    | ok ix => simpa only [step, h, commit] using Index.update_keyed hs h
  | lookup l =>
    show (s.index.getByLinkRef blake3 s.disk l).2.Keyed
    unfold Index.getByLinkRef
    split
    · exact hs
    · exact Index.settleLookup_keyed hs blake3 s.disk _
  | finishLookup f =>
    simp only [step]
    split
    · exact Index.settleLookup_keyed hs blake3 s.disk f
    · exact hs
  | reserve d fresh | beginLookup l | readBlueprint d | publishBlueprint b | changeFiles disk =>
    exact hs

theorem step_coherent_iff (s : Store U) (op : Op U) (hs : s.index.Coherent ∧ s.index.Keyed) :
    (s.step blake3 op).index.Coherent ↔ s.KeepsDigests blake3 op := by
  cases op with
  | publish l f =>
    show (s.commit (s.index.upsert l f)).index.Coherent ↔ (_ → _)
    cases h : s.index.upsert l f with
    | error e =>
      have hid : l.artifactId ≠ f.artifactId := by
        intro hid
        have hns : l.namespc = f.namespc := congrArg ArtifactId.namespc hid
        have huuid : l.uuid = f.uuid := congrArg ArtifactId.uuid hid
        simp [Index.upsert, hns, huuid] at h
      exact iff_of_true hs.1 fun h => absurd h hid
    | ok ix =>
      show ix.Coherent ↔ _
      rw [Index.upsert_coherent_iff hs.1 h]
      exact ⟨fun hno _ => hno, fun hno => hno (Index.upsert_eq_ok h).1⟩
  | replace f =>
    refine iff_of_true ?_ trivial
    show (s.commit (s.index.update f)).index.Coherent
    cases h : s.index.update f with
    | error e => exact hs.1
    | ok ix => exact Index.update_coherent hs.1 h
  | lookup l => exact iff_of_true (Index.getByLinkRef_coherent hs.1 hs.2 _ _ _) trivial
  | finishLookup f =>
    simp only [step, KeepsDigests]
    by_cases hf : f ∈ s.lookups
    · rw [if_pos hf]
      show (s.index.settleLookup blake3 s.disk f).2.Coherent ↔ _
      rw [Index.settleLookup_coherent_iff hs.1]
      exact ⟨fun h _ => h, fun h => h hf⟩
    · rw [if_neg hf]
      exact iff_of_true hs.1 fun h => absurd h hf
  | reserve d fresh | beginLookup l | readBlueprint d | publishBlueprint b | changeFiles disk =>
    exact iff_of_true hs.1 trivial

/-- **Coherence of the index.**  A run from the empty index stays coherent
precisely when none of its steps orphans a digest key. -/
theorem index_coherent_iff (disk : Disk) (ops : List (Op U)) :
    Run.Reached (step blake3) (fun s => s.index.Coherent) (init disk) ops ↔
      Run.Steps (step blake3) (KeepsDigests blake3) (init disk) ops := by
  have hkeyed : (init disk : Store U).index.Keyed := by
    intro id f hf
    cases hf
  exact Run.reached_iff_steps (I := fun s : Store U => s.index.Keyed)
    (fun s op _ hs => step_keyed blake3 s op hs)
    (fun s op _ hi hs => step_coherent_iff blake3 s op ⟨hs, hi⟩) hkeyed Index.coherent_empty

/-! ### A second publication -/

def sizedFile (size : Nat) : FileRef where
  uuid := default
  namespc := .layers
  fileDigest := ⟨default, BitVec.ofNat 128 size⟩
  artifactType := .compressed
  artifactCompression := .none

def zeroLink : LinkRef := ⟨default, .layers, ⟨default, 0⟩⟩

/-- Two files are published one after the other for one reservation. -/
def republish : List (Op UInt8) :=
  [.reserve zeroLink.namespacedDigest default, .publish zeroLink (sizedFile 1),
    .publish zeroLink (sizedFile 2)]

def noFiles : Disk := fun _ => ⟨.error .notFound, .error .notFound, .error .notFound⟩

/-- The digest of the first file still leads to the identity, whose record is
now the second file. -/
theorem republish_not_coherent :
    ¬ Run.Reached (step fun _ => default) (fun s => s.index.Coherent) (init noFiles) republish := by
  intro h
  have hlast := Run.reached_iff_fronts.1 h republish prefix_rfl
  obtain ⟨f, hf, -, hd⟩ := hlast (sizedFile 1).namespacedDigest (sizedFile 1).artifactId rfl
  have hsecond : f = sizedFile 2 := (some.inj hf).symm
  rw [hsecond] at hd
  exact absurd hd (by decide)

end Store

/-! ## Stability of reservations -/

namespace Store

variable {U : Type} (blake3 : Bytes → Hash)

/-- What the port relies on: a fresh UUID was not handed out before, and a
`LinkRef` passed in was. -/
def ClientOk (s : Store U) : Op U → Prop
  | .reserve _ fresh => ∀ r ∈ s.reservations, r.2.uuid ≠ fresh
  | .publish l _ => ∃ d, (d, l) ∈ s.reservations
  | .lookup l => ∃ d, (d, l) ∈ s.reservations
  | .beginLookup l => ∃ d, (d, l) ∈ s.reservations
  | _ => True

/-- The two link tables record exactly the reservations made, one identity for
each digest. -/
structure Reserved (s : Store U) : Prop where
  digests : ∀ d id, s.index.linkDigests d = some id ↔
    ∃ l, (d, l) ∈ s.reservations ∧ l.artifactId = id
  refs : ∀ id l, s.index.linkRefs id = some l ↔
    (l.namespacedDigest, l) ∈ s.reservations ∧ l.artifactId = id
  digest_eq : ∀ d l, (d, l) ∈ s.reservations → l.namespacedDigest = d

namespace Reserved

variable {s : Store U}

variable {d : NamespacedLinkDigest} {l : LinkRef}

variable (h : s.Reserved)
include h

variable (hr : (d, l) ∈ s.reservations)
include hr

theorem linkDigests_eq : s.index.linkDigests d = some l.artifactId :=
  (h.digests d _).2 ⟨l, hr, rfl⟩

theorem linkRefs_eq : s.index.linkRefs l.artifactId = some l := by
  refine (h.refs _ l).2 ⟨?_, rfl⟩
  rw [h.digest_eq d l hr]
  exact hr

theorem ref_unique {l' : LinkRef} (hr' : (d, l') ∈ s.reservations) : l = l' := by
  have hid : l.artifactId = l'.artifactId := by
    have := h.linkDigests_eq hr
    rw [h.linkDigests_eq hr'] at this
    exact (some.inj this).symm
  have := h.linkRefs_eq hr
  rw [hid, h.linkRefs_eq hr'] at this
  exact (some.inj this).symm

theorem digest_unique {d' : NamespacedLinkDigest} {l' : LinkRef} (hr' : (d', l') ∈ s.reservations)
    (hid : l.artifactId = l'.artifactId) : d = d' := by
  have := h.linkRefs_eq hr
  rw [hid, h.linkRefs_eq hr'] at this
  rw [← h.digest_eq d l hr, ← h.digest_eq d' l' hr', some.inj this]

end Reserved

theorem insertNew_same {κ ν : Type} [DecidableEq κ] {t : Table κ ν} {k : κ} {v v' : ν}
    (h : t k = some v') : t.insertNew k v = t := if_pos (by rw [h]; rfl)

variable {d : NamespacedLinkDigest} {s : Store U}

theorem getOrCreate_of_reserved (h : s.Reserved)
    {l : LinkRef} (hr : (d, l) ∈ s.reservations) (fresh : Uuid) :
    s.index.getOrCreate d fresh = (l, s.index) := by
  unfold Index.getOrCreate
  simp only [h.linkDigests_eq hr, getD_some, h.linkRefs_eq hr,
    insertNew_same (h.linkDigests_eq hr), insertNew_same (h.linkRefs_eq hr)]

theorem getOrCreate_of_new (h : s.Reserved) {fresh : Uuid}
    (hfresh : ∀ r ∈ s.reservations, r.2.uuid ≠ fresh) (hd : s.index.linkDigests d = none) :
    s.index.getOrCreate d fresh = (⟨fresh, d.namespc, d.linkDigest⟩, { s.index with
        linkDigests := s.index.linkDigests.insert d ⟨d.namespc, fresh⟩
        linkRefs := s.index.linkRefs.insert ⟨d.namespc, fresh⟩ ⟨fresh, d.namespc, d.linkDigest⟩ }) := by
  have hrefs : s.index.linkRefs ⟨d.namespc, fresh⟩ = none := by
    cases hl : s.index.linkRefs ⟨d.namespc, fresh⟩ with
    | none => rfl
    | some l =>
      obtain ⟨hr, hid⟩ := (h.refs _ l).1 hl
      exact absurd (congrArg ArtifactId.uuid hid) (hfresh _ hr)
  unfold Index.getOrCreate
  simp [hd, hrefs, Table.insertNew]

theorem reserve_new_reserved (h : s.Reserved)
    {fresh : Uuid} (hfresh : ∀ r ∈ s.reservations, r.2.uuid ≠ fresh)
    (hd : s.index.linkDigests d = none) : (s.step blake3 (.reserve d fresh)).Reserved := by
  have hunreserved : ∀ l, (d, l) ∉ s.reservations := by
    intro l hr
    rw [h.linkDigests_eq hr] at hd
    cases hd
  simp only [step, getOrCreate_of_new h hfresh hd]
  refine ⟨fun d' id => ?_, fun id l => ?_, fun d' l hr => ?_⟩
  · simp only [Table.insert_apply, mem_append, mem_singleton, Prod.mk.injEq]
    by_cases hdd : d' = d
    · subst hdd
      rw [if_pos rfl]
      constructor
      · intro hid
        exact ⟨_, .inr ⟨rfl, rfl⟩, some.inj hid⟩
      · rintro ⟨l, hr | ⟨-, rfl⟩, rfl⟩
        · exact absurd hr (hunreserved l)
        · rfl
    · rw [if_neg hdd, h.digests]
      constructor
      · rintro ⟨l, hr, hid⟩
        exact ⟨l, .inl hr, hid⟩
      · rintro ⟨l, hr | ⟨hdd', -⟩, hid⟩
        · exact ⟨l, hr, hid⟩
        · exact absurd hdd' hdd
  · simp only [Table.insert_apply, mem_append, mem_singleton, Prod.mk.injEq]
    by_cases hid : id = ⟨d.namespc, fresh⟩
    · subst hid
      rw [if_pos rfl]
      constructor
      · intro hl
        obtain rfl := some.inj hl
        exact ⟨.inr ⟨rfl, rfl⟩, rfl⟩
      · rintro ⟨hr | ⟨-, rfl⟩, hid⟩
        · exact absurd (congrArg ArtifactId.uuid hid) (hfresh _ hr)
        · rfl
    · rw [if_neg hid, h.refs]
      constructor
      · rintro ⟨hr, hl⟩
        exact ⟨.inl hr, hl⟩
      · rintro ⟨hr | ⟨-, rfl⟩, hl⟩
        · exact ⟨hr, hl⟩
        · exact absurd hl.symm hid
  · simp only [mem_append, mem_singleton, Prod.mk.injEq] at hr
    rcases hr with hr | ⟨rfl, rfl⟩
    · exact h.digest_eq d' l hr
    · rfl

theorem Reserved.of_same {s t : Store U} (h : s.Reserved)
    (hdigests : t.index.linkDigests = s.index.linkDigests)
    (hrefs : t.index.linkRefs = s.index.linkRefs) (hres : ∀ r, r ∈ t.reservations ↔ r ∈ s.reservations) :
    t.Reserved := by
  refine ⟨fun d id => ?_, fun id l => ?_, fun d l hr => ?_⟩
  · rw [hdigests, h.digests]
    simp only [hres]
  · rw [hrefs, h.refs, hres]
  · exact h.digest_eq d l ((hres _).1 hr)

theorem settleLookup_links (ix : Index U) (disk : Disk) (f : FileRef) :
    (ix.settleLookup blake3 disk f).2.linkDigests = ix.linkDigests ∧
      (ix.settleLookup blake3 disk f).2.linkRefs = ix.linkRefs := by
  unfold Index.settleLookup
  split <;> exact ⟨rfl, rfl⟩

theorem upsert_links (h : s.Reserved) {l : LinkRef} (hr : (d, l) ∈ s.reservations) {f : FileRef}
    {ix : Index U} (hix : s.index.upsert l f = .ok ix) :
    ix.linkDigests = s.index.linkDigests ∧ ix.linkRefs = s.index.linkRefs := by
  have hd : l.namespacedDigest = d := h.digest_eq d l hr
  unfold Index.upsert at hix
  split at hix
  · cases hix
  · cases hix
    simp only [hd, h.linkDigests_eq hr, getD_some, insertNew_same (h.linkDigests_eq hr),
      insertNew_same (h.linkRefs_eq hr), and_self]

theorem update_links {ix ix' : Index U} {f : FileRef} (h : ix.update f = .ok ix') :
    ix'.linkDigests = ix.linkDigests ∧ ix'.linkRefs = ix.linkRefs := by
  unfold Index.update at h
  split at h
  · cases h
  · split at h <;> cases h
    exact ⟨rfl, rfl⟩

theorem step_reserved (s : Store U) (op : Op U) (h : s.Reserved) (hop : s.ClientOk op) :
    (s.step blake3 op).Reserved := by
  cases op with
  | reserve d fresh =>
    cases hd : s.index.linkDigests d with
    | none => exact reserve_new_reserved blake3 h hop hd
    | some id =>
      obtain ⟨l, hr, -⟩ := (h.digests d id).1 hd
      simp only [step, getOrCreate_of_reserved h hr]
      refine h.of_same rfl rfl fun r => ?_
      simp only [mem_append, mem_singleton, or_iff_left_iff_imp]
      rintro rfl
      exact hr
  | publish l f =>
    obtain ⟨d, hr⟩ := hop
    cases hix : s.index.upsert l f with
    | error e => simpa only [step, hix, commit] using h
    | ok ix =>
      obtain ⟨hdigests, hrefs⟩ := upsert_links h hr hix
      simp only [step, hix, commit]
      exact h.of_same hdigests hrefs fun _ => Iff.rfl
  | replace f =>
    cases hix : s.index.update f with
    | error e => simpa only [step, hix, commit] using h
    | ok ix =>
      obtain ⟨hdigests, hrefs⟩ := update_links hix
      simp only [step, hix, commit]
      exact h.of_same hdigests hrefs fun _ => Iff.rfl
  | lookup l =>
    simp only [step, Index.getByLinkRef]
    split
    · exact h
    · next f _ =>
      obtain ⟨hdigests, hrefs⟩ := settleLookup_links blake3 s.index s.disk f
      exact h.of_same hdigests hrefs fun _ => Iff.rfl
  | finishLookup f =>
    simp only [step]
    split
    · obtain ⟨hdigests, hrefs⟩ := settleLookup_links blake3 s.index s.disk f
      exact h.of_same hdigests hrefs fun _ => Iff.rfl
    · exact h
  | beginLookup l | publishBlueprint b | changeFiles disk =>
    exact h.of_same rfl rfl fun _ => Iff.rfl
  | readBlueprint d => exact h

theorem init_reserved (disk : Disk) : (init disk : Store U).Reserved := by
  refine ⟨fun d id => ?_, fun id l => ?_, fun d l hr => ?_⟩
  · simp [init, Index.empty]
  · simp [init, Index.empty]
  · simp [init] at hr

theorem step_reservations (s : Store U) (op : Op U) :
    s.reservations <+: (s.step blake3 op).reservations := by
  cases op with
  | reserve d fresh => exact prefix_append _ _
  | publish l f =>
    simp only [step]
    cases s.index.upsert l f <;> exact prefix_rfl
  | replace f =>
    simp only [step]
    cases s.index.update f <;> exact prefix_rfl
  | finishLookup f =>
    simp only [step]
    split <;> exact prefix_rfl
  | lookup l | beginLookup l | readBlueprint d | publishBlueprint b | changeFiles disk =>
    exact prefix_rfl

theorem run_reservations (s : Store U) (ops : List (Op U)) :
    s.reservations <+: (ops.foldl (step blake3) s).reservations := by
  induction ops generalizing s with
  | nil => exact prefix_rfl
  | cons op ops ih => exact (step_reservations blake3 s op).trans (ih _)

/-- **Stable identities.**  Over any run of the port: a reservation hands out a
`LinkRef` with the digest and namespace asked for; one digest always gets the
same one, two digests never share an identity; and whatever has been reserved
at some point of the run is what the tables hold from then on. -/
theorem reservations_stable (disk : Disk) (ops : List (Op U))
    (h : Run.Steps (step blake3) ClientOk (init disk) ops) :
    (∀ r ∈ (ops.foldl (step blake3) (init disk)).reservations, r.2.namespacedDigest = r.1) ∧
    (∀ r ∈ (ops.foldl (step blake3) (init disk)).reservations,
      ∀ r' ∈ (ops.foldl (step blake3) (init disk)).reservations,
        (r.1 = r'.1 → r.2 = r'.2) ∧ (r.2.artifactId = r'.2.artifactId → r.1 = r'.1)) ∧
    (∀ front, front <+: ops → ∀ r ∈ (front.foldl (step blake3) (init disk)).reservations,
      (ops.foldl (step blake3) (init disk)).index.linkDigests r.1 = some r.2.artifactId ∧
      (ops.foldl (step blake3) (init disk)).index.linkRefs r.2.artifactId = some r.2) := by
  have hreached := Run.reached_of_steps (P := Reserved) (step_reserved blake3) (init_reserved disk) h
  have hlast : (ops.foldl (step blake3) (init disk)).Reserved :=
    Run.reached_iff_fronts.1 hreached ops prefix_rfl
  refine ⟨fun r hr => hlast.digest_eq r.1 r.2 hr, fun r hr r' hr' => ⟨?_, ?_⟩, ?_⟩
  · intro hd
    have hr'' : (r.1, r'.2) ∈ (ops.foldl (step blake3) (init disk)).reservations := by
      rw [hd]
      exact hr'
    exact hlast.ref_unique hr hr''
  · intro hid
    exact hlast.digest_unique hr hr' hid
  · rintro front ⟨back, rfl⟩ r hr
    have hr' : r ∈ ((front ++ back).foldl (step blake3) (init disk)).reservations := by
      rw [foldl_append]
      exact (run_reservations blake3 _ back).subset hr
    exact ⟨hlast.linkDigests_eq hr', hlast.linkRefs_eq hr'⟩

/-- Two digests are reserved, the first of them again after a publication and a
failed lookup for it. -/
def reserveAgain : List (Op UInt8) :=
  [.reserve zeroLink.namespacedDigest default, .publish zeroLink (sizedFile 1), .lookup zeroLink,
    .reserve ⟨.kernel, ⟨default, 5⟩⟩ ⟨List.replicate 16 1, rfl⟩,
    .reserve zeroLink.namespacedDigest ⟨List.replicate 16 2, rfl⟩]

theorem reservations_stable_reserveAgain :
    (reserveAgain.foldl (step fun _ => default) (init noFiles)).reservations.map Prod.snd =
        [zeroLink, ⟨⟨List.replicate 16 1, rfl⟩, .kernel, ⟨default, 5⟩⟩, zeroLink] ∧
      (reserveAgain.foldl (step fun _ => default) (init noFiles)).index.linkRefs
        zeroLink.artifactId = some zeroLink := by
  have hok : Run.Steps (step fun _ => default) ClientOk (init noFiles) reserveAgain := by
    refine ⟨?_, ⟨_, mem_cons_self⟩, ⟨_, mem_cons_self⟩, ?_, ?_, trivial⟩
    · intro r hr
      cases hr
    · show ∀ r ∈ [(zeroLink.namespacedDigest, zeroLink)], r.2.uuid ≠ _
      decide
    · show ∀ r ∈ [(zeroLink.namespacedDigest, zeroLink), (_, _)], r.2.uuid ≠ _
      decide
  refine ⟨by decide, ?_⟩
  obtain ⟨-, -, htables⟩ := reservations_stable (fun _ => default) noFiles reserveAgain hok
  exact (htables [.reserve zeroLink.namespacedDigest default] ⟨_, rfl⟩
    (zeroLink.namespacedDigest, zeroLink) mem_cons_self).2

/-! ## Blueprints -/

def published : Op U → Option (Blueprint U)
  | .publishBlueprint b => some b
  | _ => none

theorem step_blueprints (s : Store U) (op : Op U) : (s.step blake3 op).index.blueprints =
    (published op).elim s.index.blueprints fun b => s.index.blueprints.insert b.artifactId b := by
  cases op with
  | publish l f =>
    simp only [step, Index.upsert]
    split <;> rfl
  | replace f =>
    simp only [step, Index.update]
    repeat' split
    all_goals rfl
  | lookup l =>
    simp only [step, Index.getByLinkRef, Index.settleLookup]
    repeat' split
    all_goals rfl
  | finishLookup f =>
    simp only [step, Index.settleLookup]
    repeat' split
    all_goals rfl
  | reserve d fresh | beginLookup l | readBlueprint d | publishBlueprint b | changeFiles disk => rfl

theorem run_blueprints (disk : Disk) (ops : List (Op U)) (id : ArtifactId) :
    (ops.foldl (step blake3) (init disk)).index.blueprints id =
      LastHit.lastWhere (fun b => b.artifactId = id) (ops.filterMap published) := by
  induction ops using reverseRecOn with
  | nil => rfl
  | append_singleton ops op ih =>
    rw [foldl_concat, step_blueprints, filterMap_append]
    cases hop : published op with
    | none => simp [hop, ih]
    | some b =>
      rw [filterMap_cons_some hop, filterMap_nil, LastHit.lastWhere_concat, ← ih]
      simp [Table.insert_apply, eq_comm]

/-- **Blueprints are read as published.**  Over any run of the port, a digest that was reserved
leads to the blueprint that was published last for its identity, or to none. -/
theorem blueprint_last_published (disk : Disk) (ops : List (Op U))
    (h : Run.Steps (step blake3) ClientOk (init disk) ops) {d : NamespacedLinkDigest} {l : LinkRef}
    (hr : (d, l) ∈ (ops.foldl (step blake3) (init disk)).reservations) :
    (ops.foldl (step blake3) (init disk)).index.getByLinkDigest d =
      LastHit.lastWhere (fun b => b.artifactId = l.artifactId) (ops.filterMap published) := by
  have hreached := Run.reached_of_steps (P := Reserved) (step_reserved blake3) (init_reserved disk) h
  have hlast : (ops.foldl (step blake3) (init disk)).Reserved :=
    Run.reached_iff_fronts.1 hreached ops prefix_rfl
  rw [Index.getByLinkDigest, hlast.linkDigests_eq hr, ← run_blueprints blake3 disk ops]
  rfl

def republished : List (Op UInt8) :=
  [.reserve zeroLink.namespacedDigest default, .publishBlueprint ⟨default, .layers, [], none⟩,
    .publishBlueprint ⟨default, .layers, [], some []⟩]

theorem blueprint_last_published_republished :
    (republished.foldl (step fun _ => default) (init noFiles)).index.getByLinkDigest
      zeroLink.namespacedDigest = some ⟨default, .layers, [], some []⟩ := by
  have hok : Run.Steps (step fun _ => default) ClientOk (init noFiles) republished :=
    ⟨fun _ h => absurd h not_mem_nil, trivial, trivial, trivial⟩
  exact blueprint_last_published _ noFiles republished hok (l := zeroLink) mem_cons_self

end Store

end Jyth
