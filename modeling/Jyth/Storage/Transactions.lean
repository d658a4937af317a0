import Jyth.Lib.Attempts
import Jyth.Storage.Index

/-!
# Transactions of the index

`upsert`, `update` and `get_by_link_ref` as the calls of the database they make, any of
which may fail.  A transaction works on tables of its own, which `commit` makes those of
the database.

* `upsertTx_spec`, `updateTx_spec`, `lookupTx_spec`: the calls come to the one-step
  operations of the index, or leave its tables as they were.
* `index_frame`: operations on other identities, failing or not, do not change what a
  lookup of an identity returns.
-/

namespace Jyth

open Effect Format

/-! ## Calls -/

section
variable (U : Type)

/-- The committed tables, and those of the transaction. -/
structure Session where
  tables : Index U
  working : Index U

end

/-- A call to the database. -/
inductive DbCall
  | beginTx | openTable | commit | abort
  | getLinkDigest (d : NamespacedLinkDigest)
  | getFileDigest (d : NamespacedFileDigest)
  | getLinkRef (id : ArtifactId)
  | getFileRef (id : ArtifactId)
  | insertLinkDigest (d : NamespacedLinkDigest) (id : ArtifactId)
  | insertFileDigest (d : NamespacedFileDigest) (id : ArtifactId)
  | insertLinkRef (id : ArtifactId) (l : LinkRef)
  | insertFileRef (id : ArtifactId) (f : FileRef)
  | removeFileDigest (d : NamespacedFileDigest)
  | removeFileRef (id : ArtifactId)

namespace DbCall

abbrev Value : DbCall → Type
  | getLinkDigest _ => Option ArtifactId
  | getFileDigest _ => Option ArtifactId
  | getLinkRef _ => Option LinkRef
  | getFileRef _ => Option FileRef
  | _ => Unit

variable {U : Type}

/-- What a call does unless it fails.  `begin_read` and `begin_write` alike give the
transaction the tables of the database. -/
def answer : (c : DbCall) → Session U → c.Value × Session U
  | beginTx, s => ((), { s with working := s.tables })
  | openTable, s => ((), s)
  | commit, s => ((), { s with tables := s.working })
  | abort, s => ((), { s with working := s.tables })
  | getLinkDigest d, s => (s.working.linkDigests d, s)
  | getFileDigest d, s => (s.working.fileDigests d, s)
  | getLinkRef id, s => (s.working.linkRefs id, s)
  | getFileRef id, s => (s.working.fileRefs id, s)
  | insertLinkDigest d id, s =>
    ((), { s with working.linkDigests := s.working.linkDigests.insert d id })
  | insertFileDigest d id, s =>
    ((), { s with working.fileDigests := s.working.fileDigests.insert d id })
  | insertLinkRef id l, s => ((), { s with working.linkRefs := s.working.linkRefs.insert id l })
  | insertFileRef id f, s => ((), { s with working.fileRefs := s.working.fileRefs.insert id f })
  | removeFileDigest d, s =>
    ((), { s with working.fileDigests := s.working.fileDigests.remove d })
  | removeFileRef id, s => ((), { s with working.fileRefs := s.working.fileRefs.remove id })

end DbCall

abbrev Tx := Fallible DbCall DbCall.Value IndexError

abbrev db (c : DbCall) : Tx c.Value := perform c

/-! ## Operations -/

def resolveLink (l : LinkRef) : Tx ArtifactId := do
  let resolved : Option ArtifactId ← db (.getLinkDigest l.namespacedDigest)
  match resolved with
  | some id => return id
  | none =>
    db (.insertLinkDigest l.namespacedDigest l.artifactId)
    return l.artifactId

def claimDigest (f : FileRef) : Tx Unit := do
  let present : Option ArtifactId ← db (.getFileDigest f.namespacedDigest)
  match present with
  | some _ => return ()
  | none => db (.insertFileDigest f.namespacedDigest f.artifactId)

def keepLink (id : ArtifactId) (l : LinkRef) : Tx Unit := do
  let present : Option LinkRef ← db (.getLinkRef id)
  match present with
  | some _ => return ()
  | none => db (.insertLinkRef id l)

def upsertTx (l : LinkRef) (f : FileRef) : Tx Unit :=
  if l.namespc ≠ f.namespc ∨ l.uuid ≠ f.uuid then throw .identityMismatch
  else do
    db .beginTx
    db .openTable
    db .openTable
    db .openTable
    db .openTable
    let id ← resolveLink l
    claimDigest f
    keepLink id l
    db (.insertFileRef f.artifactId f)
    db .commit

def releaseDigest (d : NamespacedFileDigest) (id : ArtifactId) : Tx Unit := do
  let owner : Option ArtifactId ← db (.getFileDigest d)
  if owner = some id then db (.removeFileDigest d) else return ()

def rebindTx (previous f : FileRef) : Tx Unit :=
  if previous.namespacedDigest ≠ f.namespacedDigest then do
    claimDigest f
    releaseDigest previous.namespacedDigest f.artifactId
  else return ()

def updateTx (f : FileRef) : Tx FileRef := do
  db .beginTx
  db .openTable
  db .openTable
  let previous : Option FileRef ← db (.getFileRef f.artifactId)
  match previous with
  | none =>
    db .abort
    throw .missingPrevious
  | some previous =>
    if previous.uuid ≠ f.uuid ∨ previous.namespc ≠ f.namespc then
      db .abort
      throw .fileRefIdentityConflict
    else
      rebindTx previous f
      db (.insertFileRef f.artifactId f)
      db .commit
      return f

def invalidateTx (f : FileRef) : Tx Unit := do
  db .beginTx
  db .openTable
  db .openTable
  db (.removeFileRef f.artifactId)
  releaseDigest f.namespacedDigest f.artifactId
  db .commit

def settleTx (blake3 : Bytes → Hash) (disk : Disk) (f : FileRef) : Tx (Option FileRef) :=
  match storedFileValidity blake3 disk f with
  | .valid => return some f
  | .miss => do
    invalidateTx f
    return none
  | .indeterminate => return none

def lookupTx (blake3 : Bytes → Hash) (disk : Disk) (l : LinkRef) : Tx (Option FileRef) := do
  db .beginTx
  db .openTable
  let found : Option FileRef ← db (.getFileRef l.artifactId)
  match found with
  | none => return none
  | some f => settleTx blake3 disk f

/-! ## What they come to -/

section
variable {U α : Type} {ix : Index U} {w : Index U}

/-- A failure has left the tables as they were; a success has led to `after`. -/
def Settles (ix : Index U) (after : α → Index U → Prop) : Except IndexError α → Session U → Prop
  | .error _, s => s.tables = ix
  | .ok a, s => after a s.tables

/-- Within a transaction: the tables of the database stay, and a success has led the working
tables to `after`. -/
def Works (ix : Index U) (after : α → Index U → Prop) : Except IndexError α → Session U → Prop
  | .error _, s => s.tables = ix
  | .ok a, s => s.tables = ix ∧ after a s.working

open DbCall

theorem resolveLink_spec (l : LinkRef) : Guarded answer .transaction (Works ix fun id ix' =>
      id = (w.linkDigests l.namespacedDigest).getD l.artifactId ∧
      ix' = { w with linkDigests := w.linkDigests.insertNew l.namespacedDigest id })
      (resolveLink l) ⟨ix, w⟩ := by
  unfold resolveLink
  refine Guarded.then rfl ?_
  simp only [answer]
  cases h : w.linkDigests l.namespacedDigest with
  | some id => exact ⟨rfl, by simp, by simp [Table.insertNew, h]⟩
  | none => exact ⟨rfl, rfl, by simp, by simp [Table.insertNew, h, answer]⟩

theorem claimDigest_spec (f : FileRef) : Guarded answer .transaction (Works ix fun _ ix' =>
      ix' = { w with fileDigests := w.fileDigests.insertNew f.namespacedDigest f.artifactId })
      (claimDigest f) ⟨ix, w⟩ := by
  unfold claimDigest
  refine Guarded.then rfl ?_
  simp only [answer]
  cases h : w.fileDigests f.namespacedDigest with
  | some id => exact ⟨rfl, by simp [Table.insertNew, h]⟩
  | none => exact ⟨rfl, rfl, by simp [Table.insertNew, h, answer]⟩

theorem keepLink_spec (id : ArtifactId) (l : LinkRef) :
    Guarded answer .transaction (Works ix fun _ ix' =>
      ix' = { w with linkRefs := w.linkRefs.insertNew id l }) (keepLink id l) ⟨ix, w⟩ := by
  unfold keepLink
  refine Guarded.then rfl ?_
  simp only [answer]
  cases h : w.linkRefs id with
  | some l' => exact ⟨rfl, by simp [Table.insertNew, h]⟩
  | none => exact ⟨rfl, rfl, by simp [Table.insertNew, h, answer]⟩

theorem releaseDigest_spec (d : NamespacedFileDigest) (id : ArtifactId) :
    Guarded answer .transaction (Works ix fun _ ix' => ix' = { w with
        fileDigests := if w.fileDigests d = some id then w.fileDigests.remove d else w.fileDigests })
      (releaseDigest d id) ⟨ix, w⟩ := by
  unfold releaseDigest
  refine Guarded.then rfl ?_
  show Guarded _ _ _ (if w.fileDigests d = some id then db (.removeFileDigest d) else pure ()) _
  by_cases h : w.fileDigests d = some id
  · simp only [if_pos h]
    exact ⟨rfl, rfl, rfl⟩
  · simp only [if_neg h]
    exact ⟨rfl, rfl⟩

theorem Works.guarded {β : Type} {p : Tx β} {f : β → Tx α} {after : β → Index U → Prop}
    {Q : Except IndexError α → Session U → Prop}
    (hp : Guarded answer .transaction (Works ix after) p ⟨ix, w⟩)
    (herror : ∀ e s, s.tables = ix → Q (.error e) s)
    (hok : ∀ b w', after b w' → Guarded answer .transaction Q (f b) ⟨ix, w'⟩) :
    Guarded answer .transaction Q (p >>= f) ⟨ix, w⟩ := by
  refine Guarded.bind hp herror ?_
  rintro b ⟨tables, working⟩ ⟨rfl, hafter⟩
  exact hok b working hafter

theorem settles_error {after : α → Index U → Prop} (e : IndexError) (s : Session U)
    (h : s.tables = ix) : Settles ix after (.error e) s := h

theorem rebindTx_spec (previous f : FileRef) : Guarded answer .transaction (Works ix fun _ ix' =>
      ix' = { w with fileDigests := Index.rebindDigest w.fileDigests previous f })
      (rebindTx previous f) ⟨ix, w⟩ := by
  unfold rebindTx Index.rebindDigest
  by_cases hsame : previous.namespacedDigest = f.namespacedDigest
  · rw [if_neg (not_not.2 hsame)]
    exact ⟨rfl, by rw [if_pos hsame]⟩
  · rw [if_pos hsame]
    refine Works.guarded (claimDigest_spec f) (fun _ _ h => h) ?_
    rintro _ _ rfl
    simp only [if_neg hsame]
    exact releaseDigest_spec _ _

theorem upsertTx_spec (l : LinkRef) (f : FileRef) :
    Guarded answer .transaction (Settles ix fun _ ix' => ix.upsert l f = .ok ix')
      (upsertTx l f) ⟨ix, w⟩ := by
  unfold upsertTx
  by_cases hid : l.namespc ≠ f.namespc ∨ l.uuid ≠ f.uuid
  · rw [if_pos hid]
    exact settles_error _ _ rfl
  rw [if_neg hid]
  refine Guarded.then rfl (Guarded.then rfl (Guarded.then rfl (Guarded.then rfl (Guarded.then rfl ?_))))
  refine Works.guarded (resolveLink_spec l) settles_error ?_
  rintro id _ ⟨hlink, rfl⟩
  refine Works.guarded (claimDigest_spec f) settles_error ?_
  rintro _ _ rfl
  refine Works.guarded (keepLink_spec id l) settles_error ?_
  rintro _ _ rfl
  refine Guarded.then rfl ⟨rfl, ?_⟩
  show ix.upsert l f = _
  rw [Index.upsert, if_neg hid, ← hlink]
  rfl

theorem updateTx_spec (f : FileRef) :
    Guarded answer .transaction (Settles ix fun f' ix' => f' = f ∧ ix.update f = .ok ix')
      (updateTx f) ⟨ix, w⟩ := by
  unfold updateTx
  refine Guarded.then rfl (Guarded.then rfl (Guarded.then rfl (Guarded.then rfl ?_)))
  simp only [answer]
  cases hprevious : ix.fileRefs f.artifactId with
  | none => exact Guarded.then rfl (settles_error _ _ rfl)
  | some previous =>
    by_cases hid : previous.uuid ≠ f.uuid ∨ previous.namespc ≠ f.namespc
    · simp only [if_pos hid]
      exact Guarded.then rfl (settles_error _ _ rfl)
    · simp only [if_neg hid]
      refine Works.guarded (rebindTx_spec previous f) settles_error ?_
      rintro _ _ rfl
      refine Guarded.then rfl (Guarded.then rfl ⟨rfl, ?_⟩)
      simp only [Index.update, hprevious, if_neg hid]
      rfl

theorem invalidateTx_spec (f : FileRef) :
    Guarded answer .transaction (Settles ix fun _ ix' => ix' = ix.invalidate f)
      (invalidateTx f) ⟨ix, w⟩ := by
  unfold invalidateTx
  refine Guarded.then rfl (Guarded.then rfl (Guarded.then rfl (Guarded.then rfl ?_)))
  refine Works.guarded (releaseDigest_spec _ _) settles_error ?_
  rintro _ _ rfl
  exact ⟨rfl, rfl⟩

theorem settleTx_spec (blake3 : Bytes → Hash) (disk : Disk) (f : FileRef) :
    Guarded answer .transaction
      (Settles ix fun found ix' => ix.settleLookup blake3 disk f = (found, ix'))
      (settleTx blake3 disk f) ⟨ix, w⟩ := by
  unfold settleTx Index.settleLookup
  cases storedFileValidity blake3 disk f with
  | valid | indeterminate => rfl
  | miss =>
    refine Guarded.bind (invalidateTx_spec f) settles_error ?_
    intro _ s hs
    show (none, ix.invalidate f) = (none, s.tables)
    rw [show s.tables = ix.invalidate f from hs]

theorem lookupTx_spec (blake3 : Bytes → Hash) (disk : Disk) (l : LinkRef) :
    Guarded answer .transaction
      (Settles ix fun found ix' => ix.getByLinkRef blake3 disk l = (found, ix'))
      (lookupTx blake3 disk l) ⟨ix, w⟩ := by
  unfold lookupTx Index.getByLinkRef
  refine Guarded.then rfl (Guarded.then rfl (Guarded.then rfl ?_))
  simp only [answer]
  cases ix.fileRefs l.artifactId with
  | none => rfl
  | some f => exact settleTx_spec blake3 disk f

end

/-! ## Runs with failures -/

namespace Store

variable {U : Type} (blake3 : Bytes → Hash)

/-- An attempt of the transaction may leave this index, whichever call fails. -/
def Leaves {α : Type} (s : Store U) (p : Tx α) (ix : Index U) : Prop :=
  ∃ r w, Attempt DbCall.answer .transaction p ⟨s.index, s.index⟩ r ⟨ix, w⟩

/-- A step, with failing calls. -/
def Next (s : Store U) : Op U → Store U → Prop
  | .publish l f, s' => ∃ index, s.Leaves (upsertTx l f) index ∧ s' = { s with index }
  | .replace f, s' => ∃ index, s.Leaves (updateTx f) index ∧ s' = { s with index }
  | .lookup l, s' => ∃ index, s.Leaves (lookupTx blake3 s.disk l) index ∧ s' = { s with index }
  | .finishLookup f, s' =>
    if f ∈ s.lookups then
      ∃ index, s.Leaves (settleTx blake3 s.disk f) index ∧
        s' = { s with index, lookups := s.lookups.erase f }
    else s' = s
  | op, s' => s' = s.step blake3 op

def read (s : Store U) (l : LinkRef) : Option FileRef := (s.index.getByLinkRef blake3 s.disk l).1

/-- The operation is on another identity than `id`, and the cached file of `id` stays. -/
def Spares (id : ArtifactId) (s : Store U) : Op U → Prop
  | .publish _ f => f.artifactId ≠ id
  | .replace f => f.artifactId ≠ id
  | .lookup l => l.artifactId ≠ id
  | .finishLookup f => f.artifactId ≠ id
  | .changeFiles disk => disk id = s.disk id
  | _ => True

variable {blake3}

variable {s s' : Store U} {id : ArtifactId} {op : Op U}

theorem leaves_cases {α : Type} {p : Tx α} {after : α → Index U → Prop}
    (hspec : Guarded DbCall.answer .transaction (Settles s.index after) p ⟨s.index, s.index⟩)
    {ix : Index U} (h : s.Leaves p ix) : ix = s.index ∨ ∃ a, after a ix := by
  obtain ⟨r, w, hrun⟩ := h
  have hsettles := (guarded_iff _ _).1 hspec _ _ hrun
  cases r with
  | error e => exact Or.inl hsettles
  | ok a => exact Or.inr ⟨a, hsettles⟩

theorem next_cases (h : s.Next blake3 op s') : s'.disk = (s.step blake3 op).disk ∧
      (s'.index = s.index ∨ s'.index = (s.step blake3 op).index) := by
  cases op with
  | publish l f =>
    obtain ⟨ix, hleaves, rfl⟩ := h
    have hdisk : (s.commit (s.index.upsert l f)).disk = s.disk := by
      cases s.index.upsert l f <;> rfl
    refine ⟨hdisk.symm, (leaves_cases (upsertTx_spec l f) hleaves).imp_right ?_⟩
    rintro ⟨_, hix⟩
    show ix = (s.commit (s.index.upsert l f)).index
    rw [hix]
    rfl
  | replace f =>
    obtain ⟨ix, hleaves, rfl⟩ := h
    have hdisk : (s.commit (s.index.update f)).disk = s.disk := by
      cases s.index.update f <;> rfl
    refine ⟨hdisk.symm, (leaves_cases (updateTx_spec f) hleaves).imp_right ?_⟩
    rintro ⟨_, -, hix⟩
    show ix = (s.commit (s.index.update f)).index
    rw [hix]
    rfl
  | lookup l =>
    obtain ⟨ix, hleaves, rfl⟩ := h
    refine ⟨rfl, (leaves_cases (lookupTx_spec blake3 s.disk l) hleaves).imp_right ?_⟩
    rintro ⟨_, hix⟩
    show ix = (s.index.getByLinkRef blake3 s.disk l).2
    rw [hix]
  | finishLookup f =>
    change (if f ∈ s.lookups then _ else _) at h
    simp only [step]
    by_cases hmem : f ∈ s.lookups
    · rw [if_pos hmem] at h
      obtain ⟨ix, hleaves, rfl⟩ := h
      rw [if_pos hmem]
      refine ⟨rfl, (leaves_cases (settleTx_spec blake3 s.disk f) hleaves).imp_right ?_⟩
      rintro ⟨_, hix⟩
      show ix = (s.index.settleLookup blake3 s.disk f).2
      rw [hix]
    · rw [if_neg hmem] at h
      rw [if_neg hmem, h]
      exact ⟨rfl, Or.inl rfl⟩
  | reserve d fresh | beginLookup l | readBlueprint d | publishBlueprint b | changeFiles disk =>
    cases h; exact ⟨rfl, Or.inr rfl⟩

theorem next_keyed (hs : s.index.Keyed) (h : s.Next blake3 op s') : s'.index.Keyed := by
  rcases (next_cases h).2 with hsame | hstep
  · rw [hsame]
    exact hs
  · rw [hstep]
    exact step_keyed blake3 s op hs

/-! ## The frame -/

theorem settleLookup_frame (ix : Index U) (disk : Disk) {f : FileRef} (h : f.artifactId ≠ id) :
    (ix.settleLookup blake3 disk f).2.fileRefs id = ix.fileRefs id := by
  unfold Index.settleLookup
  split
  · rfl
  · show ix.fileRefs.remove f.artifactId id = _
    rw [Table.remove_apply, if_neg h.symm]
  · rfl

theorem update_frame {ix ix' : Index U} {f : FileRef} (h : f.artifactId ≠ id)
    (hupdate : ix.update f = .ok ix') : ix'.fileRefs id = ix.fileRefs id := by
  unfold Index.update at hupdate
  split at hupdate
  · cases hupdate
  · split at hupdate
    · cases hupdate
    · cases hupdate
      show ix.fileRefs.insert f.artifactId f id = _
      rw [Table.insert_apply, if_neg h.symm]

theorem step_frame (blake3 : Bytes → Hash) (hkeyed : s.index.Keyed) (h : s.Spares id op) :
    (s.step blake3 op).index.fileRefs id = s.index.fileRefs id ∧
      (s.step blake3 op).disk id = s.disk id := by
  cases op with
  | publish l f =>
    simp only [step]
    cases hupsert : s.index.upsert l f with
    | error e => exact ⟨rfl, rfl⟩
    | ok ix =>
      refine ⟨?_, rfl⟩
      show ix.fileRefs id = _
      rw [(Index.upsert_eq_ok hupsert).2.2, Table.insert_apply, if_neg (Ne.symm h)]
  | replace f =>
    simp only [step]
    cases hupdate : s.index.update f with
    | error e => exact ⟨rfl, rfl⟩
    | ok ix => exact ⟨update_frame h hupdate, rfl⟩
  | lookup l =>
    refine ⟨?_, rfl⟩
    show (s.index.getByLinkRef blake3 s.disk l).2.fileRefs id = _
    unfold Index.getByLinkRef
    split
    · rfl
    · next f hf =>
      apply settleLookup_frame
      rw [hkeyed _ _ hf]
      exact h
  | finishLookup f =>
    simp only [step]
    split
    · exact ⟨settleLookup_frame _ _ h, rfl⟩
    · exact ⟨rfl, rfl⟩
  | changeFiles disk => exact ⟨rfl, h⟩
  | reserve d fresh | beginLookup l | readBlueprint d | publishBlueprint b => exact ⟨rfl, rfl⟩

theorem read_congr (hkeyed : s.index.Keyed) {l : LinkRef}
    (hrefs : s'.index.fileRefs l.artifactId = s.index.fileRefs l.artifactId)
    (hdisk : s'.disk l.artifactId = s.disk l.artifactId) : s'.read blake3 l = s.read blake3 l := by
  unfold read Index.getByLinkRef
  rw [hrefs]
  cases hf : s.index.fileRefs l.artifactId with
  | none => rfl
  | some f =>
    have hvalidity : storedFileValidity blake3 s'.disk f = storedFileValidity blake3 s.disk f := by
      unfold storedFileValidity
      rw [hkeyed _ _ hf, hdisk]
    simp only [Index.settleLookup, hvalidity]
    cases storedFileValidity blake3 s.disk f <;> rfl

theorem next_frame (hkeyed : s.index.Keyed) (h : s.Next blake3 op s') (hspares : s.Spares id op) :
    s'.index.fileRefs id = s.index.fileRefs id ∧ s'.disk id = s.disk id := by
  obtain ⟨hrefs, hfile⟩ := step_frame blake3 hkeyed hspares
  obtain ⟨hdisk, hindex⟩ := next_cases h
  refine ⟨?_, by rw [hdisk, hfile]⟩
  rcases hindex with hindex | hindex
  · rw [hindex]
  · rw [hindex, hrefs]

/-- **The frame of the index.**  From every state that operations lead to, with calls of the
database failing or not: operations on other identities leave what a lookup of an identity
returns as it was, as long as its cached file stays; and an `upsert` or `update` that
returns an error leaves all tables as they were. -/
theorem index_frame (blake3 : Bytes → Hash) (disk : Disk) (ops : List (Op U)) (s : Store U)
    (hreach : Run.Trace (Next blake3) (init disk) ops s) :
    (∀ id ops' s', Run.Trace (fun s op s' => Next blake3 s op s' ∧ Spares id s op) s ops' s' →
      ∀ l : LinkRef, l.artifactId = id → s'.read blake3 l = s.read blake3 l) ∧
    (∀ l f e session, Attempt DbCall.answer .transaction (upsertTx l f) ⟨s.index, s.index⟩
      (.error e) session → session.tables = s.index) ∧
    (∀ f e session, Attempt DbCall.answer .transaction (updateTx f) ⟨s.index, s.index⟩
      (.error e) session → session.tables = s.index) := by
  have hkeyed : s.index.Keyed := by
    refine Run.Trace.invariant (I := fun _ s => s.index.Keyed) ?_ ?_ hreach
    · intro id f hf
      cases hf
    · intro _ s op s' hs hnext
      exact next_keyed hs hnext
  refine ⟨?_, ?_, ?_⟩
  · rintro id ops' s' hrun l rfl
    have hframe : s'.index.Keyed ∧ s'.index.fileRefs l.artifactId = s.index.fileRefs l.artifactId ∧
        s'.disk l.artifactId = s.disk l.artifactId := by
      refine Run.Trace.invariant (I := fun _ s' => s'.index.Keyed ∧
        s'.index.fileRefs l.artifactId = s.index.fileRefs l.artifactId ∧
        s'.disk l.artifactId = s.disk l.artifactId) ⟨hkeyed, rfl, rfl⟩ ?_ hrun
      rintro _ t op t' ⟨ht, hrefs, hfile⟩ ⟨hnext, hspares⟩
      obtain ⟨hrefs', hfile'⟩ := next_frame ht hnext hspares
      exact ⟨next_keyed ht hnext, hrefs'.trans hrefs, hfile'.trans hfile⟩
    exact read_congr hkeyed hframe.2.1 hframe.2.2
  · intro l f e session hrun
    exact (guarded_iff _ _).1 (upsertTx_spec l f) _ _ hrun
  · intro f e session hrun
    exact (guarded_iff _ _).1 (updateTx_spec f) _ _ hrun

/-- The store after a transaction of which no call fails. -/
def after {α : Type} (s : Store U) (p : Tx α) : Store U :=
  { s with index := (Prog.interp DbCall.answer p ⟨s.index, s.index⟩).2.tables }

theorem next_publish (s : Store U) (l : LinkRef) (f : FileRef) :
    s.Next blake3 (.publish l f) (s.after (upsertTx l f)) :=
  ⟨_, ⟨_, _, attempt_interp DbCall.answer IndexError.transaction _ _⟩, rfl⟩

theorem next_lookup (s : Store U) (l : LinkRef) :
    s.Next blake3 (.lookup l) (s.after (lookupTx blake3 s.disk l)) :=
  ⟨_, ⟨_, _, attempt_interp DbCall.answer IndexError.transaction _ _⟩, rfl⟩

/-- The cached file of `zeroLink` is the only one. -/
def oneFile : Disk := fun id =>
  if id = zeroLink.artifactId then ⟨.ok (true, 1), .ok (), .ok [7]⟩ else noFiles id

def layered : Store UInt8 := (init oneFile).after (upsertTx zeroLink (sizedFile 1))

def kernelLink : LinkRef := ⟨default, .kernel, ⟨default, 0⟩⟩

def kernelFile (size : Nat) : FileRef := { sizedFile size with namespc := .kernel }

/-- A file is published; another is published, its replacement fails, and a lookup drops it. -/
theorem index_frame_kernelFile : ∃ s : Store UInt8,
    Run.Trace (fun s op s' => Next (fun _ => default) s op s' ∧ Spares zeroLink.artifactId s op)
      layered [.publish kernelLink (kernelFile 1), .replace (kernelFile 2), .lookup kernelLink] s ∧
    s.index.fileRefs kernelLink.artifactId = none ∧
    s.read (fun _ => default) zeroLink = some (sizedFile 1) := by
  have hreach : Run.Trace (Next fun _ => default) (init oneFile)
      [.publish zeroLink (sizedFile 1)] layered := .snoc .nil (next_publish _ _ _)
  have hreplace (s : Store UInt8) : Next (fun _ => default) s (.replace (kernelFile 2)) s :=
    ⟨s.index, ⟨_, _, .fault DbCall.beginTx _ _⟩, rfl⟩
  have hrun : Run.Trace
      (fun s op s' => Next (fun _ => default) s op s' ∧ Spares zeroLink.artifactId s op) layered
      [.publish kernelLink (kernelFile 1), .replace (kernelFile 2), .lookup kernelLink] _ :=
    .snoc (.snoc (.snoc .nil
      ⟨next_publish _ _ _, show (kernelFile 1).artifactId ≠ zeroLink.artifactId by decide⟩)
      ⟨hreplace _, show (kernelFile 2).artifactId ≠ zeroLink.artifactId by decide⟩)
      ⟨next_lookup _ _, show kernelLink.artifactId ≠ zeroLink.artifactId by decide⟩
  refine ⟨_, hrun, rfl, ?_⟩
  rw [(index_frame _ oneFile _ _ hreach).1 _ _ _ hrun zeroLink rfl]
  rfl

/-! ## Failed calls -/

open List

variable {t : Store U}

/-- The same tables and files; a lookup in progress in `s` is in progress in `t`. -/
structure Follows (s t : Store U) : Prop where
  index : s.index = t.index
  disk : s.disk = t.disk
  lookups : s.lookups <+~ t.lookups

theorem Follows.next (h : Follows s t) (hnext : s.Next blake3 op s') :
    Follows s' t ∨ Follows s' (t.step blake3 op) := by
  obtain ⟨-, hindex⟩ := next_cases hnext
  obtain ⟨index, disk, _, lookups⟩ := s
  obtain ⟨_, _, _, lookups'⟩ := t
  obtain ⟨rfl, rfl, hlookups⟩ := h
  cases op with
  | publish l f =>
    obtain ⟨ix, -, rfl⟩ := hnext
    simp only [step] at hindex ⊢
    generalize index.upsert l f = result at hindex ⊢
    cases result <;>
      exact hindex.imp (fun hix => ⟨hix, rfl, hlookups⟩) fun hix => ⟨hix, rfl, hlookups⟩
  | replace f =>
    obtain ⟨ix, -, rfl⟩ := hnext
    simp only [step] at hindex ⊢
    generalize index.update f = result at hindex ⊢
    cases result <;>
      exact hindex.imp (fun hix => ⟨hix, rfl, hlookups⟩) fun hix => ⟨hix, rfl, hlookups⟩
  | lookup l =>
    obtain ⟨ix, -, rfl⟩ := hnext
    exact hindex.imp (fun hix => ⟨hix, rfl, hlookups⟩) fun hix => ⟨hix, rfl, hlookups⟩
  | finishLookup f =>
    simp only [Next] at hnext
    split at hnext
    · next hmem =>
      obtain ⟨ix, -, rfl⟩ := hnext
      simp only [step, if_pos hmem, if_pos (hlookups.subset hmem)] at hindex ⊢
      exact hindex.imp (fun hix => ⟨hix, rfl, erase_sublist.subperm.trans hlookups⟩)
        fun hix => ⟨hix, rfl, hlookups.erase f⟩
    · subst hnext
      exact .inl ⟨rfl, rfl, hlookups⟩
  | beginLookup l =>
    cases hnext
    exact .inr ⟨rfl, rfl, hlookups.append (.refl _)⟩
  | reserve d fresh | readBlueprint d | publishBlueprint b | changeFiles disk =>
    cases hnext
    exact .inr ⟨rfl, rfl, hlookups⟩

/-- **Failures are atomic.**  However the calls of the database fail, the tables and files are
those that some of the operations, in their order, leave when no call fails. -/
theorem failures_atomic (disk : Disk) (ops : List (Op U)) (s : Store U)
    (h : Run.Trace (Next blake3) (init disk) ops s) :
    ∃ ops', ops' <+ ops ∧ s.index = (ops'.foldl (step blake3) (init disk)).index ∧
      s.disk = (ops'.foldl (step blake3) (init disk)).disk := by
  have hfollows : ∃ ops', ops' <+ ops ∧ Follows s (ops'.foldl (step blake3) (init disk)) := by
    refine h.invariant (I := fun ops s =>
      ∃ ops', ops' <+ ops ∧ Follows s (ops'.foldl (step blake3) (init disk)))
      ⟨[], .slnil, rfl, rfl, .refl _⟩ ?_
    rintro ops s op s' ⟨ops', hsub, hfollows⟩ hnext
    rcases hfollows.next hnext with hsame | hstep
    · exact ⟨ops', hsub.trans (sublist_append_left _ _), hsame⟩
    · refine ⟨ops' ++ [op], hsub.append (.refl _), ?_⟩
      rwa [foldl_append]
  obtain ⟨ops', hsub, hindex, hdisk, -⟩ := hfollows
  exact ⟨ops', hsub, hindex, hdisk⟩

/-- A file is published; of another the commit fails. -/
theorem failures_atomic_commit :
    Run.Trace (Next fun _ => default) (init oneFile)
      [.publish zeroLink (sizedFile 1), .publish kernelLink (kernelFile 1)] layered ∧
    ∃ ops', ops' <+ [.publish zeroLink (sizedFile 1), .publish kernelLink (kernelFile 1)] ∧
      layered.index = (ops'.foldl (step fun _ => default) (init oneFile)).index := by
  -- twelve calls succeed, the next is the commit
  have hfailed : Next (fun _ => default) layered (.publish kernelLink (kernelFile 1)) layered :=
    ⟨layered.index, ⟨_, _, .step (.step (.step (.step (.step (.step (.step (.step (.step (.step
      (.step (.step (.fault DbCall.commit _ _))))))))))))⟩, rfl⟩
  have htrace : Run.Trace (Next fun _ => default) (init oneFile)
      [.publish zeroLink (sizedFile 1), .publish kernelLink (kernelFile 1)] layered :=
    .snoc (.snoc .nil (next_publish _ _ _)) hfailed
  obtain ⟨ops', hsub, hindex, -⟩ := failures_atomic oneFile _ _ htrace
  exact ⟨htrace, ops', hsub, hindex⟩

end Store

end Jyth
