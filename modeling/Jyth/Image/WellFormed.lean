import Jyth.Image.OverlaySpec

/-!
# Entries below non-directories

A state is well formed when whatever has an entry below it is a directory.
Whiteouts keep that; an insertion keeps it exactly when it goes below
directories only and leaves nothing below a non-directory
(`step_wellFormed_iff`).  The emitted archive has the names and modes of the
final state (`wellFormedArchive_iff`).
-/

namespace Jyth.Image

open Format Std.ExtTreeMap

section
variable {α : Type} [Node α]

/-- Whatever has an entry below it is a directory. -/
def WellFormed (map : PathMap α) : Prop :=
  ∀ (p q : Bytes) (parent : α), map[p]? = some parent → q ∈ map → Below p q →
    isDirectory parent = true

/-- An insertion goes below directories only, and what it puts there is a
directory or displaces all that lies below. -/
def Op.KeepsTree (map : PathMap α) : Op α → Prop
  | .whiteout _ => True
  | .insert path entry =>
    (∀ (p : Bytes) (parent : α), map[p]? = some parent → Below p (storedAt map path) →
      isDirectory parent = true) ∧
    (isDirectory entry = true ∨
      ∀ q ∈ map, Below (storedAt map path) q → Displaces map (storedAt map path) entry q)

theorem not_startsWith_of_below {p q : Bytes} (h : Below p q) : ¬ q ++ [slash] <+: p := by
  intro hpre
  by_cases hq : q = rootPath
  · have hnil := h.1
    rw [hq, components_rootPath, List.prefix_nil] at hnil
    refine h.2 (components_injective ?_)
    rw [hnil, hq, components_rootPath]
  · exact (h.trans ((below_iff_startsWith hq).2 hpre)).2 rfl

variable {map : PathMap α}

theorem insert_wellFormed_iff (h : WellFormed map) (path : Bytes) (entry : α) :
    WellFormed (stepOp map (.insert path entry)) ↔ (Op.insert path entry).KeepsTree map := by
  have hat : (stepOp map (.insert path entry))[storedAt map path]? = some entry := by
    rw [getElem?_stepOp_insert, if_pos rfl]
  have hold : ∀ p : Bytes, p ≠ storedAt map path → ¬ Displaces map (storedAt map path) entry p →
      (stepOp map (.insert path entry))[p]? = map[p]? := fun p hp hd => by
    rw [getElem?_stepOp_insert, if_neg hp, if_neg hd]
  constructor
  · intro hstep
    refine ⟨fun p parent hp hb => ?_, ?_⟩
    · have hkept : ¬ Displaces map (storedAt map path) entry p := fun hd =>
        not_startsWith_of_below hb hd.1
      exact hstep p _ parent (by rw [hold p hb.2 hkept, hp]) (mem_iff_exists.2 ⟨entry, hat⟩) hb
    · by_cases hdir : isDirectory entry = true
      · exact .inl hdir
      · refine .inr fun q hq hb => by_contra fun hkept => hdir ?_
        obtain ⟨child, hchild⟩ := mem_iff_exists.1 hq
        exact hstep _ q entry hat
          (mem_iff_exists.2 ⟨child, by rw [hold q hb.2.symm hkept, hchild]⟩) hb
  · rintro ⟨habove, hbelow⟩ p q parent hp hq hb
    obtain ⟨child, hchild⟩ := mem_iff_exists.1 hq
    by_cases hpat : p = storedAt map path
    · subst hpat
      obtain rfl : entry = parent := Option.some.inj (hat.symm.trans hp)
      refine hbelow.resolve_right fun hall => ?_
      rw [getElem?_stepOp_insert, if_neg hb.2.symm] at hchild
      by_cases hd : Displaces map (storedAt map path) entry q
      · simp [hd] at hchild
      · rw [if_neg hd] at hchild
        exact hd (hall q (mem_iff_exists.2 ⟨child, hchild⟩) hb)
    · have hp' : map[p]? = some parent := by
        rcases eq_some_of_stepOp hp with hp' | ⟨_, heq, hstored⟩
        · exact hp'
        · cases heq
          exact absurd hstored hpat
      rcases eq_some_of_stepOp hchild with hq' | ⟨_, heq, rfl⟩
      · exact h p q parent hp' (mem_iff_exists.2 ⟨child, hq'⟩) hb
      · cases heq
        exact habove p parent hp' hb

/-- **One change.**  From a well-formed state, a change leads to a well-formed
state exactly when it keeps the tree. -/
theorem step_wellFormed_iff (h : WellFormed map) (op : Op α) :
    WellFormed (stepOp map op) ↔ op.KeepsTree map := by
  cases op with
  | whiteout wh =>
    refine iff_of_true (fun p q parent hp hq hb => ?_) trivial
    obtain ⟨child, hchild⟩ := mem_iff_exists.1 hq
    rcases eq_some_of_stepOp hp with hp' | ⟨_, heq, -⟩
    · rcases eq_some_of_stepOp hchild with hq' | ⟨_, heq, -⟩
      · exact h p q parent hp' (mem_iff_exists.2 ⟨child, hq'⟩) hb
      · cases heq
    · cases heq
  | insert path entry => exact insert_wellFormed_iff h path entry

theorem run_wellFormed_iff (changes : List (Op α)) :
    (∀ front, front <+: changes → WellFormed (front.foldl stepOp ∅)) ↔
      Run.Steps stepOp (fun map op => op.KeepsTree map) ∅ changes := by
  rw [← Run.reached_iff_fronts]
  refine Run.reached_iff_steps (I := fun _ => True) (fun _ _ _ _ => trivial)
    (fun map op _ _ h => step_wellFormed_iff h op) trivial fun p q parent hp => ?_
  rw [getElem?_empty] at hp
  cases hp

end

/-! ## The archive -/

/-- In an archive, whatever has a record below it has the mode of a directory. -/
def WellFormedArchive (items : List Item) : Prop :=
  ∀ a ∈ items, ∀ b ∈ items, Below a.record.name b.record.name →
    a.record.mode &&& sIfmt = sIfdir

theorem wellFormedArchive_iff {state : PathMap Metadata} {spool : Spool} {items : List Item}
    (h : Emits state spool items) : WellFormedArchive items ↔ WellFormed state := by
  have hrecord : ∀ (p : Bytes) (metadata : Metadata), state[p]? = some metadata →
      ∃ item ∈ items, item.record.name = p ∧ item.record.mode = metadata.mode := by
    intro p metadata hget
    obtain ⟨item, hmem, hitem⟩ := exists_right_of_forall₂ h (mem_toList_iff_getElem?_eq_some.2 hget)
    exact ⟨item, hmem, by rw [emitItem_record hitem]; rfl, by rw [emitItem_record hitem]; rfl⟩
  constructor
  · intro hitems p q parent hp hq hb
    obtain ⟨child, hchild⟩ := mem_iff_exists.1 hq
    obtain ⟨a, ha, rfl, hmode⟩ := hrecord p parent hp
    obtain ⟨b, hb', rfl, -⟩ := hrecord q child hchild
    have := hitems a ha b hb' hb
    rw [hmode] at this
    exact decide_eq_true this
  · intro hstate a ha b hb hbelow
    obtain ⟨p, parent, hp, hitem⟩ := h.mem_iff.1 ha
    obtain ⟨q, child, hq, hitem'⟩ := h.mem_iff.1 hb
    rw [emitItem_record hitem, emitItem_record hitem'] at hbelow
    rw [emitItem_record hitem]
    exact of_decide_eq_true (hstate p q parent hp (mem_iff_exists.2 ⟨child, hq⟩) hbelow)

/-- **Well-formedness of `flatten`.**  For layers that are accepted: every state
of the build is well formed exactly when every change keeps the tree, and the
archive is well formed exactly when the final state is. -/
theorem runBlocking_wellFormed_iff {layers : List Layer} {bytes : TempWriter}
    (h : runBlocking layers = .ok bytes) :
    ∃ decoded spool items, decodeLayers 0 layers [] = .ok (decoded, spool) ∧
      Emits (overlay decoded) spool items ∧ writeArchive items = .ok bytes ∧
      ((∀ front, front <+: decoded.flatMap ops → WellFormed (front.foldl stepOp ∅)) ↔
        Run.Steps stepOp (fun map op => op.KeepsTree map) ∅ (decoded.flatMap ops)) ∧
      (WellFormedArchive items ↔ WellFormed ((decoded.flatMap ops).foldl stepOp ∅)) := by
  rw [runBlocking, bind_eq_ok] at h
  obtain ⟨⟨state, spool⟩, hbuild, hemit⟩ := h
  obtain ⟨decoded, hdec, rfl⟩ := buildState_eq_ok.1 hbuild
  obtain ⟨items, hitems, hwrite⟩ := emit_eq_ok.1 hemit
  refine ⟨decoded, spool, items, hdec, hitems, hwrite, run_wellFormed_iff _, ?_⟩
  rw [← overlay_eq_run]
  exact wellFormedArchive_iff hitems

theorem fileRemoved_wellFormed :
    ∃ items bytes, runBlocking fileRemoved = .ok bytes ∧ writeArchive items = .ok bytes ∧
      WellFormedArchive items := by
  obtain ⟨bytes, hbytes⟩ : ∃ bytes, runBlocking fileRemoved = .ok bytes := ⟨_, rfl⟩
  obtain ⟨decoded, spool, items, hdec, -, hwrite, hrun, harchive⟩ := runBlocking_wellFormed_iff hbytes
  refine ⟨items, bytes, hbytes, hwrite, harchive.2 (hrun.2 ?_ _ List.prefix_rfl)⟩
  obtain ⟨rfl, rfl⟩ := Prod.mk.inj (Except.ok.inj hdec)
  refine ⟨⟨fun p parent hp _ => ?_, .inl (by decide)⟩, ⟨fun p parent hp _ => ?_, .inr ?_⟩, trivial,
    trivial⟩
  · rw [getElem?_empty] at hp
    cases hp
  · rcases eq_some_of_stepOp hp with hp | ⟨_, heq, -⟩
    · rw [getElem?_empty] at hp
      cases hp
    · cases heq
      decide
  · intro q hq hbelow
    obtain ⟨child, hchild⟩ := mem_iff_exists.1 hq
    rcases eq_some_of_stepOp hchild with hp | ⟨_, heq, rfl⟩
    · rw [getElem?_empty] at hp
      cases hp
    · cases heq
      exact absurd hbelow (by decide)

theorem fileBelowFile_not_wellFormed : (∃ bytes, runBlocking fileBelowFile = .ok bytes) ∧
      ∃ decoded spool, decodeLayers 0 fileBelowFile [] = .ok (decoded, spool) ∧
        ¬ WellFormed (overlay decoded) := by
  refine ⟨⟨_, rfl⟩, _, _, rfl, fun h => ?_⟩
  have := h (utf8 "a") (utf8 "a/b") _ rfl (by decide) (by decide)
  revert this
  decide

end Jyth.Image
