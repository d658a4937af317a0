import Jyth.Image.Convert
import Jyth.Lib.Buckets

/-!
# The link plan

What `plan_links` plans: it holds back for each path the hard links to it, in the order of
the archive (`pending_planLinks`), whether a member has that path or none does.
-/

namespace Jyth.Image.Cpio

open Format Allot List Option LinkPlanner Std.ExtTreeMap

/-! ## Groups -/

def TarHeaderSnapshot.target (header : TarHeaderSnapshot) : Bytes := header.linkName.getD []

def linksTo (headers : List TarHeaderSnapshot) (target : Bytes) : List Bytes :=
  Buckets.bucket TarHeaderSnapshot.isHardLink TarHeaderSnapshot.target TarHeaderSnapshot.path target
    headers

variable {headers : List TarHeaderSnapshot}

theorem mem_linksTo {target p : Bytes} : p ∈ linksTo headers target ↔
      ∃ header ∈ headers, header.isHardLink = true ∧ header.target = target ∧ header.path = p :=
  Buckets.mem_bucket

theorem collectLinks_eq_some {target : Bytes}
    {members : List Bytes} : (collectLinks headers)[target]? = some members ↔
      members = linksTo headers target ∧ members ≠ [] := Buckets.collect_eq_some

theorem collectLinks_eq_none {target : Bytes} :
    (collectLinks headers)[target]? = none ↔ linksTo headers target = [] := by
  rw [eq_none_iff_forall_ne_some]
  constructor
  · intro h
    by_contra hne
    exact h _ (collectLinks_eq_some.2 ⟨rfl, hne⟩)
  · rintro h members hsome
    obtain ⟨rfl, hne⟩ := collectLinks_eq_some.1 hsome
    exact hne h

theorem getD_collectLinks (headers : List TarHeaderSnapshot) (target : Bytes) :
    ((collectLinks headers)[target]?).getD [] = linksTo headers target := by
  cases h : (collectLinks headers)[target]? with
  | none => exact (collectLinks_eq_none.1 h).symm
  | some members => exact (collectLinks_eq_some.1 h).1

variable {p : Bytes}

namespace LinkPlanner

variable (planner : LinkPlanner)

/-! ## The three loops -/

def start (headers : List TarHeaderSnapshot) : LinkPlanner :=
  ⟨⟨fun _ => none, fun _ => none, ∅, []⟩, collectLinks headers, 1, 1⟩

/-- The links still to be written behind `target`, planned or not. -/
def held (planner : LinkPlanner) (target : Bytes) : Option (List Bytes) :=
  (planner.groups[target]?).or planner.plan.pending[target]?

theorem held_planTarget (target p : Bytes) :
    (planner.planTarget target).held p = planner.held p := by
  rw [planTarget]
  cases hget : planner.groups[target]? with
  | none => rfl
  | some members =>
    show ((planner.groups.erase target)[p]?).or (planner.plan.pending.insert target members)[p]? = _
    rw [getElem?_erase_path, getElem?_insert_path, held]
    by_cases hp : p = target
    · rw [if_pos hp, if_pos hp, hp, hget]
      rfl
    · rw [if_neg hp, if_neg hp]

theorem held_foldl_planTarget (keys : List Bytes) (p : Bytes) :
    (keys.foldl planTarget planner).held p = planner.held p := by
  induction keys generalizing planner with
  | nil => rfl
  | cons key keys ih => rw [foldl_cons, ih, held_planTarget]

theorem pending_foldl_planMissing (keys : List Bytes) (p : Bytes) :
    (keys.foldl planMissing planner).plan.pending[p]? =
      if p ∈ keys then some ((planner.groups[p]?).getD []) else planner.plan.pending[p]? := by
  induction keys generalizing planner with
  | nil => simp
  | cons key keys ih =>
    have hgroups : (planner.planMissing key).groups = planner.groups := rfl
    have hpending : (planner.planMissing key).plan.pending =
        planner.plan.pending.insert key ((planner.groups[key]?).getD []) := rfl
    rw [foldl_cons, ih, hgroups, hpending, getElem?_insert_path]
    by_cases hkey : p = key
    · simp [hkey]
    · simp [hkey]

theorem pending_foldl_planMissing_keys (hash : KeyOrder) (p : Bytes) :
    ((hash.order planner.groups.keys).foldl planMissing planner).plan.pending[p]? =
      planner.held p := by
  have hkeys : p ∈ hash.order planner.groups.keys ↔ (planner.groups[p]?).isSome = true := by
    rw [(hash.perm _).mem_iff, Std.ExtTreeMap.mem_keys, Std.ExtTreeMap.mem_iff_isSome_getElem?]
  rw [pending_foldl_planMissing, held]
  split
  · rename_i hp
    obtain ⟨members, hmembers⟩ := isSome_iff_exists.1 (hkeys.1 hp)
    rw [hmembers]
    rfl
  · rename_i hp
    rw [not_isSome_iff_eq_none.1 fun hsome => hp (hkeys.2 hsome)]
    rfl

theorem pending_planOther (header : TarHeaderSnapshot) :
    (planner.planOther header).plan.pending = planner.plan.pending := by
  rw [planOther]
  split <;> rfl

theorem identity_planOther (header : TarHeaderSnapshot)
    {id : LinkId} (h : planner.plan.identity p = some id) :
    (planner.planOther header).plan.identity p = some id := by
  rw [planOther]
  split
  · exact h
  · rename_i hnone
    have hne : p ≠ header.path := by
      rintro rfl
      exact hnone (isSome_iff_exists.2 ⟨id, h⟩)
    show planner.plan.identity.insert header.path planner.fresh p = some id
    rw [Table.insert_apply, if_neg hne, h]

theorem pending_foldl_planOther (headers : List TarHeaderSnapshot) :
    (headers.foldl planOther planner).plan.pending = planner.plan.pending := by
  induction headers generalizing planner with
  | nil => rfl
  | cons header headers ih => rw [foldl_cons, ih, pending_planOther]

end LinkPlanner

theorem pending_planLinks (hash : KeyOrder) (headers : List TarHeaderSnapshot) (target : Bytes) :
    (planLinks hash headers).pending[target]? = (collectLinks headers)[target]? := by
  rw [planLinks, pending_foldl_planOther, pending_foldl_planMissing_keys]
  refine ((start headers).held_foldl_planTarget (knownTargets headers) target).trans ?_
  rw [held, start, getElem?_empty, or_none]

theorem mem_knownTargets : p ∈ knownTargets headers ↔
      ∃ header ∈ headers, header.isHardLink = false ∧ header.path = p := by
  simp only [knownTargets, List.mem_map, List.mem_filter, Bool.not_eq_true', and_assoc]

end Jyth.Image.Cpio
