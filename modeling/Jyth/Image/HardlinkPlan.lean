import Jyth.Image.Flatten
import Jyth.Lib.Buckets

/-!
# The hard-link plan

`plan_hardlinks` gives out identities one after the other: to each group of
linked files in the order of their keys, then to every other path.  What is
given out together is a lot (`Lot`), and the plan is determined by the list of
lots (`planHardlinks_eq`): the lot with index `i` has the identity
`(i + 1, i + 1)`, its link count and its canonical member (`plan_holds`).
-/

namespace Jyth.Image

open Format Allot List Option Planner Std.ExtTreeMap

/-! ## Giving out identities -/

/-- Paths that get one identity, their link count and the one with the body. -/
structure Lot where
  members : List Bytes
  nlink : UInt32
  canonical : Option Bytes

/-- The identity with number `n`, counting from zero. -/
def identityAt (n : Nat) : Assignment := (numberAt n, numberAt n)

theorem identityAt_inj {m n : Nat} (hm : m < 2 ^ 32 - 1) (hn : n < 2 ^ 32 - 1)
    (h : identityAt m = identityAt n) : m = n := numberAt_inj hm hn (congrArg Prod.fst h)

/-- The plan has the lot under this identity. -/
structure Lot.Holds (lot : Lot) (plan : HardlinkPlan) (id : Assignment) : Prop where
  identity : ∀ p ∈ lot.members, plan.identity p = some id
  nlink : plan.nlink id = some lot.nlink
  canonical : ∀ c, lot.canonical = some c → plan.canonical id = some c

namespace Planner

def allotLot (planner : Planner) (lot : Lot) : Planner :=
  planner.allot lot.members lot.nlink lot.canonical

def allotAll (planner : Planner) (lots : List Lot) : Planner := lots.foldl allotLot planner

/-- The planner has given out `n` identities. -/
def At (planner : Planner) (n : Nat) : Prop := (planner.nextDev, planner.nextIno) = identityAt n

theorem identity_allotLot (planner : Planner) (lot : Lot) (p : Bytes) :
    (planner.allotLot lot).plan.identity p =
      if p ∈ lot.members then some (planner.nextDev, planner.nextIno)
      else planner.plan.identity p := Table.foldl_insert_apply _ _ _ p

theorem nlink_allotLot (planner : Planner) (lot : Lot) (id : Assignment) :
    (planner.allotLot lot).plan.nlink id =
      if id = (planner.nextDev, planner.nextIno) then some lot.nlink
      else planner.plan.nlink id := Table.insert_apply _ _ _ _

theorem canonical_allotLot (planner : Planner) (lot : Lot) (id : Assignment) :
    (planner.allotLot lot).plan.canonical id =
      if id = (planner.nextDev, planner.nextIno) ∧ lot.canonical.isSome then lot.canonical
      else planner.plan.canonical id := by
  rw [allotLot]
  cases lot.canonical with
  | none => simp [allot]
  | some c => simp [allot, Table.insert_apply]

theorem allotLot_loop :
    Loop allotLot At (fun lot n planner => lot.Holds planner.plan (identityAt n))
      (fun lot other => ∀ p ∈ lot.members, p ∉ other.members) (2 ^ 32 - 1) where
  next := by
    intro planner n lot h hn
    obtain ⟨hdev, hino⟩ := Prod.mk.inj h
    show (saturatingSucc planner.nextDev, saturatingSucc planner.nextIno) = _
    rw [hdev, hino, saturatingSucc_numberAt hn]
    rfl
  gives := by
    intro planner n lot h
    rw [← show _ = identityAt n from h]
    constructor
    · intro p hp
      rw [identity_allotLot, if_pos hp]
    · rw [nlink_allotLot, if_pos rfl]
    · intro c hc
      rw [canonical_allotLot, if_pos ⟨rfl, by rw [hc]; rfl⟩, hc]
  keeps := by
    intro planner m n lot other h hm hn hlot hapart
    have hne : identityAt m ≠ (planner.nextDev, planner.nextIno) := fun heq => by
      have := identityAt_inj (by omega) hn (heq.trans h)
      omega
    constructor
    · intro p hp
      rw [identity_allotLot, if_neg (hapart p hp), hlot.identity p hp]
    · rw [nlink_allotLot, if_neg hne, hlot.nlink]
    · intro c hc
      rw [canonical_allotLot, if_neg fun hid => hne hid.1, hlot.canonical c hc]

end Planner

/-! ## Groups -/

def membersOf (state : PathMap Metadata) (key : LinkKey) : List Bytes :=
  Buckets.bucket (fun entry : Bytes × Metadata => entry.2.isGrouped) (fun entry => entry.2.linkKey)
    Prod.fst key state.toList

variable {p : Bytes} {metadata : Metadata} {members : List Bytes} {q : Bytes}

variable {state : PathMap Metadata}

theorem mem_membersOf {key : LinkKey} : p ∈ membersOf state key ↔
      ∃ metadata, state[p]? = some metadata ∧ metadata.isGrouped = true ∧
        metadata.linkKey = key := by
  rw [membersOf, Buckets.mem_bucket]
  constructor
  · rintro ⟨⟨p, metadata⟩, hentry, hg, hkey, rfl⟩
    exact ⟨metadata, mem_toList_iff_getElem?_eq_some.1 hentry, hg, hkey⟩
  · rintro ⟨metadata, hp, hg, hkey⟩
    exact ⟨(p, metadata), mem_toList_iff_getElem?_eq_some.2 hp, hg, hkey, rfl⟩

theorem mem_collectGroups {key : LinkKey} : (key, members) ∈ (collectGroups state).toList ↔
      members = membersOf state key ∧ members ≠ [] := by
  rw [mem_toList_iff_getElem?_eq_some]
  exact Buckets.collect_eq_some

/-! ## The lots of a state -/

def groupLot (state : PathMap Metadata) (members : List Bytes) : Lot :=
  let members := members.insertionSort fun a b => (compare a b).isLE
  ⟨members, UInt32.ofNat members.length, canonicalMember state members⟩

def singleLot (path : Bytes) : Lot := ⟨[path], 1, some path⟩

def lotsOf (state : PathMap Metadata) : List Lot :=
  (collectGroups state).toList.map (fun group => groupLot state group.2) ++
    (state.toList.filter fun entry => !entry.2.isGrouped).map fun entry => singleLot entry.1

theorem mem_groupLot : p ∈ (groupLot state members).members ↔ p ∈ members := mem_insertionSort _

theorem identity_allotAll_isSome (planner : Planner) (lots : List Lot) (p : Bytes) :
    ((planner.allotAll lots).plan.identity p).isSome = true ↔
      (∃ lot ∈ lots, p ∈ lot.members) ∨ (planner.plan.identity p).isSome = true := by
  induction lots generalizing planner with
  | nil => simp [allotAll]
  | cons lot lots ih =>
    show ((allotAll (planner.allotLot lot) lots).plan.identity p).isSome = true ↔ _
    rw [ih, identity_allotLot]
    by_cases hp : p ∈ lot.members <;> simp [hp]

theorem foldl_planSingle (planner : Planner) (keys : List Bytes) (hnodup : keys.Nodup) :
    keys.foldl planSingle planner =
      planner.allotAll ((keys.filter fun p => !(planner.plan.identity p).isSome).map singleLot) := by
  induction keys generalizing planner with
  | nil => rfl
  | cons key keys ih =>
    obtain ⟨hkey, hrest⟩ := nodup_cons.1 hnodup
    rw [foldl_cons, ih _ hrest, planSingle]
    by_cases hsome : (planner.plan.identity key).isSome = true
    · rw [if_pos hsome, filter_cons, if_neg (by simp [hsome])]
    · rw [if_neg hsome, filter_cons, if_pos (by simpa using hsome), map_cons]
      show _ = allotAll (planner.allotLot (singleLot key)) _
      congr 2
      refine filter_congr fun p hp => ?_
      have hne : p ∉ [key] := by
        rw [mem_singleton]
        rintro rfl
        exact hkey hp
      have hsame : (planner.allotLot (singleLot key)).plan.identity p = planner.plan.identity p :=
        (planner.identity_allotLot (singleLot key) p).trans (if_neg hne)
      rw [← hsame]
      rfl

def emptyPlanner : Planner := ⟨⟨fun _ => none, fun _ => none, fun _ => none⟩, 1, 1⟩

theorem exists_groupLot_iff (hp : state[p]? = some metadata) :
    (∃ lot ∈ (collectGroups state).toList.map fun group => groupLot state group.2,
      p ∈ lot.members) ↔ metadata.isGrouped = true := by
  constructor
  · rintro ⟨lot, hlot, hmem⟩
    obtain ⟨⟨key, members⟩, hgroup, rfl⟩ := mem_map.1 hlot
    obtain ⟨rfl, -⟩ := mem_collectGroups.1 hgroup
    obtain ⟨metadata', hp', hg, -⟩ := mem_membersOf.1 (mem_groupLot.1 hmem)
    obtain rfl : metadata = metadata' := some.inj (hp.symm.trans hp')
    exact hg
  · intro hg
    have hmem : p ∈ membersOf state metadata.linkKey := mem_membersOf.2 ⟨metadata, hp, hg, rfl⟩
    exact ⟨_, mem_map.2 ⟨(metadata.linkKey, _), mem_collectGroups.2
      ⟨rfl, ne_nil_of_mem hmem⟩, rfl⟩, mem_groupLot.2 hmem⟩

theorem planHardlinks_eq (state : PathMap Metadata) :
    planHardlinks state = (emptyPlanner.allotAll (lotsOf state)).plan := by
  have hgroups : (collectGroups state).toList.foldl
      (fun planner (group : LinkKey × List Bytes) => planGroup state planner group.2) emptyPlanner =
      emptyPlanner.allotAll ((collectGroups state).toList.map fun group => groupLot state group.2) := by
    rw [allotAll, foldl_map]
    rfl
  have hsingles : (state.keys.filter fun p => !((emptyPlanner.allotAll
      ((collectGroups state).toList.map fun group => groupLot state group.2)).plan.identity
        p).isSome) =
      (state.toList.filter fun entry => !entry.2.isGrouped).map Prod.fst := by
    rw [← map_fst_toList_eq_keys, List.filter_map]
    congr 1
    refine filter_congr fun entry hentry => ?_
    rw [Function.comp_apply, Bool.eq_iff_iff, Bool.not_eq_true', Bool.not_eq_true',
      ← Bool.not_eq_true, ← Bool.not_eq_true, identity_allotAll_isSome, not_iff_not,
      exists_groupLot_iff (mem_toList_iff_getElem?_eq_some.1 hentry)]
    exact or_iff_left fun h => by cases h
  show (state.keys.foldl planSingle ((collectGroups state).toList.foldl
    (fun planner (group : LinkKey × List Bytes) => planGroup state planner group.2)
    emptyPlanner)).plan = _
  rw [hgroups, foldl_planSingle _ _ nodup_keys, hsingles, lotsOf, allotAll,
    allotAll, allotAll, List.foldl_append, List.map_map]
  rfl

def lotOf (state : PathMap Metadata) (p : Bytes) (metadata : Metadata) : Lot :=
  if metadata.isGrouped then groupLot state (membersOf state metadata.linkKey) else singleLot p

theorem mem_lotsOf {lot : Lot} : lot ∈ lotsOf state ↔
      ∃ p metadata, state[p]? = some metadata ∧ lot = lotOf state p metadata := by
  rw [lotsOf, List.mem_append, List.mem_map, List.mem_map]
  constructor
  · rintro (⟨⟨key, members⟩, hgroup, rfl⟩ | ⟨⟨p, metadata⟩, hentry, rfl⟩)
    · obtain ⟨rfl, hne⟩ := mem_collectGroups.1 hgroup
      obtain ⟨p, hmem⟩ := exists_mem_of_ne_nil _ hne
      obtain ⟨metadata, hp, hg, rfl⟩ := mem_membersOf.1 hmem
      exact ⟨p, metadata, hp, (if_pos hg).symm⟩
    · obtain ⟨hp, hg⟩ := mem_filter.1 hentry
      exact ⟨p, metadata, mem_toList_iff_getElem?_eq_some.1 hp, (if_neg (by simpa using hg)).symm⟩
  · rintro ⟨p, metadata, hp, rfl⟩
    by_cases hg : metadata.isGrouped = true
    · have hmem : p ∈ membersOf state metadata.linkKey := mem_membersOf.2 ⟨metadata, hp, hg, rfl⟩
      exact .inl ⟨(metadata.linkKey, _), mem_collectGroups.2 ⟨rfl, ne_nil_of_mem hmem⟩,
        (if_pos hg).symm⟩
    · exact .inr ⟨(p, metadata), mem_filter.2
        ⟨mem_toList_iff_getElem?_eq_some.2 hp, by simpa using hg⟩, (if_neg hg).symm⟩

/-- Two entries of the state that the plan is to treat as one file. -/
def SameFile (p : Bytes) (metadata : Metadata) (q : Bytes) (metadata' : Metadata) : Prop :=
  p = q ∨ metadata.isGrouped = true ∧ metadata'.isGrouped = true ∧
    metadata.linkKey = metadata'.linkKey

variable {metadata' : Metadata}

theorem mem_lotOf (hp : state[p]? = some metadata) (hq : state[q]? = some metadata') :
    q ∈ (lotOf state p metadata).members ↔ SameFile p metadata q metadata' := by
  unfold lotOf SameFile
  by_cases hg : metadata.isGrouped = true
  · rw [if_pos hg, mem_groupLot, mem_membersOf]
    constructor
    · rintro ⟨_, hq', hg', hkey⟩
      obtain rfl := some.inj (hq.symm.trans hq')
      exact .inr ⟨hg, hg', hkey.symm⟩
    · rintro (rfl | ⟨-, hg', hkey⟩)
      · exact ⟨metadata, hp, hg, rfl⟩
      · exact ⟨metadata', hq, hg', hkey.symm⟩
  · rw [if_neg hg, singleLot, mem_singleton]
    exact ⟨fun h => .inl h.symm, fun h => (h.resolve_right fun h => hg h.1).symm⟩

theorem lotOf_eq_of_sameFile (hp : state[p]? = some metadata)
    (hq : state[q]? = some metadata') (h : SameFile p metadata q metadata') :
    lotOf state p metadata = lotOf state q metadata' := by
  rcases h with rfl | ⟨hg, hg', hkey⟩
  · rw [some.inj (hp.symm.trans hq)]
  · rw [lotOf, lotOf, if_pos hg, if_pos hg', hkey]

theorem exists_of_mem_lotOf
    (hp : state[p]? = some metadata) (hq : q ∈ (lotOf state p metadata).members) :
    ∃ metadata', state[q]? = some metadata' := by
  unfold lotOf at hq
  by_cases hg : metadata.isGrouped = true
  · rw [if_pos hg, mem_groupLot, mem_membersOf] at hq
    obtain ⟨metadata', hq, -⟩ := hq
    exact ⟨metadata', hq⟩
  · rw [if_neg hg, singleLot, mem_singleton] at hq
    exact ⟨metadata, by rw [hq, hp]⟩

theorem lot_unique {a b : Lot} (ha : a ∈ lotsOf state)
    (hb : b ∈ lotsOf state) (hpa : p ∈ a.members) (hpb : p ∈ b.members) : a = b := by
  obtain ⟨q, metadata, hq, rfl⟩ := mem_lotsOf.1 ha
  obtain ⟨r, metadata', hr, rfl⟩ := mem_lotsOf.1 hb
  obtain ⟨metadata'', hp⟩ := exists_of_mem_lotOf hq hpa
  rw [lotOf_eq_of_sameFile hq hp ((mem_lotOf hq hp).1 hpa),
    lotOf_eq_of_sameFile hr hp ((mem_lotOf hr hp).1 hpb)]

theorem toList_nodup {κ ν : Type} {cmp : κ → κ → Ordering} [Std.TransCmp cmp] [Std.LawfulEqCmp cmp]
    (map : Std.ExtTreeMap κ ν cmp) : map.toList.Nodup :=
  distinct_keys_toList.imp fun h heq => h (by rw [heq]; exact Std.ReflCmp.compare_self)

theorem lotsOf_nodup (state : PathMap Metadata) : (lotsOf state).Nodup := by
  refine nodup_append.2 ⟨?_, ?_, ?_⟩
  · refine (toList_nodup _).map_on ?_
    rintro ⟨key, members⟩ hgroup ⟨key', members'⟩ hgroup' hlot
    obtain ⟨rfl, hne⟩ := mem_collectGroups.1 hgroup
    obtain ⟨rfl, -⟩ := mem_collectGroups.1 hgroup'
    obtain ⟨p, hmem⟩ := exists_mem_of_ne_nil _ hne
    have hmem' : p ∈ (groupLot state (membersOf state key')).members := by
      rw [← hlot]
      exact mem_groupLot.2 hmem
    obtain ⟨metadata, hp, -, rfl⟩ := mem_membersOf.1 hmem
    obtain ⟨_, hp', -, rfl⟩ := mem_membersOf.1 (mem_groupLot.1 hmem')
    obtain rfl := some.inj (hp.symm.trans hp')
    rfl
  · refine ((toList_nodup state).filter _).map_on ?_
    rintro ⟨p, metadata⟩ hentry ⟨q, metadata'⟩ hentry' hlot
    obtain rfl : p = q := by simpa [singleLot] using hlot
    have hp := mem_toList_iff_getElem?_eq_some.1 (mem_filter.1 hentry).1
    have hq := mem_toList_iff_getElem?_eq_some.1 (mem_filter.1 hentry').1
    rw [some.inj (hp.symm.trans hq)]
  · rintro a ha b hb rfl
    obtain ⟨⟨p, metadata⟩, hentry, rfl⟩ := mem_map.1 hb
    obtain ⟨hp, hg⟩ := mem_filter.1 hentry
    have hgrouped := (exists_groupLot_iff (mem_toList_iff_getElem?_eq_some.1 hp)).1
      ⟨_, ha, mem_singleton_self p⟩
    simp [hgrouped] at hg

theorem lotsOf_disjoint (state : PathMap Metadata) :
    (lotsOf state).Pairwise fun a b => ∀ p ∈ a.members, p ∉ b.members :=
  (lotsOf_nodup state).imp_of_mem fun ha hb hne _ hpa hpb => hne (lot_unique ha hb hpa hpb)

theorem lotOf_mem (hp : state[p]? = some metadata) :
    lotOf state p metadata ∈ lotsOf state ∧ p ∈ (lotOf state p metadata).members :=
  ⟨mem_lotsOf.2 ⟨p, metadata, hp, rfl⟩, (mem_lotOf hp hp).2 (.inl rfl)⟩

theorem length_lotsOf_le (state : PathMap Metadata) : (lotsOf state).length ≤ state.size := by
  have hhead : ∀ lot ∈ lotsOf state, lot.members.headD [] ∈ lot.members := by
    intro lot hlot
    obtain ⟨p, metadata, hp, rfl⟩ := mem_lotsOf.1 hlot
    cases hmembers : (lotOf state p metadata).members with
    | nil => exact absurd (lotOf_mem hp).2 (by simp [hmembers])
    | cons first rest => simp
  have hnodup : ((lotsOf state).map fun lot => lot.members.headD []).Nodup :=
    (lotsOf_nodup state).map_on fun a ha b hb heq =>
      lot_unique ha hb (hhead a ha) (by rw [heq]; exact hhead b hb)
  have hsubset : ((lotsOf state).map fun lot => lot.members.headD []) ⊆ state.keys := by
    intro p hmem
    obtain ⟨lot, hlot, rfl⟩ := mem_map.1 hmem
    have hin := hhead lot hlot
    obtain ⟨q, metadata, hq, rfl⟩ := mem_lotsOf.1 hlot
    obtain ⟨metadata', hget⟩ := exists_of_mem_lotOf hq hin
    rw [Std.ExtTreeMap.mem_keys, Std.ExtTreeMap.mem_iff_isSome_getElem?, hget]
    rfl
  have hle := (hnodup.subperm hsubset).length_le
  rwa [length_map, length_keys] at hle

/-! ## The canonical member -/

def sizeAt (state : PathMap Metadata) (p : Bytes) : UInt32 := ((state[p]?).map bodySizeOf).getD 0

theorem foldl_largest (state : PathMap Metadata) (members : List Bytes) (first : Bytes) :
    let largest := members.foldl (fun best current =>
      if sizeAt state best < sizeAt state current then current else best) first
    largest ∈ first :: members ∧ ∀ q ∈ first :: members, sizeAt state q ≤ sizeAt state largest := by
  induction members generalizing first with
  | nil => simp
  | cons member members ih =>
    obtain ⟨hmem, hmax⟩ := ih (if sizeAt state first < sizeAt state member then member else first)
    rw [foldl_cons]
    refine ⟨?_, fun q hq => ?_⟩
    · rcases mem_cons.1 hmem with heq | hmem
      · rw [heq]
        split <;> simp
      · exact mem_cons_of_mem _ (mem_cons_of_mem _ hmem)
    · have hbest := hmax _ mem_cons_self
      rcases mem_cons.1 hq with rfl | hq
      · refine UInt32.le_trans ?_ hbest
        split
        · next hlt => exact UInt32.le_of_lt hlt
        · exact UInt32.le_refl _
      · rcases mem_cons.1 hq with rfl | hq
        · refine UInt32.le_trans ?_ hbest
          split
          · exact UInt32.le_refl _
          · next hlt => exact UInt32.not_lt.1 hlt
        · exact hmax q (mem_cons_of_mem _ hq)

theorem canonicalMember_largest (hne : members ≠ []) :
    ∃ c ∈ members, canonicalMember state members = some c ∧
      ∀ q ∈ members, sizeAt state q ≤ sizeAt state c := by
  cases members with
  | nil => exact absurd rfl hne
  | cons first rest =>
    obtain ⟨hmem, hmax⟩ := foldl_largest state rest first
    exact ⟨_, hmem, rfl, hmax⟩

/-! ## What the plan says of an entry -/

section
variable {state : PathMap Metadata} (hsize : state.size < 2 ^ 32 - 1)
include hsize

variable {p : Bytes} {metadata : Metadata}

section

variable (hp : state[p]? = some metadata)
include hp

theorem plan_holds : ∃ i, (lotsOf state)[i]? = some (lotOf state p metadata) ∧
      (lotOf state p metadata).Holds (planHardlinks state) (identityAt i) := by
  obtain ⟨i, hi⟩ := mem_iff_getElem?.1 (lotOf_mem hp).1
  have hlen := length_lotsOf_le state
  have hat : emptyPlanner.At 0 := rfl
  have hholds := allotLot_loop.foldl_holds hat (by omega) (lotsOf_disjoint state) hi
  rw [Nat.zero_add] at hholds
  rw [planHardlinks_eq]
  exact ⟨i, hi, hholds⟩

/-- **Identities.**  Two entries share one exactly when they are one path or
members of one group. -/
theorem assignmentFor_eq_iff {q : Bytes} (hq : state[q]? = some metadata') :
    ((planHardlinks state).assignmentFor p).1 = ((planHardlinks state).assignmentFor q).1 ↔
      SameFile p metadata q metadata' := by
  obtain ⟨i, hi, hholds⟩ := plan_holds hsize hp
  obtain ⟨j, hj, hholds'⟩ := plan_holds hsize hq
  have hidp := hholds.identity p (lotOf_mem hp).2
  have hidq := hholds'.identity q (lotOf_mem hq).2
  simp only [HardlinkPlan.assignmentFor, hidp, hidq, getD_some]
  constructor
  · intro heq
    have hlen := length_lotsOf_le state
    have hi' := (List.getElem?_eq_some_iff.1 hi).1
    have hj' := (List.getElem?_eq_some_iff.1 hj).1
    obtain rfl := identityAt_inj (by omega) (by omega) heq
    have hlots : lotOf state p metadata = lotOf state q metadata' := some.inj (hi.symm.trans hj)
    refine (mem_lotOf hp hq).1 ?_
    rw [hlots]
    exact (lotOf_mem hq).2
  · intro hsame
    have hq' := hholds.identity q ((mem_lotOf hp hq).2 hsame)
    exact some.inj (hq'.symm.trans hidq)

theorem nlinkFor_eq : (planHardlinks state).nlinkFor p = (lotOf state p metadata).nlink := by
  obtain ⟨i, -, hholds⟩ := plan_holds hsize hp
  simp only [HardlinkPlan.nlinkFor, hholds.identity p (lotOf_mem hp).2, getD_some, hholds.nlink]

/-- **The canonical member.**  Each group has one, it has the largest body, and
only it is told to carry the body. -/
theorem assignmentFor_canonical :
    ∃ c metadata', state[c]? = some metadata' ∧ SameFile p metadata c metadata' ∧
      (∀ q metadata'', state[q]? = some metadata'' → SameFile p metadata q metadata'' →
        (((planHardlinks state).assignmentFor q).2 = true ↔ q = c) ∧
        bodySizeOf metadata'' ≤ bodySizeOf metadata') := by
  obtain ⟨i, -, hholds⟩ := plan_holds hsize hp
  obtain ⟨c, hmem, hcanonical, hmax⟩ : ∃ c ∈ (lotOf state p metadata).members,
      (lotOf state p metadata).canonical = some c ∧
        ∀ q ∈ (lotOf state p metadata).members, sizeAt state q ≤ sizeAt state c := by
    have hin := (lotOf_mem hp).2
    unfold lotOf at hin ⊢
    by_cases hg : metadata.isGrouped = true
    · rw [if_pos hg] at hin ⊢
      exact canonicalMember_largest (ne_nil_of_mem hin)
    · rw [if_neg hg]
      refine ⟨p, mem_singleton_self p, rfl, fun q hq => ?_⟩
      rw [mem_singleton.1 hq]
      exact UInt32.le_refl _
  obtain ⟨metadata', hc⟩ := exists_of_mem_lotOf hp hmem
  refine ⟨c, metadata', hc, (mem_lotOf hp hc).1 hmem, fun q metadata'' hq hsame => ⟨?_, ?_⟩⟩
  · have hq' := hholds.identity q ((mem_lotOf hp hq).2 hsame)
    simp [HardlinkPlan.assignmentFor, hq', hholds.canonical c hcanonical, eq_comm]
  · have := hmax q ((mem_lotOf hp hq).2 hsame)
    simpa [sizeAt, hq, hc] using this

end

end

end Jyth.Image
