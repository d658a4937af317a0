import Jyth.Image.Flatten
import Jyth.Lib.Run

/-!
# The overlay against its reference

The reference keeps a tree, what stands at each component path, and knows
nothing of the spelling of paths.  In a layer the whiteouts act first, on what
the layers below left, and then the layer's entries are put one by one:

    named whiteout     the path and all below it go
    opaque whiteout    all strictly below the directory goes, the directory stays
    entry              replaces what stands there, with its subtree when the type
                       changes between directory and non-directory

`treeOf` reads the source's map as such a tree.  `step_treeOf_iff` says which
changes the source makes as the reference does, `buildState_overlay_iff` which
builds, and `buildState_moved` that the place of a marker in its layer never
matters.
-/

namespace Jyth.Image

open Format List Option Std.ExtTreeMap Tree

/-! ## The reference -/

/-- What stands at each component path. -/
abbrev Tree (α : Type) := Table (List Bytes) α

section
variable {α : Type}

namespace Tree

def empty : Tree α := fun _ => none

/-- The node at `c` and all below it go. -/
def prune (t : Tree α) (c : List Bytes) : Tree α := fun c' => if c <+: c' then none else t c'

/-- All strictly below `c` goes. -/
def clear (t : Tree α) (c : List Bytes) : Tree α :=
  fun c' => if c <+: c' ∧ c' ≠ c then none else t c'

/-- A new node takes the place of the one at `c`; a change of type takes the subtree along. -/
def put [Node α] (t : Tree α) (c : List Bytes) (node : α) : Tree α :=
  let typeChanges := (t c).any fun existing => isDirectory existing != isDirectory node
  Table.insert (if typeChanges then t.prune c else t) c node

end Tree

def refWhiteout (t : Tree α) : Whiteout → Tree α
  | .named parent name => t.prune (components (whiteoutTarget parent name))
  | .opaqueDir parent => t.clear (components (if parent = [] then rootPath else parent))

def refLayer [Node α] (t : Tree α) (layer : List (LayerEntry α)) : Tree α :=
  (regulars layer).foldl (fun t regular => t.put (components regular.1) regular.2)
    ((whiteouts layer).foldl refWhiteout t)

def refOverlay [Node α] (layers : List (List (LayerEntry α))) : Tree α :=
  layers.foldl refLayer Tree.empty

def refStep [Node α] (t : Tree α) : Op α → Tree α
  | .whiteout wh => refWhiteout t wh
  | .insert path entry => t.put (components path) entry

theorem refOverlay_eq_run [Node α] (layers : List (List (LayerEntry α))) :
    refOverlay layers = (layers.flatMap ops).foldl refStep Tree.empty := by
  rw [refOverlay, foldl_flatMap]
  congr 1
  funext t layer
  rw [ops, foldl_append, foldl_map, foldl_map]
  rfl

/-! ## The map as a tree -/

def pathOf (c : List Bytes) : Bytes := if c = [] then rootPath else joinSlash c

def treeOf (map : PathMap α) : Tree α :=
  fun c => if components (pathOf c) = c then map[pathOf c]? else none

theorem pathOf_components (p : Bytes) : pathOf (components p) = p := by
  unfold pathOf
  by_cases hp : p = rootPath
  · rw [hp, components_rootPath, if_pos rfl]
  · rw [if_neg (components_ne_nil hp), components_of_ne hp]
    exact intercalate_splitOn slash

@[simp] theorem treeOf_components (map : PathMap α) (p : Bytes) :
    treeOf map (components p) = map[p]? := by
  simp only [treeOf, pathOf_components, if_true]

variable {map : PathMap α}

theorem treeOf_eq_iff {t : Tree α} (hrange : ∀ c, (∀ p, components p ≠ c) → t c = none) :
    treeOf map = t ↔ ∀ p : Bytes, map[p]? = t (components p) := by
  constructor
  · rintro rfl p
    rw [treeOf_components]
  · intro h
    funext c
    by_cases hc : components (pathOf c) = c
    · rw [treeOf, if_pos hc, h, hc]
    · rw [treeOf, if_neg hc]
      refine (hrange c fun p hp => hc ?_).symm
      rw [← hp, pathOf_components]

theorem treeOf_eq_none {c : List Bytes} (h : ∀ p, components p ≠ c) :
    treeOf map c = none := if_neg (h _)

theorem remove_agree_iff {code ref : Bytes → Prop} [DecidablePred code] [DecidablePred ref] :
    (∀ p : Bytes, (if code p then none else map[p]?) = if ref p then none else map[p]?) ↔
      ∀ p ∈ map, (code p ↔ ref p) := by
  refine forall_congr' fun p => ?_
  rw [mem_iff_isSome_getElem?]
  cases map[p]? with
  | none => simp
  | some entry => by_cases hc : code p <;> by_cases hr : ref p <;> simp [hc, hr]

/-! ## One change -/

variable [Node α]

/-- Symlink-free states in which no key is spelled below `.`. -/
structure Tidy (map : PathMap α) : Prop where
  noSymlinks : NoSymlinks map
  keys : ∀ p ∈ map, ¬ rootPath ++ [slash] <+: p

omit [Node α] in
theorem mem_iff_exists {p : Bytes} : p ∈ map ↔ ∃ entry, map[p]? = some entry := by
  rw [mem_iff_isSome_getElem?, isSome_iff_exists]

/-- What the premises on layers say of a change. -/
def Op.Tidy : Op α → Prop
  | .whiteout (.named ..) => True
  | .whiteout (.opaqueDir parent) => parent ≠ rootPath
  | .insert path entry => symlinkTarget entry = none ∧ ¬ rootPath ++ [slash] <+: path

/-- The changes the source makes as the reference does: a whiteout of the root
finds at most the root, an opaque whiteout of the root finds no entry for it, and
a change of type removes a directory other than the root or finds nothing below. -/
def Op.Faithful (map : PathMap α) : Op α → Prop
  | .whiteout (.named parent name) =>
    whiteoutTarget parent name = rootPath → ∀ p ∈ map, p = rootPath
  | .whiteout (.opaqueDir parent) => parent = [] → rootPath ∉ map
  | .insert path entry =>
    ∀ existing, map[path]? = some existing → isDirectory existing ≠ isDirectory entry →
      isDirectory existing ∧ path ≠ rootPath ∨ ∀ p ∈ map, ¬ Below path p

theorem refStep_range (map : PathMap α) (op : Op α) (c : List Bytes)
    (h : ∀ p, components p ≠ c) : refStep (treeOf map) op c = none := by
  have hnone : treeOf map c = none := treeOf_eq_none h
  cases op with
  | whiteout wh => cases wh <;> simp [refStep, refWhiteout, Tree.prune, Tree.clear, hnone]
  | insert path entry =>
    simp only [refStep, Tree.put, Table.insert_apply, if_neg (h path).symm]
    split <;> simp [Tree.prune, hnone]

theorem named_treeOf_iff (ht : Tidy map) (parent name : Bytes) :
    treeOf (stepOp map (.whiteout (.named parent name))) =
        refStep (treeOf map) (.whiteout (.named parent name)) ↔
      (Op.whiteout (.named parent name) : Op α).Faithful map := by
  rw [treeOf_eq_iff (refStep_range map _)]
  simp only [getElem?_stepOp_whiteout, refStep, refWhiteout, Tree.prune, treeOf_components,
    components_prefix_iff]
  rw [remove_agree_iff, Op.Faithful]
  generalize hroot : whiteoutTarget parent name = target
  by_cases h : target = rootPath
  · subst h
    refine ⟨fun hall _ p hp => ?_, fun hall p hp => ?_⟩
    · by_contra hne
      rcases (hall p hp).2 (.inr (below_rootPath.2 hne)) with heq | hbelow
      · exact hne (by rw [heq, hroot])
      · rw [hroot] at hbelow
        exact ht.keys p hp hbelow
    · have heq := hall rfl p hp
      exact iff_of_true (.inl (by rw [heq, hroot])) (.inl heq)
  · refine iff_of_true (fun p _ => ?_) fun heq => absurd heq h
    rw [below_iff_startsWith h, Whiteout.Removes, hroot]

theorem opaque_treeOf_iff {parent : Bytes} (hparent : parent ≠ rootPath) :
    treeOf (stepOp map (.whiteout (.opaqueDir parent))) =
        refStep (treeOf map) (.whiteout (.opaqueDir parent)) ↔
      (Op.whiteout (.opaqueDir parent) : Op α).Faithful map := by
  have hbelow : ∀ p d : Bytes, components d <+: components p ∧ components p ≠ components d ↔
      Below d p := fun p d => by
    rw [Below, components_injective.ne_iff, ne_comm]
  rw [treeOf_eq_iff (refStep_range map _)]
  simp only [getElem?_stepOp_whiteout, refStep, refWhiteout, Tree.clear, treeOf_components, hbelow]
  rw [remove_agree_iff, Op.Faithful]
  by_cases h : parent = []
  · simp only [h, if_true, Whiteout.Removes, true_or, true_iff, forall_const, below_rootPath]
    exact ⟨fun hall hmem => hall _ hmem rfl, fun hnot p hp heq => hnot (heq ▸ hp)⟩
  · refine iff_of_true (fun p _ => ?_) fun heq => absurd heq h
    rw [if_neg h, below_iff_startsWith hparent]
    simp [Whiteout.Removes, h]

/-- A directory takes the place of another entry, or the other way round. -/
def TypeChanges (map : PathMap α) (path : Bytes) (entry : α) : Prop :=
  (map[path]?).any (fun existing => isDirectory existing != isDirectory entry) = true

instance (map : PathMap α) (path : Bytes) (entry : α) : Decidable (TypeChanges map path entry) :=
  inferInstanceAs (Decidable (_ = true))

theorem put_components (map : PathMap α) (path : Bytes) (entry : α) (p : Bytes) :
    (treeOf map).put (components path) entry (components p) = if p = path then some entry
      else if TypeChanges map path entry ∧ Below path p then none else map[p]? := by
  simp only [Tree.put, Table.insert_apply, components_injective.eq_iff, treeOf_components,
    TypeChanges]
  by_cases hp : p = path
  · simp [hp]
  have hbelow : components path <+: components p ↔ Below path p := by
    rw [components_prefix_iff]
    simp [hp]
  rw [if_neg hp, if_neg hp]
  by_cases hchange : (map[path]?).any (fun existing => isDirectory existing != isDirectory entry) = true
  · rw [if_pos hchange, Tree.prune, treeOf_components]
    simp [hbelow, hchange]
  · rw [if_neg hchange, treeOf_components]
    simp [hchange]

theorem displaces_iff_faithful (ht : Tidy map) (path : Bytes) (entry : α) :
    (∀ p ∈ map, (Displaces map path entry p ↔ TypeChanges map path entry ∧ Below path p)) ↔
      (Op.insert path entry).Faithful map := by
  unfold Displaces TypeChanges Op.Faithful
  rcases eq_none_or_eq_some map[path]? with hold | ⟨existing, hold⟩
  · simp [hold]
  simp only [hold, any_some, some.injEq, forall_eq']
  cases hwas : isDirectory existing <;> cases his : isDirectory entry
  · simp
  · simp
  · by_cases hroot : path = rootPath
    · subst hroot
      simp only [Bool.not_false, Bool.and_true, and_true, bne_iff_ne, ne_eq, Bool.true_eq_false,
        not_false_eq_true, true_and, not_true_eq_false, and_false, false_or, forall_const]
      exact forall₂_congr fun p hp => by simp [ht.keys p hp]
    · simp [hroot, below_iff_startsWith hroot]
  · simp

theorem insert_treeOf_iff (ht : Tidy map) (path : Bytes) (entry : α) :
    treeOf (stepOp map (.insert path entry)) = refStep (treeOf map) (.insert path entry) ↔
      (Op.insert path entry).Faithful map := by
  rw [treeOf_eq_iff (refStep_range map _), ← displaces_iff_faithful ht, ← remove_agree_iff]
  refine forall_congr' fun p => ?_
  rw [getElem?_stepOp_insert, storedAt_of_noSymlinks ht.noSymlinks, refStep, put_components]
  by_cases hp : p = path
  · subst hp
    simp [not_displaces_self, Below]
  · rw [if_neg hp, if_neg hp]

/-- **One change.**  The source and the reference make the same change exactly
when it is faithful. -/
theorem step_treeOf_iff {op : Op α} (ht : Tidy map) (ho : op.Tidy) :
    treeOf (stepOp map op) = refStep (treeOf map) op ↔ op.Faithful map := by
  cases op with
  | whiteout wh =>
    cases wh with
    | named parent name => exact named_treeOf_iff ht parent name
    | opaqueDir parent => exact opaque_treeOf_iff ho
  | insert path entry => exact insert_treeOf_iff ht path entry

/-! ## Whole builds -/

theorem Tidy.step {op : Op α} (ht : Tidy map) (ho : op.Tidy) : Tidy (stepOp map op) := by
  constructor
  · intro p entry h
    rcases eq_some_of_stepOp h with hold | ⟨path, rfl, -⟩
    · exact ht.noSymlinks p entry hold
    · exact ho.1
  · intro p hp
    obtain ⟨entry, h⟩ := mem_iff_exists.1 hp
    rcases eq_some_of_stepOp h with hold | ⟨path, rfl, hpath⟩
    · exact ht.keys p (mem_iff_exists.2 ⟨entry, hold⟩)
    · rw [hpath, storedAt_of_noSymlinks ht.noSymlinks]
      exact ho.2

theorem tidy_empty : Tidy (∅ : PathMap α) :=
  ⟨fun p entry h => by simp at h, fun p hp => by simp at hp⟩

omit [Node α] in
theorem treeOf_empty : treeOf (∅ : PathMap α) = Tree.empty :=
  (treeOf_eq_iff fun _ _ => rfl).2 fun _ => getElem?_empty

/-- After every initial part of the changes the state is the reference state,
exactly when every change is faithful in the state it is made in. -/
theorem run_treeOf_iff {changes : List (Op α)} (htidy : ∀ op ∈ changes, op.Tidy) :
    (∀ front, front <+: changes → treeOf (front.foldl stepOp ∅) = front.foldl refStep Tree.empty) ↔
      Run.Steps stepOp (fun map op => op.Faithful map) ∅ changes := by
  refine Run.related_iff_steps stepOp refStep (R := fun map t => treeOf map = t) (I := Tidy)
    (fun map op hop ht => ht.step (htidy op hop)) (fun map t op hop ht hmap => ?_)
    tidy_empty treeOf_empty
  subst hmap
  exact step_treeOf_iff ht (htidy op hop)

/-! ## The place of a marker -/

omit [Node α] in
theorem foldl_applyWhiteout_perm {ws ws' : List Whiteout} (h : ws.Perm ws') (map : PathMap α) :
    ws.foldl applyWhiteout map = ws'.foldl applyWhiteout map := by
  refine h.foldl_eq' (fun wh _ wh' _ map => Std.ExtTreeMap.ext_getElem? fun p => ?_) map
  simp only [getElem?_applyWhiteout]
  by_cases h : wh.Removes p <;> by_cases h' : wh'.Removes p <;> simp [h, h']

theorem applyLayer_congr {layer layer' : List (LayerEntry α)}
    (hw : (whiteouts layer).Perm (whiteouts layer')) (hr : regulars layer = regulars layer')
    (map : PathMap α) : applyLayer map layer = applyLayer map layer' := by
  simp only [applyLayer, applyWhiteouts_eq]
  rw [foldl_applyWhiteout_perm hw, hr]

end

def isMarker (entry : Entry) : Bool :=
  match normalizePath entry.name with
  | .ok path => (whiteoutOf path).isSome
  | .error _ => false

/-- The name of the entry is a whiteout marker. -/
def Marks (entry : Entry) (wh : Whiteout) : Prop :=
  ∃ path, normalizePath entry.name = .ok path ∧ whiteoutOf path = some wh

variable {spool : Spool} {sourceLayer : Nat} {spool' : Spool} {decoded : LayerEntry Metadata}
  {entry : Entry}

theorem decodeEntry_of_marker (h : isMarker entry = true) :
    decodeEntry sourceLayer entry spool = .ok (decoded, spool') ↔
      ∃ wh, Marks entry wh ∧ decoded = .whiteout wh ∧ spool' = spool := by
  rw [decodeEntry_eq_ok]
  constructor
  · rintro ⟨path, hpath, ⟨wh, hwh, rfl, rfl⟩ | ⟨hnone, -⟩⟩
    · exact ⟨wh, ⟨path, hpath, hwh⟩, rfl, rfl⟩
    · simp [isMarker, hpath, hnone] at h
  · rintro ⟨wh, ⟨path, hpath, hwh⟩, rfl, rfl⟩
    exact ⟨path, hpath, .inl ⟨wh, hwh, rfl, rfl⟩⟩

theorem decodeEntry_of_not_marker (h : isMarker entry = false)
    (hdec : decodeEntry sourceLayer entry spool = .ok (decoded, spool')) :
    ∃ path metadata, decoded = .regular path metadata := by
  obtain ⟨path, hpath, ⟨wh, hwh, rfl, rfl⟩ | ⟨-, metadata, rfl, -⟩⟩ := decodeEntry_eq_ok.1 hdec
  · simp [isMarker, hpath, hwh] at h
  · exact ⟨path, metadata, rfl⟩

theorem readLayer_split {entries : List Entry} {ws : List Whiteout} {rs : List (Bytes × Metadata)} :
    (∃ decoded, readLayer sourceLayer entries spool = .ok (decoded, spool') ∧
        whiteouts decoded = ws ∧ regulars decoded = rs) ↔
      List.Forall₂ Marks (entries.filter isMarker) ws ∧
        ∃ decoded, readLayer sourceLayer (entries.filter fun e => !isMarker e) spool =
          .ok (decoded, spool') ∧ regulars decoded = rs := by
  induction entries generalizing spool ws rs with
  | nil =>
    simp only [readLayer, pure_eq_ok, Prod.mk.injEq, filter_nil, forall₂_nil_left_iff, existsAndEq,
      and_assoc, true_and, @eq_comm _ ws]
    exact and_left_comm
  | cons entry entries ih =>
    cases hm : isMarker entry with
    | true =>
      simp only [readLayer_cons_eq_ok, decodeEntry_of_marker hm, filter_cons, hm, if_true,
        Bool.not_true, Bool.false_eq_true, if_false, forall₂_cons_left_iff]
      constructor
      · rintro ⟨_, ⟨_, _, ⟨wh, hmarks, rfl, rfl⟩, rest, hrest, rfl⟩, rfl, rfl⟩
        obtain ⟨hws, hreg⟩ := ih.1 ⟨rest, hrest, rfl, rfl⟩
        exact ⟨⟨wh, _, hmarks, hws, rfl⟩, hreg⟩
      · rintro ⟨⟨wh, ws, hmarks, hws, rfl⟩, hreg⟩
        obtain ⟨rest, hrest, rfl, rfl⟩ := ih.2 ⟨hws, hreg⟩
        exact ⟨_, ⟨_, _, ⟨wh, hmarks, rfl, rfl⟩, rest, hrest, rfl⟩, rfl, rfl⟩
    | false =>
      simp only [readLayer_cons_eq_ok, filter_cons, hm, Bool.not_false, if_true,
        Bool.false_eq_true, if_false]
      constructor
      · rintro ⟨_, ⟨first, spool₁, hfirst, rest, hrest, rfl⟩, rfl, rfl⟩
        obtain ⟨path, metadata, rfl⟩ := decodeEntry_of_not_marker hm hfirst
        obtain ⟨hws, rest', hrest', hreg⟩ := ih.1 ⟨rest, hrest, rfl, rfl⟩
        exact ⟨hws, _, ⟨_, spool₁, hfirst, rest', hrest', rfl⟩,
          congrArg (List.cons (path, metadata)) hreg⟩
      · rintro ⟨hws, _, ⟨first, spool₁, hfirst, rest, hrest, rfl⟩, rfl⟩
        obtain ⟨path, metadata, rfl⟩ := decodeEntry_of_not_marker hm hfirst
        obtain ⟨rest', hrest', hw', hreg⟩ := ih.2 ⟨hws, rest, hrest, rfl⟩
        exact ⟨_, ⟨_, spool₁, hfirst, rest', hrest', rfl⟩, hw',
          congrArg (List.cons (path, metadata)) hreg⟩

/-- The same entries in the same order, the markers elsewhere. -/
def Moved (layer layer' : Layer) : Prop :=
  (layer.entries.filter fun e => !isMarker e) = (layer'.entries.filter fun e => !isMarker e) ∧
    (layer.entries.filter isMarker).Perm (layer'.entries.filter isMarker)

theorem readLayer_moved {layer layer' : Layer}
    {decoded : List (LayerEntry Metadata)} (hmoved : Moved layer layer')
    (h : readLayer sourceLayer layer.entries spool = .ok (decoded, spool')) :
    ∃ decoded', readLayer sourceLayer layer'.entries spool = .ok (decoded', spool') ∧
      (whiteouts decoded).Perm (whiteouts decoded') ∧ regulars decoded = regulars decoded' := by
  obtain ⟨hws, hreg⟩ := readLayer_split.1 ⟨decoded, h, rfl, rfl⟩
  obtain ⟨ws', hws', hperm⟩ := perm_comp_forall₂ hmoved.2.symm hws
  rw [hmoved.1] at hreg
  obtain ⟨decoded', h', rfl, hr⟩ := readLayer_split.2 ⟨hws', hreg⟩
  exact ⟨decoded', h', hperm.symm, hr.symm⟩

theorem buildStateFrom_moved {layers layers' : List Layer} (h : List.Forall₂ Moved layers layers')
    {layerIndex : Nat} {entries : PathMap Metadata} {result : PathMap Metadata × Spool}
    (hbuild : buildStateFrom layerIndex layers entries spool = .ok result) :
    buildStateFrom layerIndex layers' entries spool = .ok result := by
  induction h generalizing layerIndex entries spool with
  | nil => exact hbuild
  | cons hmoved _ ih =>
    rw [buildStateFrom, bind_eq_ok] at hbuild ⊢
    obtain ⟨⟨decoded, spool₁⟩, hread, hrest⟩ := hbuild
    obtain ⟨decoded', hread', hw, hr⟩ := readLayer_moved hmoved hread
    refine ⟨(decoded', spool₁), hread', ih ?_⟩
    rwa [← applyLayer_congr hw hr]

/-! ## `build_state` -/

/-- No entry of the layer is a symlink. -/
def Layer.SymlinkFree (layer : Layer) : Prop :=
  ∀ entry ∈ layer.entries, entry.mode &&& sIfmt ≠ sIflnk

theorem whiteoutOf_parent {path parent : Bytes} (hpath : Normalized path)
    (h : whiteoutOf path = some (.opaqueDir parent)) : parent ≠ rootPath := by
  rw [whiteoutOf, map_eq_some_iff] at h
  obtain ⟨rest, -, hrest⟩ := h
  by_cases hopq : rest = utf8 ".wh..opq"
  · rw [if_pos hopq] at hrest
    cases hrest
    exact parentDirOf_ne_rootPath hpath
  · rw [if_neg hopq] at hrest
    cases hrest

theorem tidy_of_decodes {final : Spool} (hlink : entry.mode &&& sIfmt ≠ sIflnk)
    (h : Decodes sourceLayer final entry decoded) : match decoded with
    | .whiteout wh => (Op.whiteout wh : Op Metadata).Tidy
    | .regular path metadata => (Op.insert path metadata).Tidy := by
  obtain ⟨spool, spool', hdec, -⟩ := h
  obtain ⟨path, hpath, hkind⟩ := decodeEntry_eq_ok.1 hdec
  have hnorm := normalizePath_eq_ok hpath
  rcases hkind with ⟨wh, hwh, rfl, -⟩ | ⟨-, metadata, rfl, hmeta⟩
  · cases wh with
    | named parent name => trivial
    | opaqueDir parent => exact whiteoutOf_parent hnorm hwh
  · refine ⟨?_, hnorm.not_startsWith_dotSlash⟩
    obtain ⟨body, rfl, ⟨-, -, rfl⟩ | ⟨hlnk, -⟩ | ⟨-, -, -, rfl⟩⟩ := decodeEntryMetadata_eq_ok hmeta
    · rfl
    · exact absurd hlnk hlink
    · rfl

theorem tidy_of_decodeLayers {layers : List Layer} {decoded : List (List (LayerEntry Metadata))}
    (hlinks : ∀ layer ∈ layers, layer.SymlinkFree)
    (hdec : decodeLayers 0 layers [] = .ok (decoded, spool)) :
    ∀ op ∈ decoded.flatMap ops, op.Tidy := by
  intro op hop
  obtain ⟨ds, hds, hop⟩ := mem_flatMap.1 hop
  rcases mem_ops.1 hop with ⟨wh, hmem, rfl⟩ | ⟨path, metadata, hmem, rfl⟩
  all_goals
    obtain ⟨i, layer, entry, hlayer, hentry, hd⟩ := exists_decodes hdec hds hmem
    exact tidy_of_decodes (hlinks layer (mem_of_getElem? hlayer) entry hentry) hd

/-- **The overlay of `build_state`.**  For layers without symlinks: the state is
the reference overlay after every initial part of the build exactly when every
change is faithful, the final state is the reference overlay if so, and the
place of the markers in their layers does not matter. -/
theorem buildState_overlay_iff {layers : List Layer} {decoded : List (List (LayerEntry Metadata))}
    {spool : Spool} (hlinks : ∀ layer ∈ layers, layer.SymlinkFree)
    (hdec : decodeLayers 0 layers [] = .ok (decoded, spool)) :
    buildState layers = .ok (overlay decoded, spool) ∧ ((∀ front, front <+: decoded.flatMap ops →
          treeOf (front.foldl stepOp ∅) = front.foldl refStep Tree.empty) ↔
        Run.Steps stepOp (fun map op => op.Faithful map) ∅ (decoded.flatMap ops)) ∧
      (Run.Steps stepOp (fun map op => op.Faithful map) ∅ (decoded.flatMap ops) →
        treeOf (overlay decoded) = refOverlay decoded) ∧
      ∀ layers', List.Forall₂ Moved layers layers' →
        buildState layers' = .ok (overlay decoded, spool) := by
  have hbuild : buildState layers = .ok (overlay decoded, spool) :=
    buildState_eq_ok.2 ⟨decoded, hdec, rfl⟩
  have hrun := run_treeOf_iff (tidy_of_decodeLayers hlinks hdec)
  refine ⟨hbuild, hrun, fun hsteps => ?_, fun layers' hmoved => buildStateFrom_moved hmoved hbuild⟩
  rw [overlay_eq_run, refOverlay_eq_run]
  exact hrun.2 hsteps _ prefix_rfl

/-! ### Two builds -/

def plainEntry (name : String) (mode : UInt32) : Entry :=
  { (Item.entry trailer).entryOf with name := utf8 name, mode := mode }

def layerOf (entries : List Entry) (h : ∀ entry ∈ entries, entry.body = []) : Layer :=
  ⟨entries, fun entry hmem => by rw [h entry hmem]; decide⟩

/-- A directory with a file, and a layer that takes the file away. -/
def fileRemoved : List Layer :=
  [layerOf [plainEntry "d" 0o040755, plainEntry "d/f" 0o100644] (by decide),
    layerOf [plainEntry "d/.wh.f" 0o100644] (by decide)]

theorem fileRemoved_overlay :
    ∃ decoded spool, decodeLayers 0 fileRemoved [] = .ok (decoded, spool) ∧
      treeOf (overlay decoded) = refOverlay decoded := by
  have hlinks : ∀ layer ∈ fileRemoved, layer.SymlinkFree := by
    unfold Layer.SymlinkFree
    decide
  refine ⟨_, _, rfl, (buildState_overlay_iff hlinks rfl).2.2.1 ?_⟩
  refine ⟨fun existing h => ?_, fun existing h => ?_, fun h => ?_, trivial⟩
  · exact absurd (isSome_iff_exists.2 ⟨existing, h⟩) (by decide)
  · exact absurd (isSome_iff_exists.2 ⟨existing, h⟩) (by decide)
  · exact absurd h (by decide)

def fileBelowFile : List Layer :=
  [layerOf [plainEntry "a" 0o100644] (by decide), layerOf [plainEntry "a/b" 0o100644] (by decide)]

def dirOverFile : List Layer := fileBelowFile ++ [layerOf [plainEntry "a" 0o040755] (by decide)]

theorem dirOverFile_diverges :
    ∃ decoded spool, decodeLayers 0 dirOverFile [] = .ok (decoded, spool) ∧
      treeOf (overlay decoded) ≠ refOverlay decoded := by
  refine ⟨_, _, rfl, fun h => ?_⟩
  have hb := congrFun h [utf8 "a", utf8 "b"]
  revert hb
  decide

end Jyth.Image
