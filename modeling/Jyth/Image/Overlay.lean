import Jyth.Image.Path

/-!
# The overlay of layers

`build_state` of `ops/flatten.rs` and the functions under it: whiteouts,
substitution, symlink-ancestor resolution.  They read an entry only through
its type and its symlink target, so they are generic in the entries (`Node`).

Each operation has an observation lemma: what the map holds at a path after it.
A whole build is a run of two kinds of steps (`overlay_eq_run`), the whiteouts
of a layer before its entries.
-/

namespace Jyth.Image

open Format List

/-- What the overlay reads of an entry. -/
class Node (α : Type) where
  isDirectory : α → Bool
  symlinkTarget : α → Option Bytes

export Node (isDirectory symlinkTarget)

/-- `BTreeMap<String, _>`. -/
abbrev PathMap (α : Type) := Std.ExtTreeMap Bytes α compare

/-- A marker for one name, or for all of a directory. -/
inductive Whiteout
  | named (parent name : Bytes)
  | opaqueDir (parent : Bytes)
deriving DecidableEq

inductive LayerEntry (α : Type)
  | regular (path : Bytes) (entry : α)
  | whiteout (wh : Whiteout)
deriving DecidableEq

variable {α : Type}

/-! ## Whiteouts -/

def removeVictims (map : PathMap α) (victim : Bytes → Prop) [DecidablePred victim] : PathMap α :=
  let victims := map.keys.filter fun key => victim key
  victims.foldl (fun map key => map.erase key) map

def removeSubtree (map : PathMap α) (target : Bytes) : PathMap α :=
  removeVictims map fun key => key = target ∨ target ++ [slash] <+: key

def removeDescendants (map : PathMap α) (path : Bytes) : PathMap α :=
  removeVictims map fun key => path ++ [slash] <+: key

def whiteoutTarget (parent name : Bytes) : Bytes :=
  if parent = [] then name else parent ++ [slash] ++ name

def applyWhiteout (map : PathMap α) : Whiteout → PathMap α
  | .named parent name => removeSubtree map (whiteoutTarget parent name)
  | .opaqueDir parent =>
    let keyPrefix := if parent = [] then [] else parent ++ [slash]
    removeVictims map fun key => keyPrefix = [] ∨ keyPrefix <+: key

/-! ## Symlink ancestors -/

/-- One walk over the ancestors of a path: the first that is a symlink with a
UTF-8 target gives the respelled path. `pre` is the ancestor reached so far. -/
def findReplacement [Node α] (entries : PathMap α) (pre : Bytes) : List Bytes → Option Bytes
  | component :: next :: rest =>
    let pre := if pre = [] then component else pre ++ [slash] ++ component
    match (entries[pre]?).bind symlinkTarget with
    | some target =>
      if (fromUtf8? target).isSome then joinSymlinkTarget pre target (joinSlash (next :: rest))
      else findReplacement entries pre (next :: rest)
    | none => findReplacement entries pre (next :: rest)
  | _ => none

def maxSymlinkResolutionDepth : Nat := 40

def resolveLoop [Node α] (entries : PathMap α) : Nat → Bytes → Bytes
  | 0, resolved => resolved
  | depth + 1, resolved =>
    match findReplacement entries [] (resolved.splitOn slash) with
    | some next => resolveLoop entries depth next
    | none => resolved

def resolveSymlinkAncestors [Node α] (path : Bytes) (entries : PathMap α) : Bytes :=
  resolveLoop entries maxSymlinkResolutionDepth path

/-! ## Substitution -/

section
variable [Node α]

def makeRoom (map : PathMap α) (path : Bytes) (entry : α) : PathMap α :=
  match map[path]? with
  | some existing =>
    if isDirectory existing ∧ ¬ isDirectory entry then removeDescendants map path
    else if isDirectory entry ∧ ¬ isDirectory existing then map.erase path
    else map
  | none => map

def insertAndReplace (map : PathMap α) (path : Bytes) (entry : α) : PathMap α :=
  (makeRoom map path entry).insert path entry

/-! ## Layers -/

/-- The first loop over a decoded layer: whiteouts act at once, the other
entries are collected. -/
def applyWhiteouts (map : PathMap α) (layer : List (LayerEntry α)) : PathMap α × List (Bytes × α) :=
  layer.foldl (fun (map, regulars) decoded =>
    match decoded with
    | .whiteout wh => (applyWhiteout map wh, regulars)
    | .regular path entry => (map, regulars ++ [(path, entry)])) (map, [])

def insertRegular (map : PathMap α) (regular : Bytes × α) : PathMap α :=
  insertAndReplace map (resolveSymlinkAncestors regular.1 map) regular.2

def applyLayer (map : PathMap α) (layer : List (LayerEntry α)) : PathMap α :=
  let (map, regulars) := applyWhiteouts map layer
  regulars.foldl insertRegular map

/-- The state `build_state` assembles from decoded layers. -/
def overlay (layers : List (List (LayerEntry α))) : PathMap α := layers.foldl applyLayer ∅

end

/-! ## A build as a run -/

def whiteouts (layer : List (LayerEntry α)) : List Whiteout :=
  layer.filterMap fun | .whiteout wh => some wh | .regular .. => none

def regulars (layer : List (LayerEntry α)) : List (Bytes × α) :=
  layer.filterMap fun | .regular path entry => some (path, entry) | .whiteout _ => none

/-- The two operations a layer is applied with. -/
inductive Op (α : Type)
  | whiteout (wh : Whiteout)
  | insert (path : Bytes) (entry : α)
deriving DecidableEq

/-- The changes a layer makes, in the order it makes them. -/
def ops (layer : List (LayerEntry α)) : List (Op α) :=
  (whiteouts layer).map .whiteout ++ (regulars layer).map fun regular => .insert regular.1 regular.2

theorem mem_ops {layer : List (LayerEntry α)} {op : Op α} :
    op ∈ ops layer ↔ (∃ wh, .whiteout wh ∈ layer ∧ op = .whiteout wh) ∨
      ∃ path entry, .regular path entry ∈ layer ∧ op = .insert path entry := by
  simp only [ops, whiteouts, regulars, mem_append, mem_map, mem_filterMap]
  refine or_congr ⟨?_, ?_⟩ ⟨?_, ?_⟩
  · rintro ⟨wh, ⟨decoded, hmem, hwh⟩, rfl⟩
    cases decoded <;> cases hwh
    exact ⟨wh, hmem, rfl⟩
  · rintro ⟨wh, hmem, rfl⟩
    exact ⟨wh, ⟨_, hmem, rfl⟩, rfl⟩
  · rintro ⟨⟨path, entry⟩, ⟨decoded, hmem, hreg⟩, rfl⟩
    cases decoded <;> cases hreg
    exact ⟨path, entry, hmem, rfl⟩
  · rintro ⟨path, entry, hmem, rfl⟩
    exact ⟨(path, entry), ⟨_, hmem, rfl⟩, rfl⟩

def stepOp [Node α] (map : PathMap α) : Op α → PathMap α
  | .whiteout wh => applyWhiteout map wh
  | .insert path entry => insertRegular map (path, entry)

variable (map : PathMap α)

theorem applyWhiteouts_eq [Node α] (layer : List (LayerEntry α)) :
    applyWhiteouts map layer = ((whiteouts layer).foldl applyWhiteout map, regulars layer) := by
  have hrun : ∀ (map : PathMap α) (front : List (Bytes × α)),
      layer.foldl (fun (x : PathMap α × List (Bytes × α)) decoded =>
        match decoded with
        | .whiteout wh => (applyWhiteout x.1 wh, x.2)
        | .regular path entry => (x.1, x.2 ++ [(path, entry)])) (map, front) =
      ((whiteouts layer).foldl applyWhiteout map, front ++ regulars layer) := by
    induction layer with
    | nil => simp [whiteouts, regulars]
    | cons decoded layer ih =>
      intro map front
      cases decoded with
      | whiteout wh =>
        rw [foldl_cons, ih]
        rfl
      | regular path entry =>
        rw [foldl_cons, ih, append_assoc]
        rfl
  rw [applyWhiteouts]
  exact hrun map []

theorem applyLayer_eq_run [Node α] (layer : List (LayerEntry α)) :
    applyLayer map layer = (ops layer).foldl stepOp map := by
  rw [applyLayer, applyWhiteouts_eq, ops, foldl_append, foldl_map, foldl_map]
  rfl

theorem overlay_eq_run [Node α] (layers : List (List (LayerEntry α))) :
    overlay layers = (layers.flatMap ops).foldl stepOp ∅ := by
  rw [overlay, foldl_flatMap]
  congr 1
  funext map layer
  exact applyLayer_eq_run map layer

/-! ## What a step leaves -/

/-- The whiteout hides the path. -/
def Whiteout.Removes : Whiteout → Bytes → Prop
  | .named parent name, p =>
    p = whiteoutTarget parent name ∨ whiteoutTarget parent name ++ [slash] <+: p
  | .opaqueDir parent, p => parent = [] ∨ parent ++ [slash] <+: p

instance (wh : Whiteout) (p : Bytes) : Decidable (wh.Removes p) := by
  cases wh <;> exact inferInstanceAs (Decidable (_ ∨ _))

theorem getElem?_insert_path (k : Bytes) (v : α) (p : Bytes) :
    (map.insert k v)[p]? = if p = k then some v else map[p]? := by
  rw [Std.ExtTreeMap.getElem?_insert]
  by_cases h : p = k
  · simp [h]
  · rw [if_neg h, if_neg fun hcmp => h (Std.LawfulEqCmp.eq_of_compare hcmp).symm]

theorem getElem?_erase_path (k p : Bytes) :
    (map.erase k)[p]? = if p = k then none else map[p]? := by
  rw [Std.ExtTreeMap.getElem?_erase]
  by_cases h : p = k
  · simp [h]
  · rw [if_neg h, if_neg fun hcmp => h (Std.LawfulEqCmp.eq_of_compare hcmp).symm]

theorem erase_of_getElem?_none {map : PathMap α} {k : Bytes} (h : map[k]? = none) :
    map.erase k = map := by
  refine Std.ExtTreeMap.ext_getElem? fun p => ?_
  rw [getElem?_erase_path]
  split
  · rename_i hp
    rw [hp, h]
  · rfl

theorem getElem?_foldl_erase (victims : List Bytes) (p : Bytes) :
    (victims.foldl (fun map key => map.erase key) map)[p]? =
      if p ∈ victims then none else map[p]? := by
  induction victims generalizing map with
  | nil => simp
  | cons victim victims ih =>
    rw [foldl_cons, ih, getElem?_erase_path]
    by_cases hp : p = victim <;> simp [hp]

theorem getElem?_removeVictims (victim : Bytes → Prop) [DecidablePred victim]
    (p : Bytes) : (removeVictims map victim)[p]? = if victim p then none else map[p]? := by
  rw [removeVictims, getElem?_foldl_erase]
  by_cases hp : p ∈ map
  · by_cases hv : victim p <;> simp [hp, hv]
  · simp [hp]

theorem getElem?_applyWhiteout (wh : Whiteout) (p : Bytes) :
    (applyWhiteout map wh)[p]? = if wh.Removes p then none else map[p]? := by
  cases wh with
  | named parent name => exact getElem?_removeVictims map _ p
  | opaqueDir parent =>
    have hkey : ((if parent = [] then [] else parent ++ [slash]) = [] ∨
        (if parent = [] then [] else parent ++ [slash]) <+: p) ↔
        (Whiteout.opaqueDir parent).Removes p := by
      by_cases h : parent = [] <;> simp [Whiteout.Removes, h]
    simp only [applyWhiteout]
    rw [getElem?_removeVictims]
    simp only [hkey]

section
variable [Node α]

/-- What an insertion at `path` removes: all below a directory that gives way to
something else. -/
def Displaces (map : PathMap α) (path : Bytes) (entry : α) (p : Bytes) : Prop :=
  path ++ [slash] <+: p ∧
    (map[path]?).any (fun existing => isDirectory existing && !isDirectory entry) = true

instance (map : PathMap α) (path : Bytes) (entry : α) (p : Bytes) :
    Decidable (Displaces map path entry p) := inferInstanceAs (Decidable (_ ∧ _))

variable (map : PathMap α)

theorem not_displaces_self (path : Bytes) (entry : α) : ¬ Displaces map path entry path := by
  rintro ⟨h, -⟩
  have := h.length_le
  simp at this

theorem getElem?_insertAndReplace (path : Bytes) (entry : α) (p : Bytes) :
    (insertAndReplace map path entry)[p]? = if p = path then some entry
      else if Displaces map path entry p then none else map[p]? := by
  rw [insertAndReplace, getElem?_insert_path]
  by_cases hp : p = path
  · rw [if_pos hp, if_pos hp]
  rw [if_neg hp, if_neg hp]
  unfold makeRoom Displaces
  rcases Option.eq_none_or_eq_some map[path]? with hold | ⟨existing, hold⟩
  · simp [hold]
  simp only [hold, Option.any_some]
  cases hwas : isDirectory existing <;> cases his : isDirectory entry
  · simp
  · simp [getElem?_erase_path, hp]
  · simp [removeDescendants, getElem?_removeVictims]
  · simp

abbrev storedAt (map : PathMap α) (path : Bytes) : Bytes := resolveSymlinkAncestors path map

theorem getElem?_stepOp_insert (path : Bytes) (entry : α) (p : Bytes) :
    (stepOp map (.insert path entry))[p]? = if p = storedAt map path then some entry
      else if Displaces map (storedAt map path) entry p then none else map[p]? :=
  getElem?_insertAndReplace map _ entry p

theorem getElem?_stepOp_whiteout (wh : Whiteout) (p : Bytes) :
    (stepOp map (.whiteout wh))[p]? = if wh.Removes p then none else map[p]? :=
  getElem?_applyWhiteout map wh p

theorem eq_some_of_stepOp {map : PathMap α} {op : Op α} {p : Bytes} {entry : α}
    (h : (stepOp map op)[p]? = some entry) :
    map[p]? = some entry ∨ ∃ path, op = .insert path entry ∧ p = storedAt map path := by
  cases op with
  | whiteout wh =>
    rw [getElem?_stepOp_whiteout] at h
    by_cases hr : wh.Removes p
    · simp [hr] at h
    · rw [if_neg hr] at h
      exact .inl h
  | insert path new =>
    rw [getElem?_stepOp_insert] at h
    by_cases hp : p = storedAt map path
    · rw [if_pos hp] at h
      exact .inr ⟨path, by rw [Option.some.inj h], hp⟩
    · rw [if_neg hp] at h
      by_cases hd : Displaces map (storedAt map path) new p
      · simp [hd] at h
      · rw [if_neg hd] at h
        exact .inl h

theorem eq_some_of_run {changes : List (Op α)} {map : PathMap α} {p : Bytes} {entry : α}
    (h : (changes.foldl stepOp map)[p]? = some entry) :
    map[p]? = some entry ∨ ∃ path, .insert path entry ∈ changes := by
  induction changes generalizing map with
  | nil => exact .inl h
  | cons op changes ih =>
    rcases ih h with hstep | ⟨path, hmem⟩
    · rcases eq_some_of_stepOp hstep with hmap | ⟨path, rfl, -⟩
      · exact .inl hmap
      · exact .inr ⟨path, mem_cons_self⟩
    · exact .inr ⟨path, mem_cons_of_mem _ hmem⟩

/-! ## Symlink-free states -/

def NoSymlinks (map : PathMap α) : Prop :=
  ∀ (p : Bytes) (entry : α), map[p]? = some entry → symlinkTarget entry = none

theorem findReplacement_of_noSymlinks {map : PathMap α} (h : NoSymlinks map) (pre : Bytes)
    (cs : List Bytes) : findReplacement map pre cs = none := by
  induction cs generalizing pre with
  | nil => rfl
  | cons c cs ih =>
    cases cs with
    | nil => rfl
    | cons next rest =>
      have hnone : (map[if pre = [] then c else pre ++ [slash] ++ c]?).bind symlinkTarget = none := by
        cases hget : map[if pre = [] then c else pre ++ [slash] ++ c]? with
        | none => rfl
        | some entry => exact h _ entry hget
      simp only [findReplacement, hnone]
      exact ih _

theorem storedAt_of_noSymlinks {map : PathMap α} (h : NoSymlinks map) (path : Bytes) :
    storedAt map path = path := by
  simp only [storedAt, resolveSymlinkAncestors, maxSymlinkResolutionDepth, resolveLoop,
    findReplacement_of_noSymlinks h]

end

end Jyth.Image
