import Jyth.Lib.Trim

/-!
# Bearer challenges

`BearerChallenge::parse` of `image-core/src/ops/registry.rs`, over the characters of a
header.  The parameters are cut at every comma, quoted or not, so that a rendered
challenge is read back just if none of its values has a comma (`challenge_round_trip`).
-/

namespace Jyth.Registry

open Segments Trim List Option

/-! ## Parsing -/

/-- `char::is_whitespace`: the code points with the property `White_Space`. -/
def isWhitespace (c : Char) : Bool :=
  (0x9 ≤ c.toNat ∧ c.toNat ≤ 0xd) ∨ c.toNat = 0x20 ∨ c.toNat = 0x85 ∨ c.toNat = 0xa0 ∨
    c.toNat = 0x1680 ∨ (0x2000 ≤ c.toNat ∧ c.toNat ≤ 0x200a) ∨ c.toNat = 0x2028 ∨
    c.toNat = 0x2029 ∨ c.toNat = 0x202f ∨ c.toNat = 0x205f ∨ c.toNat = 0x3000

def isQuote (c : Char) : Bool := c = '"'

/-- The parameters of a `Bearer` challenge. -/
structure BearerChallenge where
  realm : List Char
  service : List Char
  scope : List Char
deriving DecidableEq

structure Found where
  realm : Option (List Char)
  service : Option (List Char)
  scope : Option (List Char)
deriving DecidableEq

/-- One turn of the loop over the parts; a part without `=` ends the parsing. -/
def Found.read (found : Found) (part : List Char) : Option Found := do
  let part := trim isWhitespace part
  let (key, value) ← splitOnce '=' part
  let value := trim isQuote (trim isWhitespace value)
  let key := trim isWhitespace key
  if key = "realm".toList then return { found with realm := some value }
  else if key = "service".toList then return { found with service := some value }
  else if key = "scope".toList then return { found with scope := some value }
  else return found

def BearerChallenge.parse (header : List Char) : Option BearerChallenge := do
  let trimmed := trim isWhitespace header
  let rest := trim isWhitespace (← trimmed.dropPrefix? "Bearer".toList)
  let found ← (rest.splitOn ',').foldlM Found.read ⟨none, none, none⟩
  return ⟨← found.realm, ← found.service, ← found.scope⟩

/-! ## Rendering -/

inductive Param
  | realm | service | scope
deriving DecidableEq

def Param.name : Param → List Char
  | realm => "realm".toList
  | service => "service".toList
  | scope => "scope".toList

def BearerChallenge.value (c : BearerChallenge) : Param → List Char
  | .realm => c.realm
  | .service => c.service
  | .scope => c.scope

/-- Optional white space: spaces and tabs. -/
abbrev Ows := { s : List Char // ∀ c ∈ s, c = ' ' ∨ c = '\t' }

/-- The white space around a parameter and around its `=`. -/
structure Pads where
  before : Ows
  beforeEquals : Ows
  afterEquals : Ows
  after : Ows

/-- An order of the parameters, and white space. -/
structure Layout where
  lead : Ows
  params : List (Param × Pads)
  perm : (params.map Prod.fst).Perm [.realm, .service, .scope]

def quoted (value : List Char) : List Char := '"' :: (value ++ ['"'])

def assignment (pads : Pads) (name value : List Char) : List Char :=
  name ++ pads.beforeEquals.1 ++ '=' :: (pads.afterEquals.1 ++ quoted value)

def padded (c : BearerChallenge) (param : Param × Pads) : List Char :=
  param.2.before.1 ++ (assignment param.2 param.1.name (c.value param.1) ++ param.2.after.1)

/-- The header `Bearer` with the parameters as quoted strings. -/
def Layout.render (layout : Layout) (c : BearerChallenge) : List Char :=
  layout.lead.1 ++ ("Bearer".toList ++ ' ' :: [','].intercalate (layout.params.map (padded c)))

/-- A character of a quoted string that needs no escape. -/
def IsQdtext (c : Char) : Prop :=
  c = '\t' ∨ (0x20 ≤ c.toNat ∧ c.toNat ≤ 0x7e ∧ c ≠ '"' ∧ c ≠ '\\') ∨ 0x80 ≤ c.toNat

instance (c : Char) : Decidable (IsQdtext c) := inferInstanceAs (Decidable (_ ∨ _))

/-- The values can stand in quoted strings as they are. -/
def BearerChallenge.Quotable (c : BearerChallenge) : Prop :=
  ∀ param, ∀ a ∈ c.value param, IsQdtext a

/-! ## One parameter -/

theorem isWhitespace_ows (w : Ows) : ∀ c ∈ w.1, isWhitespace c = true := by
  intro c hc
  rcases w.2 c hc with rfl | rfl <;> decide

theorem not_mem_ows {c : Char} (w : Ows) (h : isWhitespace c = false) : c ∉ w.1 := by
  intro hc
  rw [isWhitespace_ows w c hc] at h
  cases h

theorem isQuote_of_qdtext {c : Char} (h : IsQdtext c) : isQuote c = false := by
  unfold isQuote
  rw [decide_eq_false_iff_not]
  rintro rfl
  exact absurd h (by decide)

theorem trim_quoted {value : List Char} (h : ∀ a ∈ value, IsQdtext a) :
    trim isQuote (quoted value) = value := by
  unfold quoted
  rw [trim_cons (by decide), trim_concat (by decide)]
  apply trim_of_forall
  intro a ha
  exact isQuote_of_qdtext (h a ha)

theorem trim_ows_quoted (w : Ows) (value : List Char) :
    trim isWhitespace (w.1 ++ quoted value) = quoted value := by
  rw [trim_append_left (isWhitespace_ows w)]
  exact trim_of_ends (a := '"') (b := '"') (m := '"' :: value) (by decide) (by decide) rfl

theorem trim_name_ows (param : Param) (w : Ows) :
    trim isWhitespace (param.name ++ w.1) = param.name := by
  rw [trim_append_right (isWhitespace_ows w)]
  cases param <;> decide

theorem trim_padded (c : BearerChallenge) (param : Param × Pads) :
    trim isWhitespace (padded c param) = assignment param.2 param.1.name (c.value param.1) := by
  unfold padded
  rw [trim_append_left (isWhitespace_ows _), trim_append_right (isWhitespace_ows _)]
  obtain ⟨param, pads⟩ := param
  obtain ⟨a, name, hname, ha⟩ : ∃ a name, param.name = a :: name ∧ isWhitespace a = false := by
    cases param <;> exact ⟨_, _, rfl, by decide⟩
  have hends : assignment pads param.name (c.value param) =
      (param.name ++ pads.beforeEquals.1 ++ '=' :: (pads.afterEquals.1 ++ '"' :: c.value param)) ++
        ['"'] := by
    simp [assignment, quoted]
  rw [hname] at hends ⊢
  exact trim_of_ends ha (b := '"') (by decide) hends

def Found.set (found : Found) (value : List Char) : Param → Found
  | .realm => { found with realm := some value }
  | .service => { found with service := some value }
  | .scope => { found with scope := some value }

theorem read_trim (found : Found) (part : List Char) :
    found.read (trim isWhitespace part) = found.read part := by
  unfold Found.read
  rw [trim_trim]

variable {c : BearerChallenge} {found' found : Found}

theorem read_padded (hc : c.Quotable) (found : Found) (param : Param × Pads) :
    found.read (padded c param) = some (found.set (c.value param.1) param.1) := by
  obtain ⟨param, pads⟩ := param
  have hequals : '=' ∉ param.name ++ pads.beforeEquals.1 := by
    rw [mem_append, not_or]
    exact ⟨by cases param <;> decide, not_mem_ows _ (by decide)⟩
  unfold Found.read
  rw [trim_padded]
  unfold assignment
  simp only [splitOnce_append hequals, bind_eq_bind, bind_some, trim_name_ows,
    trim_ows_quoted, trim_quoted (hc param)]
  cases param <;> rfl

/-! ## Headers -/

theorem comma_not_mem_padded (hc : ∀ param, ',' ∉ c.value param)
    (param : Param × Pads) : ',' ∉ padded c param := by
  obtain ⟨param, pads⟩ := param
  have hname : ',' ∉ param.name := by cases param <;> decide
  have hpad := fun w : Ows => not_mem_ows (c := ',') w (by decide)
  simp only [padded, assignment, quoted, mem_append, mem_cons, not_mem_nil, not_or]
  exact ⟨hpad _, ⟨⟨hname, hpad _⟩, by decide, hpad _, by decide, hc param, by decide, id⟩, hpad _⟩

theorem foldlM_read_trim (parts : List (List Char)) (found : Found) :
    (parts.map (trim isWhitespace)).foldlM Found.read found = parts.foldlM Found.read found := by
  rw [foldlM_map]
  simp only [read_trim]

theorem trim_render (layout : Layout) (c : BearerChallenge) :
    trim isWhitespace (layout.render c) = "Bearer".toList ++
      (' ' :: [','].intercalate (layout.params.map (padded c))).rdropWhile isWhitespace := by
  unfold Layout.render
  rw [trim_append_left (isWhitespace_ows _)]
  have hhead : ∀ l : List Char, ("Bearer".toList ++ l).dropWhile isWhitespace = "Bearer".toList ++ l :=
    fun _ => rfl
  unfold trim
  rw [hhead, rdropWhile_append_of_kept (by decide)]

open BearerChallenge

theorem parse_render (layout : Layout) (c : BearerChallenge) : parse (layout.render c) = do
      let found ← (([','].intercalate (layout.params.map (padded c))).splitOn ',').foldlM
        Found.read ⟨none, none, none⟩ return ⟨← found.realm, ← found.service, ← found.scope⟩ := by
  unfold parse
  rw [trim_render]
  simp only [dropPrefix?_append_of_beq _ (beq_self_eq_true _), bind_eq_bind, bind_some]
  rw [trim_rdropWhile, trim_cons (by decide), ← foldlM_read_trim, map_trim_splitOn_trim (by decide),
    foldlM_read_trim]

theorem foldlM_read_padded (hc : c.Quotable) (params : List (Param × Pads)) (found : Found) :
    (params.map (padded c)).foldlM Found.read found =
      some ((params.map Prod.fst).foldl (fun found param => found.set (c.value param) param) found) := by
  induction params generalizing found with
  | nil => rfl
  | cons param params ih =>
    rw [map_cons, foldlM_cons, read_padded hc, bind_eq_bind, bind_some, ih]
    rfl

theorem foldl_set (c : BearerChallenge) {params : List Param}
    (h : params.Perm [.realm, .service, .scope]) :
    params.foldl (fun (found : Found) param => found.set (c.value param) param) ⟨none, none, none⟩ =
      ⟨some c.realm, some c.service, some c.scope⟩ := by
  have hcomm : RightCommutative fun (found : Found) (param : Param) =>
      found.set (c.value param) param := by
    constructor
    intro found param param'
    cases param <;> cases param' <;> rfl
  rw [h.foldl_eq]
  rfl

/-- Every value has come from between two commas. -/
def Found.Commaless (found : Found) : Prop :=
  ∀ value, found.realm = some value ∨ found.service = some value ∨ found.scope = some value →
    ',' ∉ value

theorem read_commaless {part : List Char} (hpart : ',' ∉ part)
    (hfound : found.Commaless) (h : found.read part = some found') : found'.Commaless := by
  simp only [Found.read, bind_eq_bind, bind_eq_some_iff] at h
  obtain ⟨⟨key, value⟩, hcut, h⟩ := h
  have hvalue : ',' ∉ trim isQuote (trim isWhitespace value) := by
    intro hmem
    have hrest := (trim_sublist _).mem ((trim_sublist _).mem hmem)
    have hall : ',' ∈ trim isWhitespace part := by
      rw [splitOnce_eq_some hcut]
      simp [hrest]
    exact hpart ((trim_sublist _).mem hall)
  intro v hv
  dsimp only at h
  split at h
  · cases h
    rcases hv with hv | hv
    · cases hv; exact hvalue
    · exact hfound v (Or.inr hv)
  · split at h
    · cases h
      rcases hv with hv | hv | hv
      · exact hfound v (Or.inl hv)
      · cases hv; exact hvalue
      · exact hfound v (Or.inr (Or.inr hv))
    · split at h
      · cases h
        rcases hv with hv | hv | hv
        · exact hfound v (Or.inl hv)
        · exact hfound v (Or.inr (Or.inl hv))
        · cases hv; exact hvalue
      · cases h
        exact hfound v hv

theorem foldlM_read_commaless {parts : List (List Char)} (hparts : ∀ part ∈ parts, ',' ∉ part)
    (hfound : found.Commaless)
    (h : parts.foldlM Found.read found = some found') : found'.Commaless := by
  induction parts generalizing found with
  | nil =>
    cases h
    exact hfound
  | cons part parts ih =>
    rw [forall_mem_cons] at hparts
    rw [foldlM_cons, bind_eq_bind, bind_eq_some_iff] at h
    obtain ⟨next, hread, h⟩ := h
    exact ih hparts.2 (read_commaless hparts.1 hfound hread) h

theorem comma_not_mem_of_parse {header : List Char}
    (h : parse header = some c) (param : Param) : ',' ∉ c.value param := by
  simp only [parse, Option.bind_eq_bind, Option.bind_eq_some_iff, Option.pure_def, some.injEq] at h
  obtain ⟨rest, -, found, hfound, realm, hrealm, service, hservice, scope, hscope, rfl⟩ := h
  have hcommaless := foldlM_read_commaless (fun part hpart => not_mem_of_mem_splitOn _ _ _ hpart)
    (by rintro value (h | h | h) <;> cases h) hfound
  cases param with
  | realm => exact hcommaless realm (Or.inl hrealm)
  | service => exact hcommaless service (Or.inr (Or.inl hservice))
  | scope => exact hcommaless scope (Or.inr (Or.inr hscope))

/-- **Challenges are read back.**  A challenge with values that need no escape, rendered
with its values quoted in any order and with any white space, is parsed as itself just if
no value has a comma. -/
theorem challenge_round_trip (layout : Layout) (c : BearerChallenge) (hc : c.Quotable) :
    parse (layout.render c) = some c ↔ ',' ∉ c.realm ∧ ',' ∉ c.service ∧ ',' ∉ c.scope := by
  constructor
  · intro h
    have hcomma := comma_not_mem_of_parse h
    exact ⟨hcomma .realm, hcomma .service, hcomma .scope⟩
  · rintro ⟨hrealm, hservice, hscope⟩
    have hcomma : ∀ param, ',' ∉ c.value param := by
      intro param
      cases param <;> assumption
    have hparts : ([','].intercalate (layout.params.map (padded c))).splitOn ',' =
        layout.params.map (padded c) := by
      apply splitOn_intercalate
      · intro part hpart
        obtain ⟨param, -, rfl⟩ := mem_map.1 hpart
        exact comma_not_mem_padded hcomma param
      · intro hnil
        have hperm := layout.perm
        rw [map_eq_nil_iff.1 hnil] at hperm
        exact absurd hperm.length_eq (by decide)
    rw [parse_render, hparts, foldlM_read_padded hc, foldl_set c layout.perm]
    rfl

/-- Another order, with white space around a comma and an `=`. -/
def spaced : Layout where
  lead := ⟨[], by simp⟩
  params :=
    [(.scope, ⟨⟨[], by simp⟩, ⟨[], by simp⟩, ⟨[], by simp⟩, ⟨[' '], by simp⟩⟩),
      (.service, ⟨⟨['\t'], by simp⟩, ⟨[' '], by simp⟩, ⟨[' '], by simp⟩, ⟨[], by simp⟩⟩),
      (.realm, ⟨⟨[], by simp⟩, ⟨[], by simp⟩, ⟨[], by simp⟩, ⟨[], by simp⟩⟩)]
  perm := by decide

theorem spaced_challenge_round_trip : parse (spaced.render ⟨['r'], [], ['a', ' ', 'b']⟩) =
      some ⟨['r'], [], ['a', ' ', 'b']⟩ := by
  have hquotable : BearerChallenge.Quotable ⟨['r'], [], ['a', ' ', 'b']⟩ := by
    intro param
    cases param <;> simp [value, IsQdtext]
  exact (challenge_round_trip spaced _ hquotable).2 (by decide)

/-- A scope with two actions, `pull,push`: the part `push"` has no `=`. -/
theorem two_actions_rejected : spaced.render ⟨['r'], [], "pull,push".toList⟩ =
        "Bearer scope=\"pull,push\" ,\tservice = \"\",realm=\"r\"".toList ∧
      parse (spaced.render ⟨['r'], [], "pull,push".toList⟩) = none := by
  decide

end Jyth.Registry
