import Jyth.Lib.Run
import Jyth.Lib.Table

/-!
# The guest's process manager

`init/src/components/process_manager.rs`: the map of started processes, the stop
tokens and the tasks that supervise the children.

The guest serves all connections on one executor thread, so a request is interrupted
only where it awaits: `spawn` and `close` never are, `kill` and `wait` once they have
looked the process up, the two binds once they have taken their pipes.
-/

namespace Jyth.Guest

abbrev Uuid := BitVec 128

inductive ProcessStdio
  | pipe | null | file
deriving DecidableEq

inductive ProcessOutputStream
  | stdout | stderr
deriving DecidableEq

structure ProcessExit where
  exitCode : Option Int
  signal : Option Int
deriving DecidableEq

inductive Failure
  | io | processSpawn
  /-- `ResourceNotFound`, with its attachment. -/
  | resourceNotFound (attachment : String)
deriving DecidableEq

/-- A child the manager started; children are named by the order of their starts, and
so are their stop tokens and completions. -/
structure Child where
  uuid : Uuid
  /-- How it ended, once it has. -/
  status : Option ProcessExit
  /-- What its supervisor recorded. -/
  completion : Option (Except Unit ProcessExit)

/-- `Process`: an entry of the map, with the pipes that are not taken yet. -/
structure Process where
  child : Nat
  stdin : Bool
  stdout : Bool
  stderr : Bool
deriving DecidableEq

/-- The table of processes and the children behind it. -/
structure Manager where
  inner : Table Uuid Process
  /-- The token of the whole guest. -/
  cancelled : Bool
  children : List Child
  /-- The stop tokens cancelled one by one. -/
  stopped : List Nat

namespace Manager

def new : Manager := ⟨fun _ => none, false, [], []⟩

variable (m : Manager)

/-- A stop token is a child token of the guest's. -/
def isCancelled (n : Nat) : Bool := m.cancelled || m.stopped.contains n

def stop (n : Nat) : Manager := { m with stopped := n :: m.stopped }

/-- The entry of a process. -/
def find (uuid : Uuid) : Except Failure Process :=
  match m.inner uuid with
  | some process => .ok process
  | none => .error (.resourceNotFound "Process not found")

/-- `launch` is the outcome of opening the stdio files and of `Command::spawn`. -/
def spawn (uuid : Uuid) (stdout stderr : ProcessStdio) (launch : Except Failure Unit) :
    Except Failure Manager := do
  launch
  let process : Process := ⟨m.children.length, true, stdout = .pipe, stderr = .pipe⟩
  .ok { m with
    inner := m.inner.insert uuid process
    children := m.children ++ [⟨uuid, none, none⟩] }

def kill (uuid : Uuid) : Except Failure Manager := do
  let process ← m.find uuid
  .ok (m.stop process.child)

def wait (uuid : Uuid) : Except Failure Manager := do
  let _ ← m.find uuid
  .ok m

def close (uuid : Uuid) : Except Failure Manager := do
  let process ← m.find uuid
  .ok ({ m with inner := m.inner.remove uuid }.stop process.child)

/-- Pipes are taken out of an entry. -/
def setProcess (uuid : Uuid) (process : Process) : Manager :=
  { m with inner := m.inner.insert uuid process }

def bind (uuid : Uuid) : Except Failure Manager := do
  let process ← m.find uuid
  if process.stdin then
    .ok (m.setProcess uuid { process with stdin := false, stdout := false, stderr := false })
  else .error (.resourceNotFound "Process already bound")

def bindOutput (uuid : Uuid) : ProcessOutputStream → Except Failure Manager
  | .stdout => do
    let process ← m.find uuid
    if process.stdout then .ok (m.setProcess uuid { process with stdout := false })
    else .error (.resourceNotFound "Process stdout is not available")
  | .stderr => do
    let process ← m.find uuid
    if process.stderr then .ok (m.setProcess uuid { process with stderr := false })
    else .error (.resourceNotFound "Process stderr is not available")

/-- A child ends, by itself or by a signal. -/
def exit (n : Nat) (status : ProcessExit) : Manager :=
  { m with children := m.children.modify n fun child =>
      { child with status := some (child.status.getD status) } }

/-- The supervisor records a result, once. -/
def record (n : Nat) (result : Except Unit ProcessExit) : Manager :=
  { m with children := m.children.modify n fun child =>
      { child with completion := some (child.completion.getD result) } }

/-- The supervisor of child `n` wakes up: the child has ended, or a token was cancelled
and the child is killed, if that works. -/
def supervise (n : Nat) (killed : Except Unit ProcessExit) : Manager :=
  match m.children[n]? with
  | some ⟨_, some status, _⟩ => m.record n (.ok status)
  | some ⟨_, none, _⟩ =>
    if m.isCancelled n then
      match killed with
      | .ok status => (m.exit n status).record n (.ok status)
      | .error e => m.record n (.error e)
    else m
  | none => m

end Manager

/-- A command to the manager, or what happens to a child. -/
inductive Event
  | spawn (uuid : Uuid) (stdout stderr : ProcessStdio) (launch : Except Failure Unit)
  | kill (uuid : Uuid)
  | wait (uuid : Uuid)
  | close (uuid : Uuid)
  | bind (uuid : Uuid)
  | bindOutput (uuid : Uuid) (stream : ProcessOutputStream)
  /-- `VMShutdown`. -/
  | shutdown
  | exit (n : Nat) (status : ProcessExit)
  | supervise (n : Nat) (killed : Except Unit ProcessExit)

namespace Manager

/-- A failed request changes nothing. -/
def settle (m : Manager) (result : Except Failure Manager) : Manager :=
  match result with
  | .ok m' => m'
  | .error _ => m

def step (m : Manager) : Event → Manager
  | .spawn uuid stdout stderr launch => m.settle (m.spawn uuid stdout stderr launch)
  | .kill uuid => m.settle (m.kill uuid)
  | .wait uuid => m.settle (m.wait uuid)
  | .close uuid => m.settle (m.close uuid)
  | .bind uuid => m.settle (m.bind uuid)
  | .bindOutput uuid stream => m.settle (m.bindOutput uuid stream)
  | .shutdown => { m with cancelled := true }
  | .exit n status => m.exit n status
  | .supervise n killed => m.supervise n killed

/-- The `n`-th child is a process of this UUID and runs. -/
def Runs (m : Manager) (n : Nat) (uuid : Uuid) : Prop :=
  ∃ child, m.children[n]? = some child ∧ child.uuid = uuid ∧ child.status = none

/-- The table leads from the UUID to the `n`-th child. -/
def Leads (m : Manager) (uuid : Uuid) (n : Nat) : Prop :=
  ∃ process, m.inner uuid = some process ∧ process.child = n

/-- Every running child is in the map under its UUID, or its stop token is cancelled. -/
def Owned (m : Manager) : Prop :=
  ∀ n uuid, m.Runs n uuid → m.Leads uuid n ∨ m.isCancelled n = true

/-- The map has only children that were started under the UUID they are found by. -/
def Filed (m : Manager) : Prop :=
  ∀ uuid n, m.Leads uuid n → ∃ child, m.children[n]? = some child ∧ child.uuid = uuid

/-! ## Steps that start nothing -/

/-- No child is started and none is lost. -/
structure Keeps (m m' : Manager) : Prop where
  runs : ∀ n uuid, m'.Runs n uuid → m.Runs n uuid
  started : ∀ (n : Nat) (child : Child), m.children[n]? = some child →
    ∃ child' : Child, m'.children[n]? = some child' ∧ child'.uuid = child.uuid
  filed : ∀ uuid n, m'.Leads uuid n → m.Leads uuid n
  leads : ∀ uuid n, m.Leads uuid n → m'.Leads uuid n ∨ m'.isCancelled n = true
  cancelled : ∀ n, m.isCancelled n = true → m'.isCancelled n = true

variable {m m' m'' : Manager}

theorem Keeps.refl (m : Manager) : Keeps m m where
  runs _ _ h := h
  started _ child h := ⟨child, h, rfl⟩
  filed _ _ h := h
  leads _ _ h := .inl h
  cancelled _ h := h

theorem Keeps.trans (h : Keeps m m') (h' : Keeps m' m'') : Keeps m m'' where
  runs n uuid hruns := h.runs n uuid (h'.runs n uuid hruns)
  started n child hget := by
    obtain ⟨child', hget', hsame⟩ := h.started n child hget
    obtain ⟨child'', hget'', hsame'⟩ := h'.started n child' hget'
    exact ⟨child'', hget'', hsame'.trans hsame⟩
  filed uuid n hleads := h.filed uuid n (h'.filed uuid n hleads)
  leads uuid n hleads := by
    rcases h.leads uuid n hleads with hleads' | hcancelled
    · exact h'.leads uuid n hleads'
    · exact .inr (h'.cancelled n hcancelled)
  cancelled n hcancelled := h'.cancelled n (h.cancelled n hcancelled)

theorem Keeps.owned (h : Keeps m m') (howned : Owned m) : Owned m' := by
  intro n uuid hruns
  rcases howned n uuid (h.runs n uuid hruns) with hleads | hcancelled
  · exact h.leads uuid n hleads
  · exact .inr (h.cancelled n hcancelled)

theorem Keeps.keepsFiled (h : Keeps m m') (hfiled : Filed m) : Filed m' := by
  intro uuid n hleads
  obtain ⟨child, hget, huuid⟩ := hfiled uuid n (h.filed uuid n hleads)
  obtain ⟨child', hget', hsame⟩ := h.started n child hget
  exact ⟨child', hget', hsame.trans huuid⟩

theorem isCancelled_stop (n k : Nat) :
    (m.stop n).isCancelled k = true ↔ k = n ∨ m.isCancelled k = true := by
  simp only [stop, isCancelled, List.contains_cons, Bool.or_eq_true, beq_iff_eq]
  tauto

theorem keeps_stop (m : Manager) (n : Nat) : Keeps m (m.stop n) :=
  { Keeps.refl m with
    leads := fun _ _ h => .inl h
    cancelled := fun k h => (isCancelled_stop n k).2 (.inr h) }

variable {process process' : Process}

theorem leads_insert (uuid uuid' : Uuid) (n : Nat) : (m.setProcess uuid process).Leads uuid' n ↔
      uuid' = uuid ∧ process.child = n ∨ uuid' ≠ uuid ∧ m.Leads uuid' n := by
  by_cases h : uuid' = uuid <;> simp [Leads, setProcess, Table.insert_apply, h]

variable {uuid : Uuid}

theorem find_eq_ok : m.find uuid = .ok process ↔ m.inner uuid = some process := by
  unfold find
  cases m.inner uuid <;> simp

theorem keeps_setProcess
    (hfind : m.inner uuid = some process) (hsame : process'.child = process.child) :
    Keeps m (m.setProcess uuid process') := by
  have hleads : ∀ uuid' n, (m.setProcess uuid process').Leads uuid' n ↔ m.Leads uuid' n := by
    intro uuid' n
    rw [leads_insert]
    by_cases h : uuid' = uuid
    · subst h
      simp [Leads, hfind, hsame]
    · simp [h]
  exact { Keeps.refl m with
    filed := fun uuid' n => (hleads uuid' n).1
    leads := fun uuid' n h => .inl ((hleads uuid' n).2 h) }

theorem keeps_remove (hfind : m.inner uuid = some process) :
    Keeps m ({ m with inner := m.inner.remove uuid }.stop process.child) where
  runs _ _ h := h
  started _ child h := ⟨child, h, rfl⟩
  filed uuid' n := by
    rintro ⟨found, hfound, rfl⟩
    have hremoved : m.inner.remove uuid uuid' = some found := hfound
    rw [Table.remove_apply] at hremoved
    split at hremoved
    · cases hremoved
    · exact ⟨found, hremoved, rfl⟩
  leads uuid' n := by
    rintro ⟨found, hfound, rfl⟩
    by_cases h : uuid' = uuid
    · subst h
      cases hfind.symm.trans hfound
      exact .inr ((isCancelled_stop _ _).2 (.inl rfl))
    · refine .inl ⟨found, ?_, rfl⟩
      show m.inner.remove uuid uuid' = some found
      rw [Table.remove_apply, if_neg h, hfound]
  cancelled k h := (isCancelled_stop _ k).2 (.inr h)

theorem keeps_modify (m : Manager) (n : Nat) (f : Child → Child)
    (huuid : ∀ child, (f child).uuid = child.uuid)
    (hstatus : ∀ child, (f child).status = none → child.status = none) :
    Keeps m { m with children := m.children.modify n f } := by
  refine { Keeps.refl m with runs := ?_, started := ?_ }
  · rintro k uuid ⟨child', hget, hsame, hnone⟩
    have hmodified : (m.children.modify n f)[k]? = some child' := hget
    rw [List.getElem?_modify] at hmodified
    obtain ⟨child, hchild, rfl⟩ := Option.map_eq_some_iff.1 hmodified
    refine ⟨child, hchild, ?_⟩
    split at hsame
    · exact ⟨(huuid child).symm.trans hsame, hstatus child (by simpa [*] using hnone)⟩
    · exact ⟨hsame, by simpa [*] using hnone⟩
  · intro k child hget
    refine ⟨if n = k then f child else child, ?_, ?_⟩
    · show (m.children.modify n f)[k]? = _
      rw [List.getElem?_modify, hget]
      split <;> simp_all
    · split
      · exact huuid child
      · rfl

theorem keeps_exit (m : Manager) (n : Nat) (status : ProcessExit) : Keeps m (m.exit n status) :=
  keeps_modify m n _ (fun _ => rfl) nofun

theorem keeps_record (m : Manager) (n : Nat) (result : Except Unit ProcessExit) :
    Keeps m (m.record n result) :=
  keeps_modify m n _ (fun _ => rfl) fun _ h => h

theorem keeps_supervise (m : Manager) (n : Nat) (killed : Except Unit ProcessExit) :
    Keeps m (m.supervise n killed) := by
  unfold supervise
  split
  · exact keeps_record _ _ _
  · split
    · split
      · exact (keeps_exit _ _ _).trans (keeps_record _ _ _)
      · exact keeps_record _ _ _
    · exact .refl m
  · exact .refl m

theorem keeps_settle {rest : Process → Except Failure Manager}
    (h : ∀ process, m.inner uuid = some process → ∀ m', rest process = .ok m' → Keeps m m') :
    Keeps m (m.settle (m.find uuid >>= rest)) := by
  cases hfind : m.find uuid with
  | error e => exact .refl m
  | ok process =>
    show Keeps m (m.settle (rest process))
    cases hrest : rest process with
    | error e => exact .refl m
    | ok m' => exact h process (find_eq_ok.1 hfind) m' hrest

theorem keeps_take {free : Bool} {failure : Failure} (hfind : m.inner uuid = some process)
    (h : (if free then .ok (m.setProcess uuid process') else .error failure : Except Failure Manager)
      = .ok m') (hsame : process'.child = process.child) : Keeps m m' := by
  cases free with
  | true =>
    cases h
    exact keeps_setProcess hfind hsame
  | false => cases h

theorem keeps_step (m : Manager) (event : Event)
    (hspawn : ∀ uuid stdout stderr, event ≠ .spawn uuid stdout stderr (.ok ())) :
    Keeps m (m.step event) := by
  cases event with
  | spawn uuid stdout stderr launch =>
    cases launch with
    | error e => exact .refl m
    | ok _ => exact absurd rfl (hspawn uuid stdout stderr)
  | kill uuid =>
    refine keeps_settle fun process _ m' h => ?_
    cases h
    exact keeps_stop m _
  | wait uuid =>
    refine keeps_settle fun process _ m' h => ?_
    cases h
    exact .refl m
  | close uuid =>
    refine keeps_settle fun process hfind m' h => ?_
    cases h
    exact keeps_remove hfind
  | bind uuid => exact keeps_settle fun process hfind m' h => keeps_take hfind h rfl
  | bindOutput uuid stream =>
    cases stream with
    | stdout | stderr => exact keeps_settle fun process hfind m' h => keeps_take hfind h rfl
  | shutdown => exact { Keeps.refl m with leads := fun _ _ h => .inl h, cancelled := fun _ _ => rfl }
  | exit n status => exact keeps_exit m n status
  | supervise n killed => exact keeps_supervise m n killed

/-! ## Starting a child -/

/-- The map has no running child under the UUID, unless its stop token is cancelled. -/
def Vacant (m : Manager) (uuid : Uuid) : Prop :=
  ∀ n, m.Leads uuid n → m.Runs n uuid → m.isCancelled n = true

/-- A child is started only under a UUID that is vacant. -/
def StartsVacant (m : Manager) : Event → Prop
  | .spawn uuid _ _ (.ok _) => m.Vacant uuid
  | _ => True

section Spawn

variable (m : Manager) (uuid : Uuid) (stdout stderr : ProcessStdio)

def started : Manager := m.step (.spawn uuid stdout stderr (.ok ()))

theorem runs_started (n : Nat) (uuid' : Uuid) : (m.started uuid stdout stderr).Runs n uuid' ↔
    m.Runs n uuid' ∨ n = m.children.length ∧ uuid' = uuid := by
  show (∃ child, (m.children ++ [⟨uuid, none, none⟩])[n]? = some child ∧ _) ↔ _
  rcases Nat.lt_trichotomy n m.children.length with hlt | rfl | hgt
  · rw [List.getElem?_append_left hlt]
    exact ⟨.inl, fun h => h.resolve_right fun h' => by omega⟩
  · have hnone : ¬ m.Runs m.children.length uuid' := by simp [Runs]
    simp [hnone, eq_comm]
  · have hnone : ¬ m.Runs n uuid' := by simp [Runs, List.getElem?_eq_none hgt.le]
    rw [List.getElem?_eq_none (by simpa using hgt)]
    simp only [hnone, false_or]
    refine ⟨?_, fun h => by omega⟩
    rintro ⟨_, h, -⟩
    cases h

theorem leads_started (uuid' : Uuid) (n : Nat) : (m.started uuid stdout stderr).Leads uuid' n ↔
    uuid' = uuid ∧ m.children.length = n ∨ uuid' ≠ uuid ∧ m.Leads uuid' n :=
  leads_insert uuid uuid' n

theorem isCancelled_started (n : Nat) :
    (m.started uuid stdout stderr).isCancelled n = m.isCancelled n := rfl

variable {m uuid}

theorem Filed.started (h : Filed m) : Filed (m.started uuid stdout stderr) := by
  intro uuid' n hleads
  show ∃ child, (m.children ++ [⟨uuid, none, none⟩])[n]? = some child ∧ child.uuid = uuid'
  rcases (leads_started m uuid stdout stderr uuid' n).1 hleads with ⟨rfl, rfl⟩ | ⟨-, hold⟩
  · exact ⟨⟨uuid', none, none⟩, by simp, rfl⟩
  · obtain ⟨child, hget, huuid⟩ := h uuid' n hold
    have hlt := (List.getElem?_eq_some_iff.1 hget).1
    exact ⟨child, by rw [List.getElem?_append_left hlt, hget], huuid⟩

theorem owned_started_iff (hfiled : Filed m) (howned : Owned m) :
    Owned (m.started uuid stdout stderr) ↔ m.Vacant uuid := by
  constructor
  · intro h n hleads hruns
    obtain ⟨child, hget, -⟩ := hfiled uuid n hleads
    have hlt := (List.getElem?_eq_some_iff.1 hget).1
    rcases h n uuid ((runs_started m uuid stdout stderr n uuid).2 (.inl hruns)) with hnow | hcancelled
    · rcases (leads_started m uuid stdout stderr uuid n).1 hnow with ⟨-, hnew⟩ | ⟨hne, -⟩
      · omega
      · exact absurd rfl hne
    · exact hcancelled
  · intro hvacant n uuid' hruns
    rw [leads_started, isCancelled_started]
    rcases (runs_started m uuid stdout stderr n uuid').1 hruns with hold | ⟨rfl, rfl⟩
    · rcases howned n uuid' hold with hleads | hcancelled
      · by_cases huuid : uuid' = uuid
        · subst huuid
          exact .inr (hvacant n hleads hold)
        · exact .inl (.inr ⟨huuid, hleads⟩)
      · exact .inr hcancelled
    · exact .inl (.inl ⟨rfl, rfl⟩)

end Spawn

theorem Filed.step (h : Filed m) (event : Event) : Filed (m.step event) := by
  by_cases hspawn : ∃ uuid stdout stderr, event = .spawn uuid stdout stderr (.ok ())
  · obtain ⟨uuid, stdout, stderr, rfl⟩ := hspawn
    exact h.started stdout stderr
  · push Not at hspawn
    exact (keeps_step m event hspawn).keepsFiled h

theorem owned_step_iff (hfiled : Filed m) (howned : Owned m) (event : Event) :
    Owned (m.step event) ↔ m.StartsVacant event := by
  by_cases hspawn : ∃ uuid stdout stderr, event = .spawn uuid stdout stderr (.ok ())
  · obtain ⟨uuid, stdout, stderr, rfl⟩ := hspawn
    exact owned_started_iff stdout stderr hfiled howned
  · push Not at hspawn
    refine iff_of_true ((keeps_step m event hspawn).owned howned) ?_
    unfold StartsVacant
    split
    · exact absurd rfl (hspawn _ _ _)
    · trivial

theorem kill_cancels {n : Nat} (h : m.Leads uuid n) :
    (m.step (.kill uuid)).isCancelled n = true := by
  obtain ⟨process, hfind, rfl⟩ := h
  have hkill : m.kill uuid = .ok (m.stop process.child) := by
    simp [kill, find_eq_ok.2 hfind]
    rfl
  simp only [step, hkill, settle]
  exact (isCancelled_stop _ _).2 (.inl rfl)

/-- In every state of a run each running child is in the map or stopped, and so can be
stopped by the host, just if every start finds its UUID vacant. -/
theorem children_owned_iff (events : List Event) :
    Run.Reached step (fun m => Owned m ∧ ∀ n uuid, m.Runs n uuid →
        (m.step (.kill uuid)).isCancelled n = true) new events ↔
      Run.Steps step StartsVacant new events := by
  have hstoppable : ∀ m, (Owned m ∧ ∀ n uuid, m.Runs n uuid →
      (m.step (.kill uuid)).isCancelled n = true) ↔ Owned m := by
    refine fun m => ⟨And.left, fun h => ⟨h, fun n uuid hruns => ?_⟩⟩
    rcases h n uuid hruns with hleads | hcancelled
    · exact kill_cancels hleads
    · exact (keeps_step m (.kill uuid) nofun).cancelled n hcancelled
  simp only [hstoppable]
  refine Run.reached_iff_steps (I := Filed) (fun m event _ h => h.step event)
    (fun m event _ hfiled howned => owned_step_iff hfiled howned event) ?_ ?_
  · rintro uuid n ⟨process, hnone, -⟩
    cases hnone
  · rintro n uuid ⟨child, hnone, -⟩
    cases hnone

/-- A second start under the UUID of a running child leaves the first child running,
out of the map and with its stop token alive. -/
theorem restarted_uuid_orphans : ¬ Owned ([Event.spawn 7 .null .null (.ok ()),
    Event.spawn 7 .null .null (.ok ())].foldl step new) := by
  intro howned
  have hruns : ([Event.spawn 7 .null .null (.ok ()),
      Event.spawn 7 .null .null (.ok ())].foldl step new).Runs 0 7 := ⟨_, rfl, rfl, rfl⟩
  rcases howned 0 7 hruns with ⟨process, hfind, hchild⟩ | hcancelled
  · cases hfind
    cases hchild
  · cases hcancelled

end Manager

end Jyth.Guest
