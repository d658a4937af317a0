import Jyth.Hcs.Journal
import Jyth.Lib.Run
import Jyth.Lib.Table

/-!
# Session databases and their recovery

`Session::open` of `vm.rs` and the databases of `journal.rs` it reads and creates.  A
database is what its last committed transaction left; rows are the values their JSON
encodes.  Any number of processes open sessions on one state root, and any of them may
stop at any step, by a crash or an I/O error.
-/

namespace Jyth.Hcs

open Format List Option

inductive HcsError
  | journal | journalSchemaMismatch
deriving DecidableEq

structure JournalReport where
  context : HcsError
  attachment : String
deriving DecidableEq

def schemaVersion : UInt32 := 1

def validateSchemaVersion (version : UInt32) (recordKind : String) : Except JournalReport Unit :=
  if version = schemaVersion then .ok ()
  else .error ⟨.journalSchemaMismatch,
    s!"{recordKind} schema version {version} is unsupported; expected {schemaVersion}"⟩

/-- `journal_report` for a table that is not there. -/
def noTable (operation table : String) : JournalReport :=
  ⟨.journal, s!"{operation}: Table '{table}' does not exist"⟩

/-! ## Databases -/

/-- A row with its schema version. -/
structure Stored (α : Type) where
  schemaVersion : UInt32
  value : α

structure SessionRecord where
  schemaVersion : UInt32
  sessionId : SessionId
  owner : Text
deriving DecidableEq

/-- The four tables, where they exist, and what they hold; `schema` and `session` have
one row each. -/
structure Database where
  schema : Option (Option UInt32)
  session : Option (Option SessionRecord)
  vmRecords : Option (List (VmId × Stored VmResourceRecord))
  abandoned : Option (List (VmId × Stored AbandonedRecord))

def ownerFor (sid : SessionId) : Text := utf8 "jyth/v1/" ++ uuidText sid

namespace Database

def create : Database := ⟨none, none, none, none⟩

variable (db : Database)

def initializeDatabase : Except JournalReport Database := do
  let recorded := db.schema.getD none
  match recorded with
  | some version =>
    if version ≠ schemaVersion then
      throw ⟨.journalSchemaMismatch,
        s!"found journal schema version {version}, expected {schemaVersion}"⟩
  | none => pure ()
  return {
    schema := some (some schemaVersion)
    session := some (db.session.getD none)
    vmRecords := some (db.vmRecords.getD [])
    abandoned := some (db.abandoned.getD []) }

/-- The last transaction of `create_current`. -/
def recordSession (sid : SessionId) : Database :=
  { db with session := some (some ⟨schemaVersion, sid, ownerFor sid⟩) }

/-- An owner that was not persisted is derived, any other must be the derived one. -/
def checkOwner (session : SessionRecord) : Except JournalReport SessionRecord :=
  if session.owner = [] then .ok { session with owner := ownerFor session.sessionId }
  else if session.owner ≠ ownerFor session.sessionId then
    .error ⟨.journal, "session owner does not match session UUID"⟩
  else .ok session

def readExistingSession (path : String) : Except JournalReport SessionRecord := do
  let some schema := db.schema | throw (noTable "open journal schema" "journal_schema")
  let some version := schema |
    throw ⟨.journalSchemaMismatch, s!"session database {path} has no schema version"⟩
  validateSchemaVersion version "journal"
  let some current := db.session | throw (noTable "open session table" "session")
  let some _ := db.vmRecords | throw (noTable "open VM records table" "vm_records")
  let some session := current |
    throw ⟨.journal, s!"session database {path} has no session record"⟩
  validateSchemaVersion session.schemaVersion "session record"
  checkOwner session

def allVms : Except JournalReport (List VmResourceRecord) := do
  let some rows := db.vmRecords | throw (noTable "open VM records table" "vm_records")
  rows.mapM fun row => do
    validateSchemaVersion row.2.schemaVersion "VM resource record"
    return row.2.value

def hasAbandoned : Bool := !(db.abandoned.getD []).isEmpty

end Database

inductive Write
  | putVm (row : Stored VmResourceRecord)
  | updateVm (v : VmId) (update : VmResourceRecord → VmResourceRecord)
  | removeVm (v : VmId)
  | putAbandoned (row : Stored AbandonedRecord)
  | removeAbandoned (v : VmId)

namespace Database

section Rows

variable {α : Type}

def insertRow (rows : List (VmId × α)) (v : VmId) (row : α) : List (VmId × α) :=
  rows.filter (·.1 ≠ v) ++ [(v, row)]

def removeRow (rows : List (VmId × α)) (v : VmId) : List (VmId × α) := rows.filter (·.1 ≠ v)

def findRow (rows : List (VmId × α)) (v : VmId) : Option α := (rows.find? (·.1 = v)).map (·.2)

end Rows

def write (db : Database) : Write → Except JournalReport Database
  | .putVm row => do
    validateSchemaVersion row.schemaVersion "VM resource record"
    return { db with vmRecords := some (insertRow (db.vmRecords.getD []) row.value.vmId row) }
  | .updateVm v update => do
    let rows := db.vmRecords.getD []
    let some row := findRow rows v |
      throw ⟨.journal, "VM resource record is missing"⟩
    validateSchemaVersion row.schemaVersion "VM resource record"
    return { db with vmRecords := some (insertRow rows v { row with value := update row.value }) }
  | .removeVm v => return { db with vmRecords := some (removeRow (db.vmRecords.getD []) v) }
  | .putAbandoned row => do
    validateSchemaVersion row.schemaVersion "abandoned record"
    let rows := db.abandoned.getD []
    let v := row.value.vmId
    let previous := (findRow rows v).map (·.value.entries)
    let entries := row.value.entries.foldl (fun entries entry => upsert entry entries)
      (previous.getD [])
    return { db with abandoned := some (insertRow rows v ⟨row.schemaVersion, ⟨v, entries⟩⟩) }
  | .removeAbandoned v => return { db with abandoned := some (removeRow (db.abandoned.getD []) v) }

end Database

/-! ## Processes on a state root -/

/-- How far a process has come with its session. -/
inductive Opening
  /-- In `reconcile_stale_sessions`, with these databases to come. -/
  | reconciling (todo : List SessionId)
  /-- Recovering the first of them, which it holds open. -/
  | recovering (sid : SessionId) (todo : List SessionId)
  /-- In `create_current`, after `Database::create`; the schema is committed or not. -/
  | creating (initialized : Bool)
  | current
  | failed (report : JournalReport)
  | stopped

def Opening.agenda : Opening → List SessionId
  | .reconciling todo => todo
  | .recovering sid todo => sid :: todo
  | _ => []

/-- A database file, and the process that has it open. -/
structure SessionFile where
  database : Database
  holder : Option SessionId

/-- The databases of a state root, and the calls of `Session::open`, named by the session
ids they draw. -/
structure StateRoot where
  files : Table SessionId SessionFile
  processes : Table SessionId Opening

namespace StateRoot

def empty : StateRoot := ⟨fun _ => none, fun _ => none⟩

variable (root : StateRoot)

def setProcess (p : SessionId) (opening : Opening) : StateRoot :=
  { root with processes := root.processes.insert p opening }

def setFile (sid : SessionId) (database : Database) (holder : Option SessionId) : StateRoot :=
  { root with files := root.files.insert sid ⟨database, holder⟩ }

def removeFile (sid : SessionId) : StateRoot := { root with files := root.files.remove sid }

/-- A process that stops lets go of its databases. -/
def release (p : SessionId) : StateRoot :=
  { root with files := fun sid => (root.files sid).map fun file =>
      { file with holder := if file.holder = some p then none else file.holder } }

/-- `Database::open` finds no file at a listed path. -/
def openFailed : JournalReport := ⟨.journal, "open stale session database: I/O error: not found"⟩

def readStale (db : Database) (path : String) : Except JournalReport Unit := do
  let _ ← db.readExistingSession path
  let _ ← db.allVms
  return ()

/-- Nothing in the database is left to do or to keep. -/
def spent (db : Database) : Except JournalReport Bool := do
  let records ← db.allVms
  return records.all (·.isComplete) && !db.hasAbandoned

/-- Paths are listed in the order of their names, which is that of nothing else. -/
def Lists (todo : List SessionId) : Prop := todo.Nodup ∧ ∀ sid, sid ∈ todo ↔ root.files sid ≠ none

end StateRoot

/-- What a process does to the state root. -/
inductive SessionEvent
  | begin (p : SessionId)
  /-- `Database::open` of the next listed path. -/
  | look (p : SessionId)
  | write (p : SessionId) (transaction : Write)
  /-- The records of a stale database are done with; it is closed. -/
  | finish (p : SessionId)
  /-- The next step of `create_current`. -/
  | create (p : SessionId)
  /-- A crash, or an I/O error. -/
  | stop (p : SessionId)

namespace StateRoot

def sessionPath (sid : SessionId) : String := (fromUtf8? (uuidText sid)).getD "" ++ ".redb"

/-- One event among the processes that share the state root. -/
inductive Next (root : StateRoot) : SessionEvent → StateRoot → Prop
  | begin {p : SessionId} {todo : List SessionId} (hnew : root.processes p = none)
      (hfresh : root.files p = none) (hlist : root.Lists todo) :
      Next root (.begin p) (root.setProcess p (.reconciling todo))
  | missing {p sid : SessionId} {todo : List SessionId}
      (hp : root.processes p = some (.reconciling (sid :: todo))) (hfile : root.files sid = none) :
      Next root (.look p) (root.setProcess p (.failed openFailed))
  /-- `DatabaseAlreadyOpen`. -/
  | locked {p sid q : SessionId} {todo : List SessionId} {db : Database}
      (hp : root.processes p = some (.reconciling (sid :: todo)))
      (hfile : root.files sid = some ⟨db, some q⟩) :
      Next root (.look p) (root.setProcess p (.reconciling todo))
  | unreadable {p sid : SessionId} {todo : List SessionId} {db : Database} {e : JournalReport}
      (hp : root.processes p = some (.reconciling (sid :: todo)))
      (hfile : root.files sid = some ⟨db, none⟩) (he : readStale db (sessionPath sid) = .error e) :
      Next root (.look p) (root.setProcess p (.failed e))
  | taken {p sid : SessionId} {todo : List SessionId} {db : Database}
      (hp : root.processes p = some (.reconciling (sid :: todo)))
      (hfile : root.files sid = some ⟨db, none⟩) (hok : readStale db (sessionPath sid) = .ok ()) :
      Next root (.look p)
        ((root.setFile sid db (some p)).setProcess p (.recovering sid todo))
  /-- A VM operation of a session, or a cleanup pass over a stale one. -/
  | write {p sid : SessionId} {opening : Opening} {db db' : Database} {transaction : Write}
      (hp : root.processes p = some opening)
      (hown : opening = .current ∧ sid = p ∨ ∃ todo, opening = .recovering sid todo)
      (hfile : root.files sid = some ⟨db, some p⟩) (hok : db.write transaction = .ok db') :
      Next root (.write p transaction) (root.setFile sid db' (some p))
  | undecided {p sid : SessionId} {todo : List SessionId} {db : Database} {e : JournalReport}
      (hp : root.processes p = some (.recovering sid todo))
      (hfile : root.files sid = some ⟨db, some p⟩) (he : spent db = .error e) :
      Next root (.finish p) ((root.setFile sid db none).setProcess p (.failed e))
  | kept {p sid : SessionId} {todo : List SessionId} {db : Database}
      (hp : root.processes p = some (.recovering sid todo))
      (hfile : root.files sid = some ⟨db, some p⟩) (hkeep : spent db = .ok false) :
      Next root (.finish p) ((root.setFile sid db none).setProcess p (.reconciling todo))
  | removed {p sid : SessionId} {todo : List SessionId} {db : Database}
      (hp : root.processes p = some (.recovering sid todo))
      (hfile : root.files sid = some ⟨db, some p⟩) (hspent : spent db = .ok true) :
      Next root (.finish p) ((root.removeFile sid).setProcess p (.reconciling todo))
  | create {p : SessionId} (hp : root.processes p = some (.reconciling []))
      (hfile : root.files p = none) :
      Next root (.create p)
        ((root.setFile p .create (some p)).setProcess p (.creating false))
  | commitSchema {p : SessionId} {db db' : Database}
      (hp : root.processes p = some (.creating false))
      (hfile : root.files p = some ⟨db, some p⟩) (hok : db.initializeDatabase = .ok db') :
      Next root (.create p) ((root.setFile p db' (some p)).setProcess p (.creating true))
  | record {p : SessionId} {db : Database} (hp : root.processes p = some (.creating true))
      (hfile : root.files p = some ⟨db, some p⟩) :
      Next root (.create p)
        ((root.setFile p (db.recordSession p) (some p)).setProcess p .current)
  | stop {p : SessionId} {opening : Opening} (hp : root.processes p = some opening) :
      Next root (.stop p) ((root.release p).setProcess p .stopped)

/-- No call of `Session::open` has failed on a database. -/
def Available (root : StateRoot) : Prop := ∀ p e, root.processes p ≠ some (.failed e)

/-- No process stops between `Database::create` and the commit of its session record,
and none removes a database that another is still going to read. -/
def Steady (root : StateRoot) : SessionEvent → Prop
  | .stop p => ∀ b, root.processes p ≠ some (.creating b)
  | .finish p => ∀ sid todo, root.processes p = some (.recovering sid todo) →
      ∀ q opening, q ≠ p → root.processes q = some opening → sid ∉ opening.agenda
  | _ => True

/-! ## Databases that can be read -/

/-- A database with its schema, its session record and VM records of the right version. -/
structure Readable (db : Database) : Prop where
  schema : db.schema = some (some schemaVersion)
  session : ∃ record, db.session = some (some record) ∧ record.schemaVersion = schemaVersion ∧
    record.owner = ownerFor record.sessionId
  rows : ∃ rows, db.vmRecords = some rows ∧ ∀ row ∈ rows, row.2.schemaVersion = schemaVersion

variable {db db' : Database}

theorem validateSchemaVersion_eq_ok (version : UInt32) (recordKind : String) :
    validateSchemaVersion version recordKind = .ok () ↔ version = schemaVersion := by
  unfold validateSchemaVersion
  split <;> simp [*]

theorem Readable.allVms (h : Readable db) : ∃ records, db.allVms = .ok records := by
  obtain ⟨rows, hrows, hversions⟩ := h.rows
  refine ⟨rows.map (·.2.value), ?_⟩
  unfold Database.allVms
  rw [hrows]
  refine mapM_eq_ok.2 ?_
  rw [forall₂_map_right_iff, forall₂_same]
  intro row hrow
  rw [(validateSchemaVersion_eq_ok _ _).2 (hversions row hrow)]
  rfl

theorem checkOwner_eq {session : SessionRecord} (h : session.owner = ownerFor session.sessionId) :
    Database.checkOwner session = .ok session := by
  unfold Database.checkOwner
  split
  · rw [← h]
  · rw [if_neg (not_not.2 h)]

theorem Readable.readStale (h : Readable db) (path : String) : readStale db path = .ok () := by
  obtain ⟨record, hsession, hversion, howner⟩ := h.session
  obtain ⟨rows, hrows, -⟩ := h.rows
  obtain ⟨records, hrecords⟩ := h.allVms
  have hread : db.readExistingSession path = .ok record := by
    have hjournal := (validateSchemaVersion_eq_ok schemaVersion "journal").2 rfl
    have hrecord := (validateSchemaVersion_eq_ok _ "session record").2 hversion
    unfold Database.readExistingSession
    rw [h.schema, hsession, hrows]
    show (do
      validateSchemaVersion schemaVersion "journal"
      validateSchemaVersion record.schemaVersion "session record"
      Database.checkOwner record) = _
    rw [hjournal, hrecord]
    exact checkOwner_eq howner
  simp only [StateRoot.readStale, hread, hrecords]
  rfl

theorem Readable.spent (h : Readable db) : ∃ b, spent db = .ok b := by
  obtain ⟨records, hrecords⟩ := h.allVms
  refine ⟨records.all (·.isComplete) && !db.hasAbandoned, ?_⟩
  simp only [StateRoot.spent, hrecords]
  rfl

theorem Readable.rewrite (h : Readable db) {rows : List (VmId × Stored VmResourceRecord)}
    (abandoned : Option (List (VmId × Stored AbandonedRecord)))
    (hrows : ∀ row ∈ rows, row.2.schemaVersion = schemaVersion) :
    Readable { db with vmRecords := some rows, abandoned := abandoned } :=
  ⟨h.schema, h.session, rows, rfl, hrows⟩

theorem mem_insertRow {α : Type} {rows : List (VmId × α)} {v : VmId} {row : α} {entry : VmId × α}
    (h : entry ∈ Database.insertRow rows v row) : entry ∈ rows ∨ entry = (v, row) := by
  rcases mem_append.1 h with hold | hnew
  · exact .inl (mem_of_mem_filter hold)
  · exact .inr (mem_singleton.1 hnew)

variable {transaction : Write}

theorem Readable.write (h : Readable db) (hok : db.write transaction = .ok db') : Readable db' := by
  obtain ⟨rows, hrows, hversions⟩ := h.rows
  have hkept : ∀ abandoned, Readable { db with abandoned := abandoned } := by
    intro abandoned
    have hsame := h.rewrite abandoned hversions
    rwa [← hrows] at hsame
  cases transaction with
  | putVm row =>
    obtain ⟨_, hversion, heq⟩ := bind_eq_ok.1 hok
    cases heq
    rw [hrows]
    refine h.rewrite _ fun entry hentry => ?_
    rcases mem_insertRow hentry with hold | rfl
    · exact hversions entry hold
    · exact (validateSchemaVersion_eq_ok _ _).1 hversion
  | updateVm v update =>
    unfold Database.write at hok
    simp only [hrows, getD_some] at hok
    cases hfind : Database.findRow rows v with
    | none =>
      rw [hfind] at hok
      cases hok
    | some row =>
      rw [hfind] at hok
      obtain ⟨_, hversion, heq⟩ := bind_eq_ok.1 hok
      cases heq
      refine h.rewrite _ fun entry hentry => ?_
      rcases mem_insertRow hentry with hold | rfl
      · exact hversions entry hold
      · exact (validateSchemaVersion_eq_ok _ _).1 hversion
  | removeVm v =>
    cases hok
    rw [hrows]
    exact h.rewrite _ fun entry hentry => hversions entry (mem_of_mem_filter hentry)
  | putAbandoned row =>
    obtain ⟨-, -, heq⟩ := bind_eq_ok.1 hok
    cases heq
    exact hkept _
  | removeAbandoned v =>
    cases hok
    exact hkept _

/-! ## State roots -/

/-- What a database is while its session is being created. -/
def Unfinished (initialized : Bool) (db : Database) : Prop :=
  if initialized then db = ⟨some (some schemaVersion), some none, some [], some []⟩
  else db = .create

/-- A call is going to read databases of other sessions, each once and each there. -/
structure Agenda (root : StateRoot) (p : SessionId) (todo : List SessionId) : Prop where
  once : todo.Nodup
  foreign : p ∉ todo
  there : ∀ sid ∈ todo, root.files sid ≠ none

/-- What holds of a state root: databases can be read, or are being created by the
process that holds them; listed databases are there; processes hold what they work on. -/
structure Sound (root : StateRoot) : Prop where
  readable : ∀ sid file, root.files sid = some file → Readable file.database ∨
    ∃ b, root.processes sid = some (.creating b) ∧ file.holder = some sid ∧
      Unfinished b file.database
  listed : ∀ p opening, root.processes p = some opening → Agenda root p opening.agenda
  own : ∀ p, root.processes p = some .current ∨ (∃ b, root.processes p = some (.creating b)) →
    ∃ db, root.files p = some ⟨db, some p⟩
  unfinished : ∀ p b file, root.processes p = some (.creating b) → root.files p = some file →
    Unfinished b file.database
  available : Available root

variable {root root' : StateRoot} {p sid : SessionId}

theorem sound_empty : Sound empty where
  readable _ _ h := by cases h
  listed _ _ h := by cases h
  own p h := by rcases h with h | ⟨b, h⟩ <;> cases h
  unfinished _ _ _ h := by cases h
  available _ _ h := by cases h

theorem processes_setProcess (root : StateRoot) (p q : SessionId) (opening : Opening) :
    (root.setProcess p opening).processes q = if q = p then some opening else root.processes q :=
  Table.insert_apply _ _ _ _

theorem files_setFile (root : StateRoot) (sid sid' : SessionId) (db : Database)
    (holder : Option SessionId) : (root.setFile sid db holder).files sid' =
      if sid' = sid then some ⟨db, holder⟩ else root.files sid' :=
  Table.insert_apply _ _ _ _

variable {todo : List SessionId} {holder : Option SessionId} {opening : Opening} {db : Database}

section

variable (h : Sound root)
include h

theorem Sound.setProcess (hcreating : ∀ b, root.processes p ≠ some (.creating b))
    (hlisted : Agenda root p opening.agenda)
    (hown : opening ≠ .current ∧ ∀ b, opening ≠ .creating b) (hfailed : ∀ e, opening ≠ .failed e) :
    Sound (root.setProcess p opening) where
  readable sid file hfile := by
    rcases h.readable sid file hfile with hread | ⟨b, hproc, hrest⟩
    · exact .inl hread
    · refine .inr ⟨b, ?_, hrest⟩
      have hne : sid ≠ p := by
        rintro rfl
        exact hcreating b hproc
      rw [processes_setProcess, if_neg hne, hproc]
  listed q opening' hq := by
    rw [processes_setProcess] at hq
    split at hq
    · next heq =>
      cases hq
      subst heq
      exact ⟨hlisted.once, hlisted.foreign, hlisted.there⟩
    · exact ⟨(h.listed q opening' hq).once, (h.listed q opening' hq).foreign,
        (h.listed q opening' hq).there⟩
  own q hq := by
    rw [processes_setProcess] at hq
    split at hq
    · rcases hq with hq | ⟨b, hq⟩
      · exact absurd (some.inj hq) hown.1
      · exact absurd (some.inj hq) (hown.2 b)
    · exact h.own q hq
  unfinished q b file hq hfile := by
    rw [processes_setProcess] at hq
    split at hq
    · exact absurd (some.inj hq) (hown.2 b)
    · exact h.unfinished q b file hq hfile
  available q e hq := by
    rw [processes_setProcess] at hq
    split at hq
    · exact hfailed e (some.inj hq)
    · exact h.available q e hq

theorem Sound.setFile (hread : Readable db)
    (hcreating : ∀ b, root.processes sid ≠ some (.creating b))
    (hcurrent : root.processes sid = some .current → holder = some sid) :
    Sound (root.setFile sid db holder) where
  readable sid' file hfile := by
    rw [files_setFile] at hfile
    split at hfile
    · cases hfile
      exact .inl hread
    · exact h.readable sid' file hfile
  listed q opening hq := by
    obtain ⟨honce, hforeign, hthere⟩ := h.listed q opening hq
    refine ⟨honce, hforeign, fun sid' hmem => ?_⟩
    rw [files_setFile]
    split
    · nofun
    · exact hthere sid' hmem
  own q hq := by
    rw [files_setFile]
    split
    · next heq =>
      subst heq
      rcases hq with hq | ⟨b, hq⟩
      · exact ⟨db, by rw [hcurrent hq]⟩
      · exact absurd hq (hcreating b)
    · exact h.own q hq
  unfinished q b file hq hfile := by
    rw [files_setFile] at hfile
    split at hfile
    · next heq => exact absurd (heq ▸ hq) (hcreating b)
    · exact h.unfinished q b file hq hfile
  available := h.available

theorem Sound.not_own (hfile : root.files sid = some ⟨db, holder⟩) (hholder : holder ≠ some sid) :
    ¬ (root.processes sid = some .current ∨ ∃ b, root.processes sid = some (.creating b)) := by
  intro hown
  obtain ⟨db', hdb'⟩ := h.own sid hown
  cases hfile.symm.trans hdb'
  exact hholder rfl

variable {db db' : Database}

theorem Sound.setFile_of_foreign
    {holder' : Option SessionId} (hfile : root.files sid = some ⟨db, holder⟩)
    (hholder : holder ≠ some sid) (hread : Readable db') : Sound (root.setFile sid db' holder') :=
  h.setFile hread (fun b hb => h.not_own hfile hholder (.inr ⟨b, hb⟩))
    fun hcurrent => absurd (.inl hcurrent) (h.not_own hfile hholder)

theorem Sound.readable_of_holder
    (hfile : root.files sid = some ⟨db, holder⟩) (hholder : holder ≠ some sid) : Readable db := by
  rcases h.readable sid _ hfile with hread | ⟨b, -, hown, -⟩
  · exact hread
  · exact absurd hown hholder

theorem Sound.recovering_ne
    (hp : root.processes p = some (.recovering sid todo)) : some p ≠ some sid := by
  intro heq
  cases heq
  exact (h.listed p _ hp).foreign mem_cons_self

theorem Sound.tail
    (hp : root.processes p = some (.reconciling (sid :: todo))) : Agenda root p todo := by
  obtain ⟨honce, hforeign, hthere⟩ := h.listed p _ hp
  exact ⟨(nodup_cons.1 honce).2, fun hmem => hforeign (mem_cons_of_mem _ hmem),
    fun sid' hmem => hthere sid' (mem_cons_of_mem _ hmem)⟩

theorem Sound.begin (hnew : root.processes p = none)
    (hfresh : root.files p = none) (hlist : root.Lists todo) :
    Sound (root.setProcess p (.reconciling todo)) := by
  refine h.setProcess (by simp [hnew]) ⟨hlist.1, ?_, fun sid hmem => (hlist.2 sid).1 hmem⟩
    ⟨nofun, nofun⟩ nofun
  intro hmem
  exact (hlist.2 p).1 hmem hfresh

theorem Sound.take (hp : root.processes p = some (.reconciling (sid :: todo)))
    (hfile : root.files sid = some ⟨db, none⟩) :
    Sound ((root.setFile sid db (some p)).setProcess p (.recovering sid todo)) := by
  have hset : Sound (root.setFile sid db (some p)) :=
    h.setFile_of_foreign hfile nofun (h.readable_of_holder hfile nofun)
  have hlisted : Agenda _ p (sid :: todo) := hset.listed p (.reconciling (sid :: todo)) hp
  exact hset.setProcess (by simp [StateRoot.setFile, hp]) hlisted ⟨nofun, nofun⟩ nofun

theorem Sound.write (hp : root.processes p = some opening)
    (hown : opening = .current ∧ sid = p ∨ ∃ todo, opening = .recovering sid todo)
    (hfile : root.files sid = some ⟨db, some p⟩) (hok : db.write transaction = .ok db') :
    Sound (root.setFile sid db' (some p)) := by
  rcases hown with ⟨rfl, rfl⟩ | ⟨todo, rfl⟩
  · refine h.setFile (Readable.write ?_ hok) (by simp [hp]) fun _ => rfl
    rcases h.readable sid _ hfile with hread | ⟨b, hcreating, -⟩
    · exact hread
    · rw [hp] at hcreating
      cases hcreating
  · have hne := h.recovering_ne hp
    exact h.setFile_of_foreign hfile hne ((h.readable_of_holder hfile hne).write hok)

theorem Sound.keep (hp : root.processes p = some (.recovering sid todo))
    (hfile : root.files sid = some ⟨db, some p⟩) :
    Sound ((root.setFile sid db none).setProcess p (.reconciling todo)) := by
  have hne := h.recovering_ne hp
  have hset : Sound (root.setFile sid db none) :=
    h.setFile_of_foreign hfile hne (h.readable_of_holder hfile hne)
  obtain ⟨honce, hforeign, hthere⟩ := hset.listed p _ hp
  refine hset.setProcess (by simp [StateRoot.setFile, hp]) ?_ ⟨nofun, nofun⟩ nofun
  exact ⟨(nodup_cons.1 honce).2, fun hmem => hforeign (mem_cons_of_mem _ hmem),
    fun sid' hmem => hthere sid' (mem_cons_of_mem _ hmem)⟩

end

theorem files_removeFile (root : StateRoot) (sid sid' : SessionId) :
    (root.removeFile sid).files sid' = if sid' = sid then none else root.files sid' :=
  Table.remove_apply _ _ _

section

variable (h : Sound root)
include h

theorem Sound.removeFile
    (hunlisted : ∀ q opening, root.processes q = some opening → sid ∉ opening.agenda)
    (hown : ¬ (root.processes sid = some .current ∨ ∃ b, root.processes sid = some (.creating b))) :
    Sound (root.removeFile sid) := by
  have hthere : ∀ sid' file, (root.removeFile sid).files sid' = some file →
      root.files sid' = some file := by
    intro sid' file hfile
    rw [files_removeFile] at hfile
    split at hfile
    · cases hfile
    · exact hfile
  refine ⟨fun sid' file hfile => h.readable sid' file (hthere sid' file hfile),
    fun q opening hq => ?_, fun q hq => ?_,
    fun q b file hq hfile => h.unfinished q b file hq (hthere q file hfile), h.available⟩
  · obtain ⟨honce, hforeign, hthere⟩ := h.listed q opening hq
    refine ⟨honce, hforeign, fun sid' hmem => ?_⟩
    have hne : sid' ≠ sid := fun heq => hunlisted q opening hq (heq ▸ hmem)
    rw [files_removeFile, if_neg hne]
    exact hthere sid' hmem
  · have hne : q ≠ sid := fun heq => hown (heq ▸ hq)
    rw [files_removeFile, if_neg hne]
    exact h.own q hq

theorem Sound.remove (hp : root.processes p = some (.recovering sid todo))
    (hfile : root.files sid = some ⟨db, some p⟩)
    (halone : ∀ q opening, q ≠ p → root.processes q = some opening → sid ∉ opening.agenda) :
    Sound ((root.removeFile sid).setProcess p (.reconciling todo)) := by
  have hne := h.recovering_ne hp
  obtain ⟨honce, hforeign, hthere⟩ := h.listed p _ hp
  obtain ⟨hnot, hnodup⟩ := nodup_cons.1 honce
  have hnext : Sound (root.setProcess p (.reconciling todo)) := by
    refine h.setProcess (fun b hb => ?_) ⟨hnodup, fun hmem => ?_, fun sid' hmem => ?_⟩
      ⟨nofun, nofun⟩ nofun
    · cases hp.symm.trans hb
    · exact hforeign (mem_cons_of_mem _ hmem)
    · exact hthere sid' (mem_cons_of_mem _ hmem)
  refine hnext.removeFile (fun q opening hq => ?_) ?_
  · rw [processes_setProcess] at hq
    split at hq
    · cases hq
      exact hnot
    · next hqp => exact halone q opening hqp hq
  · rw [processes_setProcess, if_neg fun heq => hne (congrArg some heq.symm)]
    exact h.not_own hfile hne

theorem Sound.creating (hagenda : opening.agenda = []) (hfailed : ∀ e, opening ≠ .failed e)
    (hdb : Readable db ∧ (∀ b, opening ≠ .creating b) ∨ ∃ b, opening = .creating b ∧ Unfinished b db) :
    Sound ((root.setFile p db (some p)).setProcess p opening) := by
  have hfiles := files_setFile root p
  have hprocs := fun q => processes_setProcess (root.setFile p db (some p)) p q opening
  refine ⟨fun sid file hfile => ?_, fun q opening' hq => ?_, fun q hq => ?_,
    fun q b file hq hfile => ?_, fun q e hq => ?_⟩
  · change (root.setFile p db (some p)).files sid = some file at hfile
    rw [hfiles] at hfile
    rw [hprocs]
    split at hfile
    · next heq =>
      cases hfile
      subst heq
      rw [if_pos rfl]
      refine hdb.imp And.left ?_
      rintro ⟨b, rfl, hunfinished⟩
      exact ⟨b, rfl, rfl, hunfinished⟩
    · next hne =>
      rw [if_neg hne]
      exact h.readable sid file hfile
  · rw [hprocs] at hq
    split at hq
    · cases hq
      rw [hagenda]
      exact ⟨nodup_nil, nofun, nofun⟩
    · obtain ⟨honce, hforeign, hthere⟩ := h.listed q opening' hq
      refine ⟨honce, hforeign, fun sid hmem => ?_⟩
      show (root.setFile p db (some p)).files sid ≠ none
      rw [hfiles]
      split
      · nofun
      · exact hthere sid hmem
  · rw [hprocs] at hq
    show ∃ db', (root.setFile p db (some p)).files q = some ⟨db', some q⟩
    rw [hfiles]
    split
    · next heq =>
      subst heq
      exact ⟨db, rfl⟩
    · next hne =>
      rw [if_neg hne] at hq
      exact h.own q hq
  · change (root.setFile p db (some p)).files q = some file at hfile
    rw [hprocs] at hq
    rw [hfiles] at hfile
    split at hq
    · next heq =>
      rw [if_pos heq] at hfile
      cases hfile
      cases hq
      rcases hdb with ⟨-, hnot⟩ | ⟨b', hb', hunfinished⟩
      · exact absurd rfl (hnot b)
      · cases hb'
        exact hunfinished
    · next hne =>
      rw [if_neg hne] at hfile
      exact h.unfinished q b file hq hfile
  · rw [hprocs] at hq
    split at hq
    · exact hfailed e (some.inj hq)
    · exact h.available q e hq

theorem Sound.release
    (hown : ¬ (root.processes p = some .current ∨ ∃ b, root.processes p = some (.creating b))) :
    Sound (root.release p) := by
  have hrelease : ∀ sid file, (root.release p).files sid = some file → ∃ old,
      root.files sid = some old ∧ file.database = old.database ∧
        (old.holder ≠ some p → file.holder = old.holder) := by
    intro sid file hfile
    obtain ⟨old, hold, rfl⟩ := map_eq_some_iff.1 hfile
    exact ⟨old, hold, rfl, fun hne => if_neg hne⟩
  refine ⟨fun sid file hfile => ?_, fun q opening hq => ?_, fun q hq => ?_,
    fun q b file hq hfile => ?_, h.available⟩
  · obtain ⟨old, hold, hdb, hholder⟩ := hrelease sid file hfile
    rcases h.readable sid old hold with hread | ⟨b, hproc, hholds, hunfinished⟩
    · exact .inl (hdb ▸ hread)
    · refine .inr ⟨b, hproc, ?_, hdb ▸ hunfinished⟩
      rw [hholder, hholds]
      rw [hholds]
      rintro ⟨⟩
      exact hown (.inr ⟨b, hproc⟩)
  · obtain ⟨honce, hforeign, hthere⟩ := h.listed q opening hq
    exact ⟨honce, hforeign, fun sid hmem hnone => hthere sid hmem (map_eq_none_iff.1 hnone)⟩
  · obtain ⟨db, hdb⟩ := h.own q hq
    have hqp : (some q : Option SessionId) ≠ some p := by
      rintro ⟨⟩
      exact hown hq
    refine ⟨db, ?_⟩
    show (root.files q).map _ = _
    rw [hdb, map_some, if_neg hqp]
  · obtain ⟨old, hold, hdb, -⟩ := hrelease q file hfile
    rw [hdb]
    exact h.unfinished q b old hq hold

theorem Sound.stop (hcreating : ∀ b, root.processes p ≠ some (.creating b)) :
    Sound ((root.release p).setProcess p .stopped) := by
  have hstopped : Sound (root.setProcess p .stopped) :=
    h.setProcess hcreating ⟨nodup_nil, nofun, nofun⟩ ⟨nofun, nofun⟩ nofun
  refine hstopped.release ?_
  rw [processes_setProcess, if_pos rfl]
  rintro (hcurrent | ⟨b, hb⟩)
  · cases hcurrent
  · cases hb

end

theorem readable_recordSession (h : Unfinished true db) : Readable (db.recordSession p) := by
  cases show db = _ from h
  exact ⟨rfl, ⟨⟨schemaVersion, p, ownerFor p⟩, rfl, rfl, rfl⟩, [], rfl, by simp⟩

theorem Sound.step {event : SessionEvent} (h : Sound root)
    (hsteady : root.Steady event) (hstep : Next root event root') : Sound root' := by
  cases hstep with
  | begin hnew hfresh hlist => exact h.begin hnew hfresh hlist
  | missing hp hfile => exact absurd hfile ((h.listed _ _ hp).there _ mem_cons_self)
  | locked hp =>
    exact h.setProcess (by simp [hp]) (h.tail hp) ⟨nofun, nofun⟩ nofun
  | unreadable hp hfile he =>
    have hok := (h.readable_of_holder hfile nofun).readStale
    rw [hok] at he
    cases he
  | taken hp hfile => exact h.take hp hfile
  | write hp hown hfile hok => exact h.write hp hown hfile hok
  | undecided hp hfile he =>
    obtain ⟨b, hok⟩ := (h.readable_of_holder hfile (h.recovering_ne hp)).spent
    rw [hok] at he
    cases he
  | kept hp hfile => exact h.keep hp hfile
  | removed hp hfile => exact h.remove hp hfile (hsteady _ _ hp)
  | create hp => exact h.creating rfl nofun (.inr ⟨false, rfl, rfl⟩)
  | commitSchema hp hfile hok =>
    refine h.creating rfl nofun (.inr ⟨true, rfl, ?_⟩)
    cases show _ = Database.create from h.unfinished _ false _ hp hfile
    cases hok
    rfl
  | record hp hfile =>
    refine h.creating rfl nofun (.inl ⟨?_, nofun⟩)
    exact readable_recordSession (h.unfinished _ true _ hp hfile)
  | stop hp => exact h.stop hsteady

/-- **Recovery stays available.**  In every history in which no process stops while it
creates its session, and none removes a database another is still going to read, no
`Session::open` fails on a database. -/
theorem sessions_recoverable {events : List SessionEvent}
    {root : StateRoot} (h : Run.Trace (fun r event r' => Next r event r' ∧ r.Steady event)
      empty events root) : Available root := by
  have hsound : Sound root :=
    h.invariant (I := fun _ r => Sound r) sound_empty fun _ _ _ _ ih hstep => ih.step hstep.2 hstep.1
  exact hsound.available

/-! ### Two histories -/

/-- The schema of the first session is committed, its session record is not. -/
def schemaCommitted : StateRoot :=
  ((((empty.setProcess 1 (.reconciling [])).setFile 1 .create (some 1)).setProcess 1
    (.creating false)).setFile 1 ⟨some (some schemaVersion), some none, some [], some []⟩
      (some 1)).setProcess 1 (.creating true)

theorem trace_schemaCommitted : Run.Trace (fun r event r' => Next r event r' ∧ r.Steady event) empty
      [.begin 1, .create 1, .create 1] schemaCommitted := by
  have hbegin : Next empty (.begin 1) (empty.setProcess 1 (.reconciling [])) :=
    .begin rfl rfl ⟨nodup_nil, by simp [empty]⟩
  have hcreate : Next (empty.setProcess 1 (.reconciling [])) (.create 1) _ := .create rfl rfl
  have hschema : Next (((empty.setProcess 1 (.reconciling [])).setFile 1 .create
      (some 1)).setProcess 1 (.creating false)) (.create 1) schemaCommitted :=
    .commitSchema rfl rfl rfl
  exact .snoc (.snoc (.snoc .nil ⟨hbegin, trivial⟩) ⟨hcreate, trivial⟩) ⟨hschema, trivial⟩

theorem files_schemaCommitted {sid : SessionId} (h : sid ≠ 1) : schemaCommitted.files sid = none :=
  (files_setFile _ 1 sid _ _).trans ((if_neg h).trans
    ((files_setFile _ 1 sid _ _).trans (if_neg h)))

theorem lists_one {root : StateRoot} (hone : root.files 1 ≠ none)
    (hothers : ∀ sid, sid ≠ 1 → root.files sid = none) : root.Lists [1] := by
  refine ⟨nodup_singleton 1, fun sid => ?_⟩
  by_cases h : sid = 1
  · subst h
    exact iff_of_true (mem_singleton_self _) hone
  · exact iff_of_false (fun hmem => h (mem_singleton.1 hmem)) (not_not.2 (hothers sid h))

/-- The database of an opened session without VMs. -/
def recorded (sid : SessionId) : Database :=
  Database.recordSession ⟨some (some schemaVersion), some none, some [], some []⟩ sid

/-- The first session was opened; its process has stopped, and its database is still there. -/
def stopped : StateRoot :=
  (((schemaCommitted.setFile 1 (recorded 1) (some 1)).setProcess 1 .current).release 1).setProcess 1
    .stopped

theorem stopped_lists : stopped.Lists [1] := by
  refine lists_one nofun fun sid h => map_eq_none_iff.2 ?_
  exact (files_setFile _ 1 sid _ _).trans ((if_neg h).trans (files_schemaCommitted h))

theorem trace_stopped : Run.Trace (fun r event r' => Next r event r' ∧ r.Steady event) empty
    [.begin 1, .create 1, .create 1, .create 1, .stop 1] stopped := by
  have hrecord : Next schemaCommitted (.create 1)
    ((schemaCommitted.setFile 1 (recorded 1) (some 1)).setProcess 1 .current) := .record rfl rfl
  exact .snoc (.snoc trace_schemaCommitted ⟨hrecord, trivial⟩) ⟨.stop rfl, nofun⟩

/-- The second process has the database of the first open. -/
def recovering : StateRoot :=
  ((stopped.setProcess 2 (.reconciling [1])).setFile 1 (recorded 1) (some 2)).setProcess 2
    (.recovering 1 [])

theorem steady_recovering : recovering.Steady (.finish 2) := by
  rintro sid todo - q opening hq hopening
  by_cases hone : q = 1
  · subst hone
    cases (show some Opening.stopped = some opening from hopening)
    exact not_mem_nil
  · simp only [recovering, stopped, schemaCommitted, empty, setProcess, setFile, release,
      Table.insert_apply, if_neg hq, if_neg hone, reduceCtorEq] at hopening

/-- It has removed that database and created its own. -/
def secondCreated : StateRoot :=
  (((recovering.removeFile 1).setProcess 2 (.reconciling [])).setFile 2 .create (some 2)).setProcess
    2 (.creating false)

def secondCommitted : StateRoot :=
  (secondCreated.setFile 2 ⟨some (some schemaVersion), some none, some [], some []⟩
    (some 2)).setProcess 2 (.creating true)

/-- A second session is opened: it removes the database of the first. -/
theorem second_session_available : ∃ root,
    Run.Trace (fun r event r' => Next r event r' ∧ r.Steady event) empty
      [.begin 1, .create 1, .create 1, .create 1, .stop 1, .begin 2, .look 2, .finish 2, .create 2,
        .create 2, .create 2] root ∧
    root.files 1 = none ∧ root.processes 2 = some .current ∧ Available root := by
  have hbegin : Next stopped (.begin 2) (stopped.setProcess 2 (.reconciling [1])) :=
    .begin rfl rfl stopped_lists
  have hlook : Next (stopped.setProcess 2 (.reconciling [1])) (.look 2) recovering :=
    .taken rfl rfl rfl
  have hfinish : Next recovering (.finish 2)
    ((recovering.removeFile 1).setProcess 2 (.reconciling [])) := .removed rfl rfl rfl
  have hfinished := Run.Trace.snoc (.snoc (.snoc trace_stopped ⟨hbegin, trivial⟩)
    ⟨hlook, trivial⟩) ⟨hfinish, steady_recovering⟩
  have hcreate : Next ((recovering.removeFile 1).setProcess 2 (.reconciling [])) (.create 2)
    secondCreated := .create rfl rfl
  have hschema : Next secondCreated (.create 2) secondCommitted := .commitSchema rfl rfl rfl
  have hrecord : Next secondCommitted (.create 2) _ := .record rfl rfl
  have htrace := Run.Trace.snoc (.snoc (.snoc hfinished ⟨hcreate, trivial⟩) ⟨hschema, trivial⟩)
    ⟨hrecord, trivial⟩
  exact ⟨_, htrace, rfl, rfl, sessions_recoverable htrace⟩

/-- The process stops before it records its session; its database stays. -/
def leftBehind : StateRoot := (schemaCommitted.release 1).setProcess 1 .stopped

theorem leftBehind_lists : leftBehind.Lists [1] :=
  lists_one nofun fun _ h => map_eq_none_iff.2 (files_schemaCommitted h)

/-- The next `Session::open` on this root fails. -/
theorem open_fails_on_leftover : ∃ events root, Run.Trace (fun r event r' => Next r event r')
    empty events root ∧ ¬ Available root := by
  have hstop : Next schemaCommitted (.stop 1) leftBehind := .stop rfl
  have hbegin : Next leftBehind (.begin 2) _ := .begin rfl rfl leftBehind_lists
  have hlook : Next (leftBehind.setProcess 2 (.reconciling [1])) (.look 2) _ :=
    .unreadable rfl rfl rfl
  have htrace := trace_schemaCommitted.mono fun _ _ _ hstep => hstep.1
  refine ⟨_, _, .snoc (.snoc (.snoc htrace hstop) hbegin) hlook, fun havailable => ?_⟩
  exact havailable 2 _ rfl

end StateRoot

end Jyth.Hcs
