import Jyth.Hcs.Teardown

/-!
# Reading absence from a report

`resource_is_absent` searches a rendered report for two HRESULTs.  A report joins fixed
texts, HRESULTs and texts that others attach; a separator that no code has in it stands
between any two of them, so each piece is read by itself.

    a result applied as `Removed` → each constituent is gone
      ↔  each is gone, or no close and no attached text has a code in it  (removed_only_if_gone_iff)

Removals are modelled down to the HRESULTs of their calls.  Left out: how HNS is searched
by name (`find_endpoint_id_by_name`), which is one outcome of `Lookup`.
-/

namespace Jyth.Hcs

open Format Effect List

/-! ## Searching a text -/

section Search

theorem infix_append_cons_iff {α : Type} {c : α} {l a b : List α} (hc : c ∉ l) :
    l <:+: a ++ c :: b ↔ l <:+: a ∨ l <:+: b := by
  constructor
  · rintro ⟨p, q, h⟩
    rw [append_assoc] at h
    rcases append_eq_append_iff.1 h with ⟨a', rfl, hafter⟩ | ⟨p', rfl, hafter⟩
    · -- the occurrence begins before the separator, so it ends there too
      rcases append_eq_append_iff.1 hafter with ⟨d, rfl, -⟩ | ⟨d, rfl, hd⟩
      · exact .inl ⟨p, d, append_assoc _ _ _⟩
      · cases d with
        | nil => exact .inl ⟨p, [], by simp⟩
        | cons e d =>
          obtain ⟨rfl, -⟩ := cons.inj hd
          exact absurd (mem_append_right _ mem_cons_self) hc
    · cases p' with
      | nil =>
        cases l with
        | nil => exact .inl nil_infix
        | cons e l =>
          obtain ⟨rfl, -⟩ := cons.inj hafter
          exact absurd mem_cons_self hc
      | cons e p' =>
        obtain ⟨-, rfl⟩ := cons.inj hafter
        exact .inr ⟨p', q, append_assoc _ _ _⟩
  · rintro (h | h)
    · exact h.trans (prefix_append _ _).isInfix
    · exact h.trans ⟨a ++ [c], [], by simp⟩

theorem contains_iff {needle text : Text} : contains needle text = true ↔ needle <:+: text := by
  induction text with
  | nil => simp [contains]
  | cons b rest ih =>
    rw [contains, Bool.or_eq_true, ih, isPrefixOf_iff_prefix, infix_cons_iff]

end Search

/-! ## HRESULTs -/

section Codes

abbrev HResult := UInt32

def hnsAbsent (hres : HResult) : Bool := hres = 0x80070490 || hres = 0x80070002

def toUpper (b : UInt8) : UInt8 := if 0x61 ≤ b && b ≤ 0x7a then b - 0x20 else b

/-- `0x{hres:08X}` -/
def hresult (hres : HResult) : Text := utf8 "0x" ++ (toHex 8 hres.toNat).map toUpper

/-- Bytes that cannot be part of one of the two codes. -/
def separators : List UInt8 := [0x20, 0x28, 0x29, 0x3a, 0x3b]

def code (hres : HResult) : Text := utf8 "0x" ++ toHex 8 hres.toNat

theorem absent_iff {text : Text} : resourceIsAbsent text = true ↔
    ∃ hres, hnsAbsent hres = true ∧ code hres <:+: text.map toLower := by
  have hnotFound : utf8 "0x80070490" = code 0x80070490 := by decide
  have hnoFile : utf8 "0x80070002" = code 0x80070002 := by decide
  rw [resourceIsAbsent, Bool.or_eq_true, contains_iff, contains_iff, hnotFound, hnoFile]
  simp only [hnsAbsent, Bool.or_eq_true, decide_eq_true_eq, or_and_right, exists_or, exists_eq_left]

variable {a b : Text} {c : UInt8}

theorem separator_notMem (hc : c ∈ separators) {hres : HResult}
    (h : hnsAbsent hres = true) : toLower c ∉ code hres := by
  have hall : ∀ c ∈ separators, toLower c ∉ code 0x80070490 ∧ toLower c ∉ code 0x80070002 := by
    decide +kernel
  simp only [hnsAbsent, Bool.or_eq_true, decide_eq_true_eq] at h
  rcases h with rfl | rfl
  · exact (hall c hc).1
  · exact (hall c hc).2

theorem absent_append_cons (hc : c ∈ separators) : resourceIsAbsent (a ++ c :: b) = true ↔
      resourceIsAbsent a = true ∨ resourceIsAbsent b = true := by
  simp only [absent_iff, map_append, map_cons, ← exists_or, ← and_or_left]
  refine exists_congr fun hres => and_congr_right fun h => ?_
  exact infix_append_cons_iff (separator_notMem hc h)

theorem absent_append_left (h : a.getLast?.any (· ∈ separators) = true) :
    resourceIsAbsent (a ++ b) = true ↔ resourceIsAbsent a = true ∨ resourceIsAbsent b = true := by
  obtain ⟨c, hlast, hc⟩ := (Option.any_eq_true _ _).1 h
  obtain ⟨front, rfl⟩ := getLast?_eq_some_iff.1 hlast
  have hc' : c ∈ separators := of_decide_eq_true hc
  have hempty : resourceIsAbsent [] = false := rfl
  rw [append_assoc, singleton_append, absent_append_cons hc', absent_append_cons hc', hempty]
  simp

theorem absent_append_right (h : b.head?.any (· ∈ separators) = true) :
    resourceIsAbsent (a ++ b) = true ↔ resourceIsAbsent a = true ∨ resourceIsAbsent b = true := by
  obtain ⟨c, hhead, hc⟩ := (Option.any_eq_true _ _).1 h
  obtain ⟨rest, rfl⟩ := head?_eq_some_iff.1 hhead
  have hc' : c ∈ separators := of_decide_eq_true hc
  have hempty : resourceIsAbsent [] = false := rfl
  have hcons : resourceIsAbsent (c :: rest) = true ↔
      resourceIsAbsent [] = true ∨ resourceIsAbsent rest = true := absent_append_cons (a := []) hc'
  rw [absent_append_cons hc', hcons, hempty]
  simp

theorem absent_after (h : a.getLast?.any (· ∈ separators) = true) (ha : resourceIsAbsent a = false) :
    resourceIsAbsent (a ++ b) = true ↔ resourceIsAbsent b = true := by
  rw [absent_append_left h, ha]
  simp

theorem absent_before (h : b.head?.any (· ∈ separators) = true) (hb : resourceIsAbsent b = false) :
    resourceIsAbsent (a ++ b) = true ↔ resourceIsAbsent a = true := by
  rw [absent_append_right h, hb]
  simp

theorem lower_toHex (k n : Nat) : ((toHex k n).map toUpper).map toLower = toHex k n := by
  have hdigit : ∀ d < 16, toLower (toUpper (hexDigit d)) = hexDigit d := by decide
  induction k generalizing n with
  | zero => rfl
  | succ k ih =>
    rw [toHex, map_append, map_append, ih, map_singleton, map_singleton,
      hdigit _ (Nat.mod_lt _ (by decide))]

theorem code_inj {h h' : HResult} (heq : code h = code h') : h = h' := by
  have hhex : toHex 8 h.toNat = toHex 8 h'.toNat := append_cancel_left heq
  have hvalue := ofHex?_toHex 8 h.toNat h.toNat_lt
  rw [hhex, ofHex?_toHex 8 h'.toNat h'.toNat_lt] at hvalue
  exact (UInt32.toNat_inj.1 (Option.some.inj hvalue)).symm

theorem absent_hresult (hres : HResult) :
    resourceIsAbsent (hresult hres) = true ↔ hnsAbsent hres = true := by
  have hlower : (hresult hres).map toLower = code hres := by
    rw [hresult, map_append, lower_toHex]
    rfl
  rw [absent_iff, hlower]
  constructor
  · rintro ⟨other, hother, hoccurs⟩
    have hlength : (code other).length = (code hres).length := by simp [code]
    rwa [← code_inj (hoccurs.eq_of_length hlength)]
  · exact fun h => ⟨hres, h, infix_rfl⟩

theorem absent_intercalate (texts : List Text) :
    resourceIsAbsent ((utf8 "; ").intercalate texts) = true ↔
      ∃ text ∈ texts, resourceIsAbsent text = true := by
  induction texts with
  | nil => simp [show resourceIsAbsent [] = false from rfl]
  | cons first rest ih =>
    cases rest with
    | nil => simp
    | cons second rest =>
      have hsplit : (utf8 "; ").intercalate (first :: second :: rest) =
          first ++ (utf8 "; " ++ (utf8 "; ").intercalate (second :: rest)) := by
        simp [intercalate]
      rw [hsplit, absent_append_right rfl, absent_append_left rfl, ih]
      simp [show resourceIsAbsent (utf8 "; ") = false from rfl]

end Codes

/-! ## Reports -/

section Reports

/-- A report: its context and its attachments, as `frames` visits them. -/
structure Report where
  context : String
  attachments : List Text

/-- `report_text` -/
def Report.text (report : Report) : Text :=
  report.attachments.foldl (fun text attachment => text ++ utf8 "; " ++ attachment)
    (utf8 report.context)

theorem absent_foldl (attachments : List Text) (text : Text) :
    resourceIsAbsent (attachments.foldl (fun text attachment => text ++ utf8 "; " ++ attachment) text)
      = true ↔ resourceIsAbsent text = true ∨
        ∃ attachment ∈ attachments, resourceIsAbsent attachment = true := by
  induction attachments generalizing text with
  | nil => simp
  | cons first rest ih =>
    have hfirst : resourceIsAbsent (text ++ utf8 "; " ++ first) = true ↔
        resourceIsAbsent text = true ∨ resourceIsAbsent first = true := by
      rw [List.append_assoc, absent_append_right rfl, absent_append_left rfl]
      simp [show resourceIsAbsent (utf8 "; ") = false from rfl]
    rw [List.foldl_cons, ih, hfirst]
    simp [or_assoc]

theorem Report.absent_iff (report : Report)
    (hcontext : resourceIsAbsent (utf8 report.context) = false) :
    resourceIsAbsent report.text = true ↔
      ∃ attachment ∈ report.attachments, resourceIsAbsent attachment = true := by
  rw [Report.text, absent_foldl, hcontext]
  simp

end Reports

/-! ## Network removal -/

section Network

def networkFailed : String := "an HNS network/endpoint operation failed"

/-- `HcnDeleteEndpoint` or `HcnDeleteNetwork`: its HRESULT and its error record. -/
structure Deletion where
  hres : HResult
  diagnostic : Text

def deleteResult (call : String) (deletion : Deletion) : Except Report Unit :=
  if deletion.hres = 0 ∨ hnsAbsent deletion.hres then .ok ()
  else .error ⟨networkFailed, [utf8 call ++ utf8 " failed: HRESULT " ++ hresult deletion.hres ++
    utf8 "; " ++ deletion.diagnostic]⟩

def deleteEndpoint (deletion : Deletion) : Except Report Unit :=
  deleteResult "HcnDeleteEndpoint" deletion

def deleteNetwork (deletion : Deletion) : Except Report Unit :=
  deleteResult "HcnDeleteNetwork" deletion

def closeFailure (call : String) (hres : HResult) : List Text :=
  if hres = 0 then [] else [utf8 call ++ utf8 " failed: HRESULT " ++ hresult hres]

/-- `to_string` of a report shows its context only. -/
def deleteFailure : Except Report Unit → List Text
  | .ok _ => []
  | .error report => [utf8 report.context]

def joinFailures (failures : List Text) : Except Report Unit :=
  if failures = [] then .ok () else .error ⟨networkFailed, [(utf8 "; ").intercalate failures]⟩

/-- The calls that take down the network of a running VM. -/
structure NetworkCalls where
  closeEndpoint : HResult
  deleteEndpoint : Deletion
  closeNetwork : HResult
  deleteNetwork : Deletion

def closeAndDeleteResult (calls : NetworkCalls) : Except Report Unit :=
  joinFailures (closeFailure "HcnCloseEndpoint" calls.closeEndpoint ++
    deleteFailure (deleteEndpoint calls.deleteEndpoint) ++
    closeFailure "HcnCloseNetwork" calls.closeNetwork ++
    deleteFailure (deleteNetwork calls.deleteNetwork))

/-- What the journal leads to: a GUID, recorded or found by name, and its deletion; nothing
of that name; or a search that fails. -/
inductive Lookup
  | found (deletion : Deletion)
  | missing
  | failed (report : Report)

def deleteFound (delete : Deletion → Except Report Unit) : Lookup → Except Report (List Text)
  | .found deletion => .ok (deleteFailure (delete deletion))
  | .missing => .ok []
  | .failed report => .error report

def deleteExact (endpoint network : Lookup) : Except Report Unit := do
  let first ← deleteFound deleteEndpoint endpoint
  let second ← deleteFound deleteNetwork network
  joinFailures (first ++ second)

end Network

/-! ## Compute removal -/

section Compute

def operationPending : HResult := 0x80370120

/-- One HCS operation: its handle, the answer to the call, whether it is completed, and the
result with its document. -/
structure Operation where
  created : Bool
  immediate : HResult
  completed : Bool
  result : HResult
  document : Except Text (Option Text)

def resultDocument (error : Text) : Text := utf8 "HCS result document: " ++ error

def hresultText (hres : HResult) : Text := utf8 "HRESULT " ++ hresult hres

def hcsOperation (op : Operation) : Except Report (Option Text) :=
  if ¬ op.created then .error ⟨"HcsCreateOperation returned a null handle", []⟩
  else if op.immediate ≠ 0 ∧ op.immediate ≠ operationPending then
    .error ⟨"HCS operation failed synchronously", [hresultText op.immediate]⟩
  else if ¬ op.completed then
    .error ⟨"HCS operation callback was never invoked",
      [utf8 "future was cancelled before HCS reported completion"]⟩
  else
    match op.document with
    | .error error =>
      .error ⟨"HcsGetOperationResult returned a non-zero HRESULT",
        (if op.result ≠ 0 then [hresultText op.result] else []) ++ [resultDocument error]⟩
    | .ok document =>
      if op.result ≠ 0 then
        .error ⟨"HcsGetOperationResult returned a non-zero HRESULT",
          [document.getD [], hresultText op.result]⟩
      else .ok document

def hcsOperationSync (op : Operation) : Except Report (Option Text) :=
  if ¬ op.created then .error ⟨"HcsCreateOperation returned a null handle", []⟩
  else if op.immediate ≠ 0 ∧ op.immediate ≠ operationPending then
    .error ⟨"HCS operation failed synchronously", [hresultText op.immediate]⟩
  else
    match op.document with
    | .error error => .error ⟨"HcsWaitForOperationResult failed", [resultDocument error]⟩
    | .ok document =>
      if op.result ≠ 0 then
        if op.result = operationPending then
          .error ⟨"HcsWaitForOperationResult failed",
            [utf8 "HCS operation did not complete within 30000 ms"]⟩
        else
          .error ⟨"HcsWaitForOperationResult failed", [hresultText op.result ++
            utf8 " (detail: " ++ document.getD (utf8 "Unknown Error") ++ utf8 ")"]⟩
      else .ok document

/-- The end of `remove_compute_system` and of its synchronous variant. -/
def terminated (result : Except Report (Option Text)) : Except Report Unit :=
  match result with
  | .error report => .error report
  | .ok none =>
    .error ⟨"failed to terminate the HCS compute system",
      [utf8 "HcsTerminateComputeSystem returned null"]⟩
  | .ok (some _) => .ok ()

/-- `HcsOpenComputeSystem`: its HRESULT, and whether it gave a handle. -/
structure SystemOpening where
  hres : HResult
  handle : Bool

def fromId (opening : SystemOpening) : Except Report Unit :=
  if opening.hres ≠ 0 then
    .error ⟨"failed to open the HCS compute system", [hresultText opening.hres]⟩
  else if ¬ opening.handle then
    .error ⟨"failed to open the HCS compute system", [utf8 "HcsOpenComputeSystem returned null"]⟩
  else .ok ()

def removeComputeSystemById (opening : SystemOpening) (result : Except Report (Option Text)) :
    Except Report Unit :=
  match fromId opening with
  | .error report => if resourceIsAbsent report.text then .ok () else .error report
  | .ok _ => terminated result

end Compute

/-! ## Disk removal -/

section Disk

/-- How `remove_disk` fails; `host` is an error of a call, reported as it is. -/
inductive DiskFailure
  | refused
  | changed
  | delete (cause : Text)
  | host (cause : Text)

namespace DiskFailure

def text (path : Path) : DiskFailure → Text
  | refused => refusing path
  | changed => identityChanged path
  | delete cause => removeFailed path cause
  | host cause => cause

/-- A text that the report attaches has a code in it. -/
def Misleading (path : Path) : DiskFailure → Prop
  | refused | changed => resourceIsAbsent path.lossy = true
  | delete cause => resourceIsAbsent path.lossy = true ∨ resourceIsAbsent cause = true
  | host cause => resourceIsAbsent cause = true

theorem absent_text_iff (path : Path) (failure : DiskFailure) :
    resourceIsAbsent (failure.text path) = true ↔ failure.Misleading path := by
  have hreport : ∀ context attachment, resourceIsAbsent (utf8 context) = false →
      (resourceIsAbsent (report context attachment) = true ↔ resourceIsAbsent attachment = true) :=
    fun context attachment hcontext =>
      (Report.absent_iff ⟨context, [attachment]⟩ hcontext).trans (by simp)
  cases failure with
  | refused =>
    rw [text, refusing, cleanupFailed, hreport _ _ rfl, absent_before rfl rfl, absent_after rfl rfl]
    rfl
  | changed =>
    rw [text, identityChanged, hreport _ _ rfl, absent_after rfl rfl]
    rfl
  | delete cause =>
    rw [text, removeFailed, cleanupFailed, hreport _ _ rfl, append_assoc, absent_append_right rfl,
      absent_after rfl rfl, absent_after rfl rfl]
    rfl
  | host cause => rfl

end DiskFailure

variable {α : Type} {W : World System Op Op.Ans} {v : VmId} {disk : DiskResource} {path : Path}

/-- The program fails as the removal of the disk at `path` does. -/
abbrev Failing (W : World System Op Op.Ans) (path : Path) {α : Type} (p : M α) : Prop :=
  Triple W (fun _ _ => True) (fun _ _ _ => True) (fun _ => True) p (fun _ _ => True)
    fun e _ => ∃ failure : DiskFailure, e = failure.text path

theorem failing_pure (a : α) : Failing W path (pure a : M α) := Triple.pure fun _ _ => trivial

theorem failing_throw (failure : DiskFailure) : Failing W path (throw (failure.text path) : M α) :=
  Triple.throw fun _ _ => ⟨failure, rfl⟩

theorem failing_perform (op : Op) : Failing W path (perform op) := by
  intro s _ s₁ _ r s' hop
  refine ⟨trivial, ?_⟩
  cases r with
  | ok a => exact trivial
  | error e => exact ⟨.host e, rfl⟩

theorem failing_removeDisk : Failing W disk.path (removeDisk v disk) := by
  have hdelete : Failing W disk.path (deleteFile disk.path) := by
    refine Triple.bind (Triple.attempt (Q := fun _ _ => True) ?_) fun r => ?_
    · have hperform : Failing W disk.path (perform (.removeFile disk.path)) := failing_perform _
      exact hperform.mono (fun _ => id) (fun _ _ _ => trivial) fun _ _ _ => trivial
    · cases r with
      | ok _ => exact failing_pure _
      | error e => exact failing_throw (.delete e)
  have hrevoke : Failing W disk.path (revokeIfAdded v disk) := by
    unfold revokeIfAdded
    split
    · refine Triple.bind (failing_perform _) fun found => ?_
      split
      · exact failing_perform _
      · exact failing_pure _
    · exact failing_pure _
  have hidentified : Failing W disk.path (deleteIdentified disk.path disk.fileIdentity) := by
    cases disk.fileIdentity with
    | none => exact failing_throw .refused
    | some expected =>
      refine Triple.bind (failing_perform _) fun current => ?_
      split
      · exact failing_throw .changed
      · exact hdelete
  unfold removeDisk
  split
  · exact failing_pure _
  refine Triple.bind hrevoke fun _ => ?_
  unfold deleteOwned
  split
  · exact failing_pure _
  refine Triple.bind (failing_perform _) fun found => ?_
  split
  · exact hidentified
  · exact failing_pure _

theorem exists_diskFailure {s s' : System} {e : Text}
    (run : Exec W (removeDisk v disk) s (some (.error e)) s') :
    ∃ failure : DiskFailure, e = failure.text disk.path :=
  (failing_removeDisk s trivial).exec (fun _ => trivial) run

end Disk

/-! ## Classification -/

section Classification

/-- How one constituent of a removal ends: it succeeds, fails with or without an HRESULT, or
is not tried. -/
inductive Constituent
  | done
  | failed (hres : Option HResult)
  | skipped

def Constituent.ofHResult (hres : HResult) : Constituent :=
  if hres = 0 then .done else .failed (some hres)

/-- It succeeded, or failed with one of the two HRESULTs of absence. -/
def Constituent.Gone : Constituent → Prop
  | .done => True
  | .failed (some hres) => hnsAbsent hres = true
  | _ => False

def Lookup.constituent : Lookup → Constituent
  | .found deletion => .ofHResult deletion.hres
  | .missing => .done
  | .failed _ => .skipped

/-- The operation that terminates a compute system; the synchronous one waits itself. -/
def Operation.constituent (sync : Bool) (op : Operation) : Constituent :=
  if ¬ op.created then .failed none
  else if op.immediate ≠ 0 ∧ op.immediate ≠ operationPending then .failed (some op.immediate)
  else if ¬ sync ∧ ¬ op.completed then .failed none
  else if op.result ≠ 0 then .failed (some op.result)
  else
    match op.document with
    | .ok (some _) => .done
    | _ => .failed none

def SystemOpening.constituent (opening : SystemOpening) (sync : Bool) (op : Operation) : Constituent :=
  if opening.hres ≠ 0 then .failed (some opening.hres)
  else if ¬ opening.handle then .failed none
  else op.constituent sync

def runOperation (sync : Bool) (op : Operation) : Except Report (Option Text) :=
  if sync then hcsOperationSync op else hcsOperation op

/-- The removals whose results are classified. -/
inductive Removal
  /-- the network of a running VM -/
  | network (calls : NetworkCalls)
  /-- a network the journal knows -/
  | recorded (endpoint network : Lookup)
  /-- the compute system of a running VM -/
  | compute (sync : Bool) (op : Operation)
  /-- a compute system the journal knows -/
  | recordedCompute (opening : SystemOpening) (sync : Bool) (op : Operation)
  /-- a disk, with the run of its removal -/
  | disk (v : VmId) (disk : DiskResource) (W : World System Op Op.Ans) (s s' : System)
      (r : Except DiskFailure Unit)
      (run : Exec W (removeDisk v disk) s (some (r.mapError (DiskFailure.text disk.path))) s')

def Removal.result : Removal → Except Text Unit
  | .network calls => (closeAndDeleteResult calls).mapError Report.text
  | .recorded endpoint net => (deleteExact endpoint net).mapError Report.text
  | .compute sync op => (terminated (runOperation sync op)).mapError Report.text
  | .recordedCompute opening sync op =>
    (removeComputeSystemById opening (runOperation sync op)).mapError Report.text
  | .disk _ target _ _ _ r _ => r.mapError (DiskFailure.text target.path)

def NetworkCalls.hresults (calls : NetworkCalls) : List HResult :=
  [calls.closeEndpoint, calls.deleteEndpoint.hres, calls.closeNetwork, calls.deleteNetwork.hres]

def Removal.constituents : Removal → List Constituent
  | .network calls => calls.hresults.map .ofHResult
  | .recorded (.failed _) _ => [.skipped, .skipped]
  | .recorded endpoint net => [endpoint.constituent, net.constituent]
  | .compute sync op => [op.constituent sync]
  | .recordedCompute opening sync op => [opening.constituent sync op]
  | .disk _ _ _ _ _ (.ok _) _ => [.done]
  | .disk _ _ _ _ _ (.error _) _ => [.failed none]

/-- The operation gets as far as its result. -/
def Operation.Reached (sync : Bool) (op : Operation) : Prop :=
  op.created = true ∧ (op.immediate = 0 ∨ op.immediate = operationPending) ∧
    (sync = true ∨ op.completed = true)

/-- The operation fails with a document, or an error for one, that has a code in it. -/
def Operation.Misleading (sync : Bool) (op : Operation) : Prop :=
  op.Reached sync ∧
    match op.document with
    | .error error => resourceIsAbsent error = true
    | .ok document => op.result ≠ 0 ∧ (sync = true → op.result ≠ operationPending) ∧
        ∃ text, document = some text ∧ resourceIsAbsent text = true

/-- A close that finds nothing, or a text that others attach, shows a code. -/
def Removal.Misleading : Removal → Prop
  | .network calls => hnsAbsent calls.closeEndpoint = true ∨ hnsAbsent calls.closeNetwork = true
  | .recorded (.failed report) _ | .recorded _ (.failed report) =>
    resourceIsAbsent report.text = true
  | .recorded _ _ => False
  | .compute sync op => op.Misleading sync
  | .recordedCompute opening sync op =>
    opening.hres = 0 ∧ opening.handle = true ∧ op.Misleading sync
  | .disk _ target _ _ _ r _ => ∃ failure, r = .error failure ∧ failure.Misleading target.path

/-- A success, or an error that is taken for absence. -/
def Classified : Except Text Unit → Prop
  | .ok _ => True
  | .error cause => resourceIsAbsent cause = true

theorem markRemoved_ne_markFailed (v : VmId) (resource : Resource) (failure : CleanupFailure) :
    markFailed v resource failure ≠ markRemoved v resource := by
  intro h
  -- after a successful update only one of them reports a failure
  let answer : (op : Op) → Unit → op.Ans × Unit := fun op s =>
    match op with
    | .updateVm _ _ => (.ok (), s)
    | _ => (.error [], s)
  have hruns : (Except.ok [failure] : Except Text (List CleanupFailure)) = .ok [] :=
    congrArg (fun p => (Prog.interp answer p ()).1) h
  cases hruns

theorem applied_iff {v : VmId} {resource : Resource} {identity : Text}
    {result : Except Text Unit} :
    applyResourceOutcome v resource identity result = markRemoved v resource ↔
      Classified result := by
  cases result with
  | ok a => exact iff_of_true rfl trivial
  | error cause =>
    rw [applyResourceOutcome, Classified]
    split
    · next habsent => exact iff_of_true rfl habsent
    · next habsent => exact iff_of_false (markRemoved_ne_markFailed _ _ _) habsent

variable {op : Operation} {call : String} {hres : HResult} {deletion : Deletion} {sync : Bool}

open Constituent

theorem gone_ofHResult (h : hres = 0 ∨ hnsAbsent hres = true) : (ofHResult hres).Gone := by
  unfold ofHResult
  split
  · trivial
  · next hne => exact h.resolve_left hne

/-! ### Networks -/

theorem gone_of_closeFailure (h : closeFailure call hres = []) : (ofHResult hres).Gone := by
  unfold closeFailure at h
  split at h
  · next hzero => exact gone_ofHResult (.inl hzero)
  · cases h

theorem absent_closeFailure
    (hends : (utf8 call ++ utf8 " failed: HRESULT ").getLast?.any (· ∈ separators) = true)
    (hcall : resourceIsAbsent (utf8 call ++ utf8 " failed: HRESULT ") = false) :
    (∃ text ∈ closeFailure call hres, resourceIsAbsent text = true) ↔ hnsAbsent hres = true := by
  unfold closeFailure
  split
  · next hzero => simp [hzero, show hnsAbsent 0 = false from rfl]
  · simp only [mem_singleton, exists_eq_left]
    rw [absent_after hends hcall, absent_hresult]

theorem gone_of_deleteFailure (h : deleteFailure (deleteResult call deletion) = []) :
    (ofHResult deletion.hres).Gone := by
  unfold deleteResult at h
  split at h
  · next hgone => exact gone_ofHResult hgone
  · cases h

theorem absent_deleteFailure (call : String) (deletion : Deletion) :
    ¬ ∃ text ∈ deleteFailure (deleteResult call deletion), resourceIsAbsent text = true := by
  unfold deleteResult
  split
  · simp [deleteFailure]
  · rintro ⟨text, hmem, habsent⟩
    rw [mem_singleton.1 hmem] at habsent
    cases habsent

theorem classified_joinFailures (failures : List Text) :
    Classified ((joinFailures failures).mapError Report.text) ↔
      failures = [] ∨ ∃ text ∈ failures, resourceIsAbsent text = true := by
  unfold joinFailures
  split
  · next hnil => exact iff_of_true trivial (.inl hnil)
  · next hnil =>
    rw [or_iff_right hnil, ← absent_intercalate]
    exact (Report.absent_iff _ rfl).trans (by simp)

theorem network_iff {calls : NetworkCalls} (h : ¬ ∀ hres ∈ calls.hresults, (ofHResult hres).Gone) :
    Classified ((closeAndDeleteResult calls).mapError Report.text) ↔
      (Removal.network calls).Misleading := by
  unfold closeAndDeleteResult deleteEndpoint deleteNetwork
  rw [classified_joinFailures, or_iff_right]
  · simp only [mem_append, or_and_right, exists_or]
    rw [absent_closeFailure rfl rfl, absent_closeFailure rfl rfl,
      or_iff_left (absent_deleteFailure _ _), or_iff_left (absent_deleteFailure _ _)]
    rfl
  · simp only [append_eq_nil_iff]
    rintro ⟨⟨⟨hcloseEndpoint, hdeleteEndpoint⟩, hcloseNetwork⟩, hdeleteNetwork⟩
    refine h fun hres hmem => ?_
    simp only [NetworkCalls.hresults, mem_cons, not_mem_nil, or_false] at hmem
    rcases hmem with rfl | rfl | rfl | rfl
    · exact gone_of_closeFailure hcloseEndpoint
    · exact gone_of_deleteFailure hdeleteEndpoint
    · exact gone_of_closeFailure hcloseNetwork
    · exact gone_of_deleteFailure hdeleteNetwork

/-- A search that does not fail: its failures are plain, and none means that the resource is
gone. -/
theorem deleteFound_of_searched (call : String) {lookup : Lookup}
    (h : ∀ report, lookup ≠ .failed report) :
    ∃ texts, deleteFound (deleteResult call) lookup = .ok texts ∧
      (texts = [] → lookup.constituent.Gone) ∧ ¬ ∃ text ∈ texts, resourceIsAbsent text = true := by
  cases lookup with
  | found deletion => exact ⟨_, rfl, gone_of_deleteFailure, absent_deleteFailure _ _⟩
  | missing => exact ⟨[], rfl, fun _ => trivial, by simp⟩
  | failed report => exact absurd rfl (h report)

theorem recorded_iff {endpoint net : Lookup}
    (h : ¬ ∀ c ∈ (Removal.recorded endpoint net).constituents, c.Gone) :
    Classified ((deleteExact endpoint net).mapError Report.text) ↔
      (Removal.recorded endpoint net).Misleading := by
  unfold deleteExact deleteEndpoint deleteNetwork
  by_cases hfirst : ∃ report, endpoint = .failed report
  · obtain ⟨report, rfl⟩ := hfirst
    rfl
  obtain ⟨first, hdelete, hgone, hplain⟩ :=
    deleteFound_of_searched "HcnDeleteEndpoint" (not_exists.1 hfirst)
  rw [hdelete]
  by_cases hsecond : ∃ report, net = .failed report
  · obtain ⟨report, rfl⟩ := hsecond
    cases endpoint with
    | failed report => exact absurd ⟨report, rfl⟩ hfirst
    | found | missing => rfl
  obtain ⟨second, hdelete', hgone', hplain'⟩ :=
    deleteFound_of_searched "HcnDeleteNetwork" (not_exists.1 hsecond)
  rw [hdelete']
  refine iff_of_false (fun hjoined => ?_) ?_
  · have hcases := (classified_joinFailures (first ++ second)).1 hjoined
    simp only [append_eq_nil_iff, mem_append, or_and_right, exists_or, hplain, hplain', or_self,
      or_false] at hcases
    cases endpoint with
    | failed report => exact hfirst ⟨report, rfl⟩
    | found | missing =>
      refine h fun c hc => ?_
      rcases mem_pair.1 hc with rfl | rfl
      · exact hgone hcases.1
      · exact hgone' hcases.2
  · cases endpoint <;> cases net <;> simp_all [Removal.Misleading]

/-! ### Compute systems -/

theorem absent_hresultText (hres : HResult) :
    resourceIsAbsent (hresultText hres) = true ↔ hnsAbsent hres = true := by
  rw [hresultText, absent_after rfl rfl, absent_hresult]

theorem absent_resultDocument (error : Text) :
    resourceIsAbsent (resultDocument error) = true ↔ resourceIsAbsent error = true :=
  absent_after rfl rfl

theorem classified_error (report : Report)
    (hcontext : resourceIsAbsent (utf8 report.context) = false) :
    Classified ((terminated (.error report)).mapError Report.text) ↔
      ∃ attachment ∈ report.attachments, resourceIsAbsent attachment = true :=
  report.absent_iff hcontext

theorem not_classified_of_unreached (hreached : ¬ op.Reached sync)
    (h : ¬ (op.constituent sync).Gone) :
    ¬ Classified ((terminated (runOperation sync op)).mapError Report.text) := by
  unfold Operation.constituent at h
  unfold runOperation hcsOperation hcsOperationSync
  by_cases hcreated : op.created = true
  swap
  · simp only [hcreated, Bool.false_eq_true, not_false_eq_true, if_true, ite_self]
    rw [classified_error _ rfl]
    simp
  simp only [hcreated, not_true_eq_false, if_false] at h ⊢
  by_cases himmediate : op.immediate ≠ 0 ∧ op.immediate ≠ operationPending
  · simp only [himmediate, if_true, ite_self, ne_eq, not_false_eq_true, and_self] at h ⊢
    rw [classified_error _ rfl]
    simp only [mem_singleton, exists_eq_left, absent_hresultText]
    exact h
  have hrunning : ¬ sync = true ∧ ¬ op.completed = true :=
    not_or.1 fun hdone => hreached ⟨hcreated, by tauto, hdone⟩
  simp only [himmediate, if_false, hrunning, not_false_eq_true, if_true, Bool.false_eq_true]
  rw [classified_error _ rfl]
  simp [show resourceIsAbsent (utf8 "future was cancelled before HCS reported completion") = false
    from rfl]

section
variable (hreached : op.Reached sync)
  (hresult : op.result ≠ 0 → hnsAbsent op.result = false)
include hreached hresult

/-- Where the operation has failed otherwise, only the error for its document can show a code. -/
theorem classified_of_error {error : Text} (hdocument : op.document = .error error) :
    Classified ((terminated (runOperation sync op)).mapError Report.text) ↔
      resourceIsAbsent error = true := by
  obtain ⟨hcreated, himmediate, hcompleted⟩ := hreached
  have hpending : ¬ (op.immediate ≠ 0 ∧ op.immediate ≠ operationPending) := by tauto
  unfold runOperation hcsOperation hcsOperationSync
  simp only [hcreated, hpending, hdocument, not_true_eq_false, if_false]
  cases sync with
  | true =>
    simp only [if_true]
    rw [classified_error _ rfl]
    simp [absent_resultDocument]
  | false =>
    have hfinished : op.completed = true := hcompleted.resolve_left nofun
    simp only [Bool.false_eq_true, if_false, hfinished, not_true_eq_false]
    rw [classified_error _ rfl]
    by_cases hzero : op.result = 0
    · simp [hzero, absent_resultDocument]
    · simp [hzero, absent_resultDocument, absent_hresultText, hresult hzero]

theorem classified_of_document {document : Option Text} (hdocument : op.document = .ok document) :
    Classified ((terminated (runOperation sync op)).mapError Report.text) ↔
      op.result = 0 ∧ document ≠ none ∨ op.result ≠ 0 ∧ (sync = true → op.result ≠ operationPending) ∧
        ∃ text, document = some text ∧ resourceIsAbsent text = true := by
  obtain ⟨hcreated, himmediate, hcompleted⟩ := hreached
  have hpending : ¬ (op.immediate ≠ 0 ∧ op.immediate ≠ operationPending) := by tauto
  have hfinished : sync = false → op.completed = true := fun hasync =>
    hcompleted.resolve_left (by simp [hasync])
  unfold runOperation hcsOperation hcsOperationSync
  simp only [hcreated, hpending, hdocument, not_true_eq_false, if_false]
  by_cases hzero : op.result = 0
  · have hok : Classified ((terminated (.ok document)).mapError Report.text) ↔ document ≠ none := by
      cases document with
      | none => exact iff_of_false Bool.false_ne_true (by simp)
      | some text => exact iff_of_true trivial (by simp)
    cases sync <;> simpa [hzero, hfinished] using hok
  cases sync with
  | true =>
    simp only [if_true, if_pos hzero]
    split
    · next htimeout =>
      rw [classified_error _ rfl]
      simp [htimeout, show operationPending ≠ 0 by decide, show resourceIsAbsent
        (utf8 "HCS operation did not complete within 30000 ms") = false from rfl]
    · next hfailed =>
      rw [classified_error _ rfl]
      simp only [mem_singleton, exists_eq_left]
      rw [absent_before rfl rfl, append_assoc, absent_append_right rfl, absent_after rfl rfl,
        absent_hresultText, hresult hzero]
      cases document <;> simp [hzero, hfailed, show resourceIsAbsent (utf8 "Unknown Error") = false
        from rfl]
  | false =>
    simp only [Bool.false_eq_true, if_false, hfinished rfl, not_true_eq_false, if_pos hzero]
    rw [classified_error _ rfl]
    cases document <;> simp [hzero, absent_hresultText, hresult hzero,
      show resourceIsAbsent [] = false from rfl]

end

theorem operation_iff (h : ¬ (op.constituent sync).Gone) :
    Classified ((terminated (runOperation sync op)).mapError Report.text) ↔ op.Misleading sync := by
  by_cases hreached : op.Reached sync
  swap
  · exact iff_of_false (not_classified_of_unreached hreached h) fun hmisleading =>
      hreached hmisleading.1
  have ⟨hcreated, himmediate, hcompleted⟩ := hreached
  unfold Operation.constituent at h
  rw [if_neg (not_not.2 hcreated), if_neg (by tauto), if_neg (by tauto)] at h
  have hresult : op.result ≠ 0 → hnsAbsent op.result = false := fun hne => by
    rw [if_pos hne] at h
    exact Bool.eq_false_iff.2 h
  unfold Operation.Misleading
  rw [and_iff_right hreached]
  cases hdocument : op.document with
  | error error => exact classified_of_error hreached hresult hdocument
  | ok document =>
    refine (classified_of_document hreached hresult hdocument).trans (or_iff_right ?_)
    rintro ⟨hzero, hsome⟩
    obtain ⟨text, rfl⟩ := Option.ne_none_iff_exists'.1 hsome
    rw [if_neg (not_not.2 hzero), hdocument] at h
    exact h trivial

theorem recordedCompute_iff {opening : SystemOpening} (h : ¬ (opening.constituent sync op).Gone) :
    Classified ((removeComputeSystemById opening (runOperation sync op)).mapError Report.text) ↔
      (Removal.recordedCompute opening sync op).Misleading := by
  unfold SystemOpening.constituent at h
  unfold removeComputeSystemById fromId Removal.Misleading
  by_cases hres : opening.hres = 0
  · rw [if_neg (not_not.2 hres)] at h ⊢
    cases hhandle : opening.handle with
    | false =>
      have hplain : ¬ Classified (.error (Report.text ⟨"failed to open the HCS compute system",
        [utf8 "HcsOpenComputeSystem returned null"]⟩)) := Bool.false_ne_true
      exact iff_of_false hplain fun hmisleading =>
        Bool.false_ne_true (hhandle.symm.trans hmisleading.2.1)
    | true =>
      rw [hhandle] at h
      exact (operation_iff h).trans (by simp [hres, hhandle])
  · rw [if_pos hres] at h ⊢
    have hplain : resourceIsAbsent (Report.text ⟨"failed to open the HCS compute system",
        [hresultText opening.hres]⟩) = false := by
      rw [Bool.eq_false_iff, ne_eq, Report.absent_iff _ rfl]
      simp only [mem_singleton, exists_eq_left, absent_hresultText]
      exact h
    simp only [hplain]
    exact iff_of_false (Bool.eq_false_iff.1 hplain) fun hmisleading => hres hmisleading.1

end Classification

/-- **Removed only if gone.**  A result moves a resource to `Removed` only if each constituent of
the removal succeeded or failed with one of the two HRESULTs, exactly if that is so of each or no
close that finds nothing, and no text that others attach, shows a code.  The failures of a disk
are those of every run of `remove_disk`. -/
theorem removed_only_if_gone_iff (removal : Removal) (v : VmId) (resource : Resource)
    (identity : Text) :
    ((applyResourceOutcome v resource identity removal.result = markRemoved v resource →
        ∀ constituent ∈ removal.constituents, constituent.Gone) ↔
      (∀ constituent ∈ removal.constituents, constituent.Gone) ∨ ¬ removal.Misleading) ∧
    ∀ disk W (s s' : System) e, Exec W (removeDisk v disk) s (some (.error e)) s' →
      ∃ failure : DiskFailure, e = failure.text disk.path := by
  refine ⟨?_, fun disk W s s' e => exists_diskFailure⟩
  by_cases hgone : ∀ constituent ∈ removal.constituents, constituent.Gone
  · exact iff_of_true (fun _ => hgone) (.inl hgone)
  rw [applied_iff, or_iff_right hgone]
  refine imp_congr_left ?_ |>.trans (imp_iff_not hgone)
  cases removal with
  | network calls => exact network_iff fun hall => hgone (forall_mem_map.2 hall)
  | recorded endpoint net => exact recorded_iff hgone
  | compute sync op => exact operation_iff fun h => hgone fun c hc => mem_singleton.1 hc ▸ h
  | recordedCompute opening sync op =>
    exact recordedCompute_iff fun h => hgone fun c hc => mem_singleton.1 hc ▸ h
  | disk w disk W s s' r run =>
    cases r with
    | ok a => exact absurd (fun c hc => mem_singleton.1 hc ▸ trivial) hgone
    | error failure => exact (failure.absent_text_iff disk.path).trans (by simp [Removal.Misleading])

/-- `C:\0x80070002.vhdx` -/
def misleadingPath : Path := [0x43, 0x3a, 0x5c, 0x30, 0x78, 0x38, 0x30, 0x30, 0x37, 0x30, 0x30, 0x30,
  0x32, 0x2e, 0x76, 0x68, 0x64, 0x78]

/-- The endpoint is not found when its handle is closed and the deletions are denied: the
network is recorded as removed.  So is a disk that cannot be deleted, if its path has a code
in it. -/
theorem denied_deletion_removed : applyResourceOutcome 1 .network []
      (Removal.network ⟨0x80070490, ⟨0x80070005, []⟩, 0, ⟨0x80070005, []⟩⟩).result =
        markRemoved 1 .network ∧ (¬ ∀ constituent ∈ (Removal.network
      ⟨0x80070490, ⟨0x80070005, []⟩, 0, ⟨0x80070005, []⟩⟩).constituents, constituent.Gone) ∧
    applyResourceOutcome 1 (.disk 0) []
      (.error (removeFailed misleadingPath (utf8 "Access is denied. (os error 5)"))) =
        markRemoved 1 (.disk 0) := by
  refine ⟨rfl, fun h => ?_, rfl⟩
  exact Bool.false_ne_true (h (.failed (some 0x80070005)) (by simp [Removal.constituents,
    NetworkCalls.hresults, Constituent.ofHResult]))

end Jyth.Hcs
