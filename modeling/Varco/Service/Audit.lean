import Mathlib.Data.List.Sort
import Varco.Event.JsonText
import Varco.Foundations.Rendering

/-!
# The audit log

`AuditEntry` with its `entry_hash()`, `AuditRepository.verify_chain` and the row that
`_save_chained` makes of an entry and of the row before it. SHA-256 is a parameter: the digest of a
text. `AuditEntry.Same` is equality of entries as Python has it, where the order of the keys of
`diff` plays no part, and the hash determines the entry up to its `seq` (`entryHash_inj`).
-/

namespace Varco

/-- `AuditEntry`: `occurred_at` is in UTC, and `diff` a JSON object. -/
structure AuditEntry where
  entryId : UUID
  entityType : String := ""
  entityId : String := ""
  action : String := ""
  actorId : Option String := none
  diff : JsonObject := .empty
  occurredAt : Wall
  correlationId : Option String := none
  tenantId : Option String := none
  prevHash : Option String := none
  seq : Option ℤ := none
  genuine : (Json.obj diff.entries).Genuine := by trivial
  year_nonneg : 0 ≤ occurredAt.date.yearMonthDay.year := by decide

namespace AuditEntry

/-- A string, or `None`. -/
def optional : Option String → Json
  | some s => .str s
  | none => .null

/-- What `entry_hash` hashes. -/
def payload (e : AuditEntry) : Json :=
  .obj [("entry_id", .str e.entryId.str),
    ("occurred_at", .str (EventTime.aware e.occurredAt 0).isoformat),
    ("action", .str e.action),
    ("entity_type", .str e.entityType),
    ("entity_id", .str e.entityId),
    ("actor_id", optional e.actorId),
    ("tenant_id", optional e.tenantId),
    ("correlation_id", optional e.correlationId),
    ("diff", .obj e.diff.entries),
    ("prev_hash", optional e.prevHash)]

/-- `entry_hash`, where `sha256` is the digest of a text. -/
def entryHash (sha256 : String → String) (e : AuditEntry) : String := sha256 e.payload.dumps

/-- Equal in every field that the hash covers. -/
structure SameContent (e e' : AuditEntry) : Prop where
  entryId : e.entryId = e'.entryId
  occurredAt : e.occurredAt = e'.occurredAt
  action : e.action = e'.action
  entityType : e.entityType = e'.entityType
  entityId : e.entityId = e'.entityId
  actorId : e.actorId = e'.actorId
  tenantId : e.tenantId = e'.tenantId
  correlationId : e.correlationId = e'.correlationId
  diff : (Json.obj e.diff.entries).sortKeys = (Json.obj e'.diff.entries).sortKeys
  prevHash : e.prevHash = e'.prevHash

/-- `e == e'` -/
structure Same (e e' : AuditEntry) : Prop extends SameContent e e' where
  seq : e.seq = e'.seq

theorem genuine_optional (s : Option String) : (optional s).Genuine := by
  cases s <;> trivial

theorem genuine_payload (e : AuditEntry) : e.payload.Genuine :=
  ⟨trivial, trivial, trivial, trivial, trivial, genuine_optional _, genuine_optional _,
    genuine_optional _, e.genuine, genuine_optional _, trivial⟩

theorem optional_inj {s t : Option String} (h : optional s = optional t) : s = t := by
  cases s <;> cases t <;> cases h <;> rfl

theorem sortKeys_optional (s : Option String) : (optional s).sortKeys = optional s := by
  cases s <;> rfl

def fields (e : AuditEntry) : List (String × Json) :=
  [("entry_id", .str e.entryId.str),
    ("occurred_at", .str (EventTime.aware e.occurredAt 0).isoformat),
    ("action", .str e.action),
    ("entity_type", .str e.entityType),
    ("entity_id", .str e.entityId),
    ("actor_id", optional e.actorId),
    ("tenant_id", optional e.tenantId),
    ("correlation_id", optional e.correlationId),
    ("diff", (Json.obj e.diff.entries).sortKeys),
    ("prev_hash", optional e.prevHash)]

theorem sortKeys_payload (e : AuditEntry) :
    e.payload.sortKeys = .obj (e.fields.mergeSort Json.keyLe) := by
  unfold payload fields Json.sortKeys
  simp only [Json.sortFields, sortKeys_optional]
  rfl

theorem fields_perm {e e' : AuditEntry} (h : e.payload.sortKeys = e'.payload.sortKeys) :
    e.fields.Perm e'.fields := by
  rw [sortKeys_payload, sortKeys_payload] at h
  have hperm := List.mergeSort_perm e.fields Json.keyLe
  rw [Json.obj.inj h] at hperm
  exact hperm.symm.trans (List.mergeSort_perm ..)

theorem value_eq {e e' : AuditEntry} (h : e.fields.Perm e'.fields) {key : String} {v v' : Json}
    (hv : (key, v) ∈ e.fields) (hv' : e'.fields.lookup key = some v') : v = v' := by
  have hnodup : (e'.fields.map Prod.fst).Nodup := by simp [fields]
  have hlookup : e'.fields.lookup key = some v :=
    Dict.mem_entries (d := ⟨e'.fields, hnodup⟩).mp (h.mem_iff.mp hv)
  exact Option.some.inj (hlookup.symm.trans hv')

theorem isoformat_aware_inj {w w' : Wall} (hw : 0 ≤ w.date.yearMonthDay.year)
    (hw' : 0 ≤ w'.date.yearMonthDay.year)
    (h : (EventTime.aware w 0).isoformat = (EventTime.aware w' 0).isoformat) : w = w' := by
  have htext := congrArg String.toList h
  unfold EventTime.isoformat at htext
  simp only [String.toList_append, List.append_assoc] at htext
  exact Wall.isoformat_inj hw hw' (String.toList_inj.mp (List.append_cancel_right htext))

/-- **The hash determines every field that it covers.** -/
theorem entryHash_inj {sha256 : String → String} (hsha : Function.Injective sha256)
    {e e' : AuditEntry} (h : e.entryHash sha256 = e'.entryHash sha256) : SameContent e e' := by
  have hperm := fields_perm (Json.dumps_inj e.genuine_payload e'.genuine_payload (hsha h))
  have hvalue : ∀ key v v', (key, v) ∈ e.fields → e'.fields.lookup key = some v' → v = v' :=
    fun key v v' => value_eq hperm
  exact
    { entryId := UUID.str_inj (Json.str.inj (hvalue "entry_id" _ _ (by simp [fields]) rfl))
      occurredAt := isoformat_aware_inj e.year_nonneg e'.year_nonneg
        (Json.str.inj (hvalue "occurred_at" _ _ (by simp [fields]) rfl))
      action := Json.str.inj (hvalue "action" _ _ (by simp [fields]) rfl)
      entityType := Json.str.inj (hvalue "entity_type" _ _ (by simp [fields]) rfl)
      entityId := Json.str.inj (hvalue "entity_id" _ _ (by simp [fields]) rfl)
      actorId := optional_inj (hvalue "actor_id" _ _ (by simp [fields]) rfl)
      tenantId := optional_inj (hvalue "tenant_id" _ _ (by simp [fields]) rfl)
      correlationId := optional_inj (hvalue "correlation_id" _ _ (by simp [fields]) rfl)
      diff := hvalue "diff" _ _ (by simp [fields]) rfl
      prevHash := optional_inj (hvalue "prev_hash" _ _ (by simp [fields]) rfl) }

theorem year_nonneg_2024 : 0 ≤ (Wall.date 63839664000000000).yearMonthDay.year := by decide

end AuditEntry

/-! ## `verify_chain` -/

/-- `ChainGap` and `HashMismatch`. -/
inductive ChainFinding
  | gap (expectedSeq : ℤ) (foundSeq : Option ℤ)
  | mismatch (seq : Option ℤ) (expectedPrevHash actualPrevHash : Option String)
  deriving DecidableEq

namespace AuditRepository

/-- The order of `sorted`: the entries without a `seq` come last. -/
def seqLe (e e' : AuditEntry) : Bool :=
  match e.seq, e'.seq with
  | some m, some n => decide (m ≤ n)
  | none, some _ => false
  | _, none => true

/-- Whether a `seq` is missing between an entry and the next. -/
def gapFindings (prev : Option AuditEntry) (entry : AuditEntry) : List ChainFinding :=
  match prev.bind (·.seq), entry.seq with
  | some m, some n => if n ≠ m + 1 then [.gap (m + 1) (some n)] else []
  | _, _ => []

def linkFindings (sha256 : String → String) (prev : Option AuditEntry) (entry : AuditEntry) :
    List ChainFinding :=
  let expected := prev.map (·.entryHash sha256)
  if entry.prevHash ≠ expected then [.mismatch entry.seq expected entry.prevHash] else []

/-- The loop of `verify_chain`. -/
def findings (sha256 : String → String) : Option AuditEntry → List AuditEntry → List ChainFinding
  | _, [] => []
  | prev, entry :: entries => gapFindings prev entry ++ linkFindings sha256 prev entry ++
      findings sha256 (some entry) entries

/-- `verify_chain`: `True` is the empty list of findings. -/
def verifyChain (sha256 : String → String) (entries : List AuditEntry) : List ChainFinding :=
  findings sha256 none (entries.mergeSort seqLe)

variable {sha256 : String → String} {prev : Option AuditEntry} {e e' : AuditEntry}
  {l l' : List AuditEntry}

/-- An entry that may follow `prev` in a chain. -/
structure Follows (sha256 : String → String) (prev : Option AuditEntry) (e : AuditEntry) :
    Prop where
  seq : ∀ m n, prev.bind (·.seq) = some m → e.seq = some n → n = m + 1
  link : e.prevHash = prev.map (·.entryHash sha256)

theorem gapFindings_eq_nil : gapFindings prev e = [] ↔
    ∀ m n, prev.bind (·.seq) = some m → e.seq = some n → n = m + 1 := by
  unfold gapFindings
  cases prev.bind (·.seq) with
  | none => exact iff_of_true rfl fun _ _ h => by cases h
  | some m =>
    cases e.seq with
    | none => exact iff_of_true rfl fun _ _ _ h => by cases h
    | some n =>
      dsimp only
      split_ifs with h
      · exact iff_of_false id fun hall => h (hall m n rfl rfl)
      · refine iff_of_true rfl fun m' n' hm hn => ?_
        cases hm
        cases hn
        exact not_not.mp h

theorem linkFindings_eq_nil : linkFindings sha256 prev e = [] ↔
    e.prevHash = prev.map (·.entryHash sha256) := by
  unfold linkFindings
  dsimp only
  split_ifs with h
  · exact iff_of_false id h
  · exact iff_of_true rfl (not_not.mp h)

theorem findings_cons : findings sha256 prev (e :: l) = [] ↔
    Follows sha256 prev e ∧ findings sha256 (some e) l = [] := by
  rw [findings, List.append_eq_nil_iff, List.append_eq_nil_iff, gapFindings_eq_nil,
    linkFindings_eq_nil]
  exact and_congr_left fun _ => ⟨fun h => ⟨h.1, h.2⟩, fun h => ⟨h.seq, h.link⟩⟩

theorem findings_append : findings sha256 prev (l ++ l') = [] ↔
    findings sha256 prev l = [] ∧ findings sha256 (l.getLast?.or prev) l' = [] := by
  induction l generalizing prev with
  | nil => exact (and_iff_right rfl).symm
  | cons e l ih =>
    rw [List.cons_append, findings_cons, findings_cons, ih, and_assoc]
    have hlast : (e :: l).getLast?.or prev = l.getLast?.or (some e) := by
      cases l with
      | nil => rfl
      | cons e' l =>
        rw [List.getLast?_cons_cons, List.getLast?_cons, Option.some_or, Option.some_or]
    rw [hlast]

theorem seqLe_total (e e' : AuditEntry) : (seqLe e e' || seqLe e' e) = true := by
  unfold seqLe
  cases e.seq <;> cases e'.seq <;> simp [Int.le_total]

theorem seqLe_trans (a b c : AuditEntry) (h : seqLe a b = true) (h' : seqLe b c = true) :
    seqLe a c = true := by
  unfold seqLe at *
  cases ha : a.seq <;> cases hb : b.seq <;> cases hc : c.seq <;> simp_all
  omega

theorem sorted_mergeSort (l : List AuditEntry) :
    (l.mergeSort seqLe).Pairwise fun e e' => seqLe e e' = true :=
  List.pairwise_mergeSort seqLe_trans seqLe_total l

end AuditRepository

/-! ## Rows -/

/-- A row of `varco_audit_log`: its entry, with the hash that is stored with it. -/
structure AuditEntryModel where
  entry : AuditEntry
  entryHash : Option String := none

/-- `_model_to_entry` -/
def AuditEntryModel.toEntry (row : AuditEntryModel) : AuditEntry := row.entry

namespace SAAuditRepository

/-- `ORDER BY seq DESC` of PostgreSQL, where the rows without a `seq` come first: `row` may stand
before `row'`. -/
def Precedes (row row' : AuditEntryModel) : Prop :=
  ∀ n, row.entry.seq = some n → ∃ n', row'.entry.seq = some n' ∧ n' ≤ n

/-- `ORDER BY seq DESC LIMIT 1` -/
def Selects (rows : List AuditEntryModel) : Option AuditEntryModel → Prop
  | none => rows = []
  | some row => row ∈ rows ∧ ∀ row' ∈ rows, Precedes row row'

/-- The row that `_save_chained` makes of an entry, after the row that it has read. -/
def chained (sha256 : String → String) (lastRow : Option AuditEntryModel) (entry : AuditEntry) :
    AuditEntryModel :=
  let nextSeq : ℤ :=
    match lastRow.bind (·.entry.seq) with
    | some n => n + 1
    | none => 1
  let chainedEntry := { entry with seq := some nextSeq, prevHash := lastRow.bind (·.entryHash) }
  ⟨chainedEntry, some (chainedEntry.entryHash sha256)⟩

end SAAuditRepository

end Varco
