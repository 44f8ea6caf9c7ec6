import Varco.Event.Consumer
import Varco.Foundations.Run
import Varco.Service.Audit

/-!
# Deliveries of audit events

`AuditConsumer.on_audit_event` over `SAAuditRepository`. The bus may deliver an event again, the
wrapper around the handler may attempt it again, and a call of `save` may raise before or after its
commit has taken effect. `AuditEntry.from_event` draws a new `entry_id` at each attempt, by which
`ON CONFLICT DO NOTHING` does not recognise an event: each attempt whose commit takes effect leaves
an entry (`records_run`), so that there is one entry per event iff there is one such attempt per
event (`recorded_once_iff`).
-/

namespace Varco

open List

/-! ## Events -/

/-- `action` of an `AuditEvent` -/
inductive AuditAction
  | create
  | update
  | delete
  deriving DecidableEq

def AuditAction.value : AuditAction → String
  | .create => "create"
  | .update => "update"
  | .delete => "delete"

structure AuditEvent where
  eventId : UUID
  entityType : String
  entityId : String
  action : AuditAction
  actorId : Option String := none
  diff : JsonObject := .empty
  correlationId : Option String := none
  tenantId : Option String := none
  genuine : (Json.obj diff.entries).Genuine := by trivial

namespace AuditEntry

/-- `from_event`, where `entryId` is what `uuid4` returns and `now` the time. -/
def fromEvent (event : AuditEvent) (entryId : UUID) (now : Wall)
    (year_nonneg : 0 ≤ now.date.yearMonthDay.year) : AuditEntry :=
  { entryId, entityType := event.entityType, entityId := event.entityId,
    action := event.action.value, actorId := event.actorId, diff := event.diff, occurredAt := now,
    correlationId := event.correlationId, tenantId := event.tenantId, genuine := event.genuine,
    year_nonneg }

/-- An entry of this event. -/
structure Records (entry : AuditEntry) (event : AuditEvent) : Prop where
  entityType : entry.entityType = event.entityType
  entityId : entry.entityId = event.entityId
  action : entry.action = event.action.value
  actorId : entry.actorId = event.actorId
  diff : entry.diff = event.diff
  correlationId : entry.correlationId = event.correlationId
  tenantId : entry.tenantId = event.tenantId

theorem records_fromEvent (event : AuditEvent) (entryId : UUID) (now : Wall)
    (hnow : 0 ≤ now.date.yearMonthDay.year) : (fromEvent event entryId now hnow).Records event :=
  ⟨rfl, rfl, rfl, rfl, rfl, rfl, rfl⟩

end AuditEntry

/-! ## `save` -/

namespace SAAuditRepository

/-- `INSERT ... ON CONFLICT DO NOTHING` on `entry_id` -/
def insertOnConflictDoNothing (rows : List AuditEntryModel) (entry : AuditEntry) :
    List AuditEntryModel :=
  if ∃ row ∈ rows, row.entry.entryId = entry.entryId then rows else rows ++ [⟨entry, none⟩]

/-- What a call of `save` whose commit takes effect does to the table. The row that
`_save_chained` has read may be outdated, and a used `entry_id` fails its `INSERT`. -/
def Commits (hashChain : Bool) (sha256 : String → String) (rows : List AuditEntryModel)
    (entry : AuditEntry) (rows' : List AuditEntryModel) : Prop :=
  if hashChain then
    (∀ row ∈ rows, row.entry.entryId ≠ entry.entryId) ∧
      ∃ seen lastRow, seen <+: rows ∧ Selects seen lastRow ∧
        rows' = rows ++ [chained sha256 lastRow entry]
  else rows' = insertOnConflictDoNothing rows entry

end SAAuditRepository

/-! ## `on_audit_event` -/

/-- A call of `on_audit_event`: what `uuid4` and the clock return in it, and whether `save` raises.
-/
structure AuditSave where
  entryId : UUID
  now : Wall
  interrupt : Interrupt := .none
  exc : Exc := .cancelled
  year_nonneg : 0 ≤ now.date.yearMonthDay.year := by decide

/-- How `on_audit_event` ends. -/
def AuditSave.answer (save : AuditSave) : Except Exc Unit :=
  match save.interrupt with
  | .none => .ok ()
  | _ => .error save.exc

/-- A delivery of an event by the bus: without a wrapper it is attempted once. -/
structure AuditDelivery where
  event : AuditEvent
  wrapper : Option (RetryWrapper AuditEvent)
  script : DeliveryScript
  save : (attempt : ℕ) → AuditSave
  undeduplicated : ∀ w ∈ wrapper, w.hasDeduplicator = false
  answers : ∀ attempt, script.handler attempt = (save attempt).answer

/-- An attempt to handle an event. -/
structure AuditAttempt where
  event : AuditEvent
  save : AuditSave

namespace AuditDelivery

variable (W : Type)

/-- How often `on_audit_event` is called. -/
def invocations (delivery : AuditDelivery) : ℕ :=
  match delivery.wrapper with
  | some wrapper =>
    let outcome : Except Exc Unit × List (DeliveryCall AuditEvent W) :=
      wrapper.deliver delivery.script delivery.event
    outcome.2.countP fun call => match call with
      | .handler .. => true
      | _ => false
  | none => 1

def attempts (delivery : AuditDelivery) : List AuditAttempt :=
  (List.range' 1 (delivery.invocations W)).map fun attempt =>
    ⟨delivery.event, delivery.save attempt⟩

end AuditDelivery

namespace AuditAttempt

def Effective (attempt : AuditAttempt) : Prop := attempt.save.interrupt ≠ .before

instance (attempt : AuditAttempt) : Decidable attempt.Effective :=
  inferInstanceAs (Decidable (_ ≠ _))

def Succeeds (attempt : AuditAttempt) : Prop := attempt.save.interrupt = .none

theorem Succeeds.effective {attempt : AuditAttempt} (h : attempt.Succeeds) : attempt.Effective := by
  unfold Effective
  rw [h]
  decide

def entry (attempt : AuditAttempt) : AuditEntry :=
  .fromEvent attempt.event attempt.save.entryId attempt.save.now attempt.save.year_nonneg

end AuditAttempt

namespace AuditConsumer

open SAAuditRepository

variable {hashChain : Bool} {sha256 : String → String} {rows rows' : List AuditEntryModel}
  {attempt : AuditAttempt} {attempts : List AuditAttempt} {events : List AuditEvent}

def Step (hashChain : Bool) (sha256 : String → String) (rows : List AuditEntryModel)
    (attempt : AuditAttempt) (rows' : List AuditEntryModel) : Prop :=
  if attempt.Effective then Commits hashChain sha256 rows attempt.entry rows' else rows' = rows

def RecordedOnce (rows : List AuditEntryModel) (events : List AuditEvent) : Prop :=
  ∃ rows', rows'.Perm rows ∧ List.Forall₂ (fun row event => row.entry.Records event) rows' events

def effects (attempts : List AuditAttempt) (event : AuditEvent) : ℕ :=
  attempts.countP fun attempt => attempt.Effective ∧ attempt.event.eventId = event.eventId

/-- The row of an attempt. -/
structure RowOf (row : AuditEntryModel) (attempt : AuditAttempt) : Prop where
  entryId : row.entry.entryId = attempt.save.entryId
  records : row.entry.Records attempt.event

/-- A new `entry_id` is inserted. -/
theorem commits_new (h : Commits hashChain sha256 rows attempt.entry rows')
    (hnew : ∀ row ∈ rows, row.entry.entryId ≠ attempt.save.entryId) :
    ∃ row, rows' = rows ++ [row] ∧ RowOf row attempt := by
  have hrecords : attempt.entry.Records attempt.event := AuditEntry.records_fromEvent ..
  unfold Commits at h
  split_ifs at h with hchain
  · obtain ⟨-, seen, lastRow, -, -, rfl⟩ := h
    exact ⟨_, rfl, rfl, ⟨hrecords.1, hrecords.2, hrecords.3, hrecords.4, hrecords.5, hrecords.6,
      hrecords.7⟩⟩
  · rw [insertOnConflictDoNothing, if_neg fun ⟨row, hrow, heq⟩ => hnew row hrow heq] at h
    exact ⟨_, h, rfl, hrecords⟩

/-- The rows have the `entry_id`s of the attempts. -/
theorem map_entryId (h : List.Forall₂ RowOf rows attempts) :
    rows.map (·.entry.entryId) = attempts.map (·.save.entryId) := by
  rw [← forall₂_eq_eq_eq, forall₂_map_left_iff, forall₂_map_right_iff]
  exact h.imp fun _ _ hrow => hrow.entryId

/-- **Each attempt that takes effect leaves an entry.** -/
theorem records_run (h : Run (Step hashChain sha256) [] attempts rows)
    (hids : (attempts.map (·.save.entryId)).Nodup) :
    List.Forall₂ RowOf rows (attempts.filter (·.Effective)) := by
  induction attempts using List.reverseRecOn generalizing rows with
  | nil =>
    rw [h.nil_inv]
    exact .nil
  | append_singleton attempts attempt ih =>
    obtain ⟨rows₀, hrun, hstep⟩ := h.snoc_inv
    rw [map_append, nodup_append] at hids
    have hrows := ih hrun hids.1
    unfold Step at hstep
    rw [filter_append]
    split_ifs at hstep with heffective
    · have hnew : ∀ row ∈ rows₀, row.entry.entryId ≠ attempt.save.entryId := by
        intro row hrow heq
        have hmem := mem_map_of_mem (f := (·.entry.entryId)) hrow
        rw [map_entryId hrows, heq] at hmem
        obtain ⟨attempt', hmem', heq'⟩ := mem_map.mp hmem
        exact hids.2.2 _ (mem_map_of_mem (mem_of_mem_filter hmem')) _
          mem_cons_self heq'
      obtain ⟨row, rfl, hrow⟩ := commits_new hstep hnew
      rw [show [attempt].filter (·.Effective) = [attempt] from
        filter_cons_of_pos (decide_eq_true heffective)]
      exact rel_append hrows (.cons hrow .nil)
    · rw [hstep, filter_cons_of_neg (by simpa using heffective), filter_nil,
        append_nil]
      exact hrows

/-! ## One entry per event -/

def recorded (attempts : List AuditAttempt) : List AuditEvent :=
  (attempts.filter (·.Effective)).map (·.event)

theorem effects_eq_count (attempts : List AuditAttempt) (event : AuditEvent) :
    effects attempts event = ((recorded attempts).map (·.eventId)).count event.eventId := by
  rw [effects, recorded, map_map, List.count, countP_map, countP_filter]
  congr 1
  funext attempt
  simp [and_comm, Bool.beq_eq_decide_eq]

theorem mem_recorded (h : attempt ∈ attempts) (heffective : attempt.Effective) :
    attempt.event ∈ recorded attempts :=
  mem_map_of_mem (mem_filter.mpr ⟨h, decide_eq_true heffective⟩)

theorem mem_events_of_mem_recorded {event : AuditEvent}
    (hevents : ∀ attempt ∈ attempts, attempt.event ∈ events) (h : event ∈ recorded attempts) :
    event ∈ events := by
  obtain ⟨attempt, hmem, rfl⟩ := mem_map.mp h
  exact hevents attempt (mem_of_mem_filter hmem)

theorem effects_eq_one {event : AuditEvent} (hnodup : (events.map (·.eventId)).Nodup)
    (hhandled : ∀ event ∈ events, event ∈ recorded attempts)
    (hlength : (recorded attempts).length = events.length) (h : event ∈ events) :
    effects attempts event = 1 := by
  have hsubset : events.map (·.eventId) ⊆ (recorded attempts).map (·.eventId) :=
    map_subset _ hhandled
  have hperm := (hnodup.subperm hsubset).perm_of_length_le (by simp [hlength])
  rw [effects_eq_count]
  exact count_eq_one_of_mem (hperm.nodup_iff.mp hnodup)
    (mem_map_of_mem (hhandled event h))

/-- One attempt that takes effect per event records the events. -/
theorem recorded_perm (hnodup : (events.map (·.eventId)).Nodup)
    (hevents : ∀ event ∈ recorded attempts, event ∈ events)
    (h : ∀ event ∈ events, effects attempts event = 1) : (recorded attempts).Perm events := by
  have hids : ((recorded attempts).map (·.eventId)).Nodup := by
    rw [nodup_iff_count_le_one]
    intro id
    by_cases hid : id ∈ (recorded attempts).map (·.eventId)
    · obtain ⟨event, hevent, rfl⟩ := mem_map.mp hid
      rw [← effects_eq_count, h event (hevents event hevent)]
    · rw [count_eq_zero_of_not_mem hid]
      exact Nat.zero_le 1
  rw [perm_ext_iff_of_nodup hids.of_map hnodup.of_map]
  refine fun event => ⟨hevents event, fun hevent => ?_⟩
  have hcount := h event hevent
  rw [effects_eq_count] at hcount
  have hmem : event.eventId ∈ (recorded attempts).map (·.eventId) :=
    count_pos_iff.mp (by omega)
  obtain ⟨event', hevent', heq⟩ := mem_map.mp hmem
  rwa [← inj_on_of_nodup_map hnodup (hevents event' hevent') hevent heq]

/-- **There is one entry per event iff one attempt per event takes effect**, for deliveries whose
attempts come in any order. -/
theorem recorded_once_iff (W : Type) {deliveries : List AuditDelivery}
    (hattempts : attempts.Perm (deliveries.flatMap (·.attempts W)))
    (hrun : Run (Step hashChain sha256) [] attempts rows)
    (hids : (attempts.map (·.save.entryId)).Nodup)
    (hnodup : (events.map (·.eventId)).Nodup)
    (hevents : ∀ delivery ∈ deliveries, delivery.event ∈ events)
    (hhandled : ∀ event ∈ events, ∃ attempt ∈ attempts, attempt.event = event ∧ attempt.Succeeds) :
    RecordedOnce rows events ↔ ∀ event ∈ events, effects attempts event = 1 := by
  have hrows := records_run hrun hids
  have hrecords : List.Forall₂ (fun row event => row.entry.Records event) rows
      (recorded attempts) := by
    rw [recorded, forall₂_map_right_iff]
    exact hrows.imp fun _ _ hrow => hrow.records
  have hmem : ∀ event ∈ events, event ∈ recorded attempts := by
    intro event hevent
    obtain ⟨attempt, hmem, rfl, hsucceeds⟩ := hhandled event hevent
    exact mem_recorded hmem hsucceeds.effective
  have hattempt : ∀ attempt ∈ attempts, attempt.event ∈ events := by
    intro attempt hmem
    obtain ⟨delivery, hdelivery, hattempt⟩ := mem_flatMap.mp (hattempts.mem_iff.mp hmem)
    obtain ⟨k, -, rfl⟩ := mem_map.mp hattempt
    exact hevents delivery hdelivery
  constructor
  · rintro ⟨rows', hperm, hforall⟩ event hevent
    have hlength : (recorded attempts).length = events.length := by
      rw [← hrecords.length_eq, ← hforall.length_eq, hperm.length_eq]
    exact effects_eq_one hnodup hmem hlength hevent
  · intro h
    have hperm := recorded_perm hnodup (fun _ => mem_events_of_mem_recorded hattempt) h
    obtain ⟨rows', hforall, hrows'⟩ := perm_comp_forall₂ hperm.symm hrecords.flip
    exact ⟨rows', hrows', hforall.flip⟩

def orderUpdated (eventId : UUID) : AuditEvent :=
  { eventId, entityType := "Order", entityId := "7", action := .update }

def orderSave (entryId : UUID) (interrupt : Interrupt) : AuditSave :=
  { entryId, now := 63839664000000000, interrupt, year_nonneg := AuditEntry.year_nonneg_2024 }

def orderDelivery (eventId entryId : UUID) (interrupt : Interrupt := .none) : AuditDelivery where
  event := orderUpdated eventId
  wrapper := none
  script :=
    { isDuplicate := .ok false, handler := fun _ => (orderSave entryId interrupt).answer,
      markSeen := fun _ => .ok (), sleep := fun _ => .ok (), uniform := fun _ => 0,
      failedAt := fun _ => 0, entryId := 0, entryTime := 0, currentTenant := none, push := .ok () }
  save _ := orderSave entryId interrupt
  undeduplicated _ h := nomatch h
  answers _ := rfl

def orderAttempt (eventId entryId : UUID) (interrupt : Interrupt := .none) : AuditAttempt :=
  ⟨orderUpdated eventId, orderSave entryId interrupt⟩

def orderRow (eventId entryId : UUID) : AuditEntryModel :=
  ⟨(orderAttempt eventId entryId).entry, none⟩

theorem step_orderAttempt (sha256 : String → String) {eventId entryId : UUID}
    (hnew : entryId ∉ rows.map (·.entry.entryId)) :
    Step false sha256 rows (orderAttempt eventId entryId) (rows ++ [orderRow eventId entryId]) := by
  have heffective : (orderAttempt eventId entryId).Effective := AuditAttempt.Succeeds.effective rfl
  rw [Step, if_pos heffective, Commits, if_neg Bool.false_ne_true, insertOnConflictDoNothing,
    if_neg fun ⟨row, hrow, heq⟩ => hnew (mem_map.mpr ⟨row, hrow, heq⟩)]
  rfl

/-- Two events, of which one is delivered again after its `save` has raised, are recorded once. -/
theorem recorded_once_order :
    RecordedOnce [orderRow 1 2, orderRow 2 3] [orderUpdated 1, orderUpdated 2] := by
  have hfails : Step false id [] (orderAttempt 1 1 .before) [] := by
    rw [Step, if_neg (by decide)]
  have hfirst : Step false id [] (orderAttempt 1 2) [orderRow 1 2] :=
    step_orderAttempt id not_mem_nil
  have hsecond : Step false id [orderRow 1 2] (orderAttempt 2 3) [orderRow 1 2, orderRow 2 3] :=
    step_orderAttempt id (by decide)
  have hattempts : [orderAttempt 1 1 .before, orderAttempt 1 2, orderAttempt 2 3].Perm
      ([orderDelivery 1 1 .before, orderDelivery 1 2, orderDelivery 2 3].flatMap
        (·.attempts Unit)) := .refl _
  refine (recorded_once_iff Unit hattempts (.cons hfails (.cons hfirst (.single hsecond)))
    (by decide) (by decide) ?_ ?_).mpr ?_
  · intro delivery h
    fin_cases h <;> simp [orderDelivery]
  · intro event h
    fin_cases h
    · exact ⟨orderAttempt 1 2, mem_cons_of_mem _ mem_cons_self, rfl, rfl⟩
    · exact ⟨orderAttempt 2 3, mem_of_getLast? rfl, rfl, rfl⟩
  · intro event h
    fin_cases h <;> decide

/-- **An event that is delivered twice has two entries.** -/
theorem redelivery_recorded_twice :
    ¬ ∀ (deliveries : List AuditDelivery) (attempts : List AuditAttempt)
      (rows : List AuditEntryModel) (events : List AuditEvent),
      attempts.Perm (deliveries.flatMap (·.attempts Unit)) →
      Run (Step false id) [] attempts rows → (attempts.map (·.save.entryId)).Nodup →
      (events.map (·.eventId)).Nodup → (∀ delivery ∈ deliveries, delivery.event ∈ events) →
      (∀ event ∈ events, ∃ attempt ∈ attempts, attempt.event = event ∧ attempt.Succeeds) →
      RecordedOnce rows events := by
  intro h
  have hfirst : Step false id [] (orderAttempt 1 1) [orderRow 1 1] :=
    step_orderAttempt id not_mem_nil
  have hsecond : Step false id [orderRow 1 1] (orderAttempt 1 2) [orderRow 1 1, orderRow 1 2] :=
    step_orderAttempt id (by decide)
  obtain ⟨rows', hperm, hforall⟩ := h [orderDelivery 1 1, orderDelivery 1 2] _ _ [orderUpdated 1]
    (.refl _) (.cons hfirst (.single hsecond)) (by decide) (by decide)
    (fun delivery hdelivery => by
      rcases mem_pair.mp hdelivery with rfl | rfl <;> exact mem_cons_self)
    (fun event hevent => by
      rw [mem_singleton.mp hevent]
      exact ⟨_, mem_cons_self, rfl, rfl⟩)
  have hlength := hperm.length_eq.symm.trans hforall.length_eq
  cases hlength

end AuditConsumer

end Varco
