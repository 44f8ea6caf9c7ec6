import Mathlib.Data.List.Sort
import Varco.Event.DeadLetter
import Varco.Foundations.Async
import Varco.Foundations.Dict
import Varco.Foundations.Pool

/-!
# The outbox relay

`OutboxRelay` of `varco_core.service.outbox`, over an `OutboxRepository`. A service saves entries; a
tick of the relay fetches the entries that are pending, publishes each of them to the event bus and
deletes it, or records that it could not be published, or pushes it to the dead letter queue.

The repository is a table of entries by id, in which an id is used once. Every await may raise, and
a cancellation may arrive at it. The bus takes an event or raises; the dead letter queue may raise,
and it may also return without having kept the entry, since `push` swallows its own failures.
-/

namespace Varco

structure OutboxEntry where
  entryId : UUID
  eventType : String := ""
  channel : String := "default"
  payload : Bytes := []
  createdAt : Instant := 0
  attempts : ℤ := 0
  lastError : Option String := none
  nextAttemptAt : Option Instant := none
  deriving DecidableEq

/-- The entry as it was first saved, without what the relay records of its attempts. -/
def OutboxEntry.core (entry : OutboxEntry) : OutboxEntry :=
  { entry with attempts := 0, lastError := none, nextAttemptAt := none }

/-- A dead letter of the relay: it has no event, but the payload and the tenant of the relay. -/
structure RelayDeadLetter extends DeadLetterEntry where
  payload : Bytes
  tenantId : Option String := none
  deriving DecidableEq

/-! ## Commands -/

/-- What a service and the relay await, and the readings of the clock. -/
inductive OutboxCmd (Ev : Type)
  /-- `outbox.save(entry)`, by a service. -/
  | save (entry : OutboxEntry)
  /-- `outbox.get_pending(limit=limit)` -/
  | getPending (limit : ℕ)
  /-- `datetime.now(UTC)` -/
  | now
  /-- `bus.publish(event, channel=entry.channel)`, for this entry. -/
  | publish (entry : OutboxEntry) (event : Ev)
  /-- `dlq.push(dead_letter)` -/
  | push (deadLetter : RelayDeadLetter)
  /-- `outbox.delete(entry_id)` -/
  | delete (entryId : UUID)
  /-- `outbox.mark_failed(entry_id, attempts=..., next_attempt_at=..., error=...)` -/
  | markFailed (entryId : UUID) (attempts : ℤ) (nextAttemptAt : Instant) (error : String)
  /-- `timedelta(seconds=retry_policy.compute_delay(attempt))`: exponential, with a jitter. -/
  | computeDelay (attempt : ℤ)

abbrev OutboxCmd.Res {Ev : Type} : OutboxCmd Ev → Type
  | .save _ => Except Exc Unit
  | .getPending _ => Except Exc (List OutboxEntry)
  | .now => Instant
  | .publish .. => Except Exc Unit
  | .push _ => Except Exc Unit
  | .delete _ => Except Exc Unit
  | .markFailed .. => Except Exc Unit
  | .computeDelay _ => Except Exc Duration

abbrev Outbox (Ev α : Type) := ExceptT Exc (Prog (OutboxCmd Ev) OutboxCmd.Res) α

namespace Outbox

variable {Ev : Type}

def save (entry : OutboxEntry) : Outbox Ev Unit := Prog.await (OutboxCmd.save entry) id

def getPending (limit : ℕ) : Outbox Ev (List OutboxEntry) :=
  Prog.await (OutboxCmd.getPending limit) id

def now : Outbox Ev Instant := Prog.call OutboxCmd.now

def publish (entry : OutboxEntry) (event : Ev) : Outbox Ev Unit :=
  Prog.await (OutboxCmd.publish entry event) id

def push (deadLetter : RelayDeadLetter) : Outbox Ev Unit :=
  Prog.await (OutboxCmd.push deadLetter) id

def delete (entryId : UUID) : Outbox Ev Unit := Prog.await (OutboxCmd.delete entryId) id

def markFailed (entryId : UUID) (attempts : ℤ) (nextAttemptAt : Instant) (error : String) :
    Outbox Ev Unit :=
  Prog.await (OutboxCmd.markFailed entryId attempts nextAttemptAt error) id

def computeDelay (attempt : ℤ) : Outbox Ev Duration :=
  Prog.await (OutboxCmd.computeDelay attempt) id

end Outbox

/-! ## The relay -/

/-- `OutboxRelay`, with its serializer, whether it has a retry policy and a dead letter queue, and
the tenant in whose context it runs. The constructor refuses what the last fields exclude. -/
structure OutboxRelay (Ev : Type) where
  deserialize : Bytes → Except PyException Ev
  pollInterval : PyFloat := ⟨1, "1.0"⟩
  batchSize : ℕ := 100
  retryPolicy : Bool := false
  dlq : Bool := false
  maxAttempts : Option ℤ := none
  tenant : Option String := none
  pollInterval_pos : 0 < pollInterval.val := by decide +kernel
  batchSize_pos : 0 < batchSize := by decide
  dlq_of_maxAttempts : maxAttempts ≠ none → dlq = true := by simp

namespace OutboxRelay

variable {Ev : Type}

def pushToDlq (relay : OutboxRelay Ev) (entry : OutboxEntry) (exc : PyException) (attempts : ℤ) :
    Outbox Ev Unit :=
  if relay.dlq then
    Outbox.push
      { channel := entry.channel, handlerName := "OutboxRelay", errorType := exc.typeName,
        errorMessage := exc.message, attempts := attempts, source := .outboxRelay,
        sourceRef := some entry.entryId.str, payload := entry.payload, tenantId := relay.tenant }
  else pure ()

def handlePublishFailure (relay : OutboxRelay Ev) (entry : OutboxEntry) (exc : PyException) :
    Outbox Ev Unit := do
  if relay.retryPolicy then
    let newAttempts := entry.attempts + 1
    if relay.maxAttempts.any (· ≤ newAttempts) then
      relay.pushToDlq entry exc newAttempts
      Prog.suppress (Outbox.delete entry.entryId)
    else
      let now ← Outbox.now
      let delay ← Outbox.computeDelay (newAttempts - 1)
      Prog.suppress (Outbox.markFailed entry.entryId newAttempts (now + delay) exc.message)

def relayEntry (relay : OutboxRelay Ev) (entry : OutboxEntry) : Outbox Ev Unit := do
  match relay.deserialize entry.payload with
  | .error exc =>
    relay.pushToDlq entry exc (entry.attempts + 1)
    Prog.suppress (Outbox.delete entry.entryId)
  | .ok event =>
    match ← Prog.attempt (Outbox.publish entry event) with
    | .error .cancelled => throw .cancelled
    | .error (.error exc) => relay.handlePublishFailure entry exc
    | .ok () => Prog.suppress (Outbox.delete entry.entryId)

def relayEntries (relay : OutboxRelay Ev) : List OutboxEntry → Outbox Ev Unit
  | [] => pure ()
  | entry :: rest => do
    relay.relayEntry entry
    relay.relayEntries rest

/-- The entry may be tried again at `now`. -/
def due (now : Instant) (entry : OutboxEntry) : Bool := entry.nextAttemptAt.all (· ≤ now)

def relayOnce (relay : OutboxRelay Ev) : Outbox Ev Unit := do
  match ← Prog.attempt (Outbox.getPending relay.batchSize) with
  | .error .cancelled => throw .cancelled
  | .error (.error _) => return ()
  | .ok entries =>
    if entries = [] then return ()
    let now ← Outbox.now
    relay.relayEntries (entries.filter (due now))

end OutboxRelay

/-- What the environment decides at a command: the clock, what is raised and when, whether the bus
takes the event, whether the dead letter queue keeps its entry, whether the repository records
failed attempts, and the random delay. -/
structure OutboxChoice where
  clock : Instant := 0
  interrupt : Interrupt := .none
  raised : Exc := .cancelled
  bus : Except Exc Unit := .ok ()
  pushed : Bool := true
  tracksAttempts : Bool := true
  delay : Except Exc Duration := .ok 0

/-- The table of entries and the dead letter queue, and all entries that were ever saved. -/
structure OutboxWorld where
  outbox : Dict UUID OutboxEntry := .empty
  saved : List OutboxEntry := []
  dlq : List RelayDeadLetter := []

namespace OutboxWorld

def integrityError : PyException :=
  ⟨"IntegrityError", "UNIQUE constraint failed: varco_outbox.entry_id"⟩

/-- `save`: ids are not used twice. -/
def save (w : OutboxWorld) (entry : OutboxEntry) : Except Exc Unit × OutboxWorld :=
  if ∃ e ∈ w.saved, e.entryId = entry.entryId then (.error (.error integrityError), w)
  else (.ok (), { w with
    outbox := w.outbox.set entry.entryId entry, saved := w.saved ++ [entry] })

/-- `get_pending`: the oldest entries. -/
def getPending (w : OutboxWorld) (limit : ℕ) : List OutboxEntry :=
  (w.outbox.values.insertionSort fun e e' => e.createdAt ≤ e'.createdAt).take limit

def markFailed (w : OutboxWorld) (entryId : UUID) (attempts : ℤ) (nextAttemptAt : Instant)
    (error : String) : OutboxWorld :=
  match w.outbox.get? entryId with
  | none => w
  | some entry => { w with outbox := w.outbox.set entryId { entry with
      attempts := attempts, lastError := some error, nextAttemptAt := some nextAttemptAt } }

def exec {Ev : Type} (x : OutboxChoice) (c : OutboxCmd Ev) (w : OutboxWorld) :
    c.Res × OutboxWorld :=
  match c with
  | .save entry => x.interrupt.await x.raised w (w.save entry).1 (w.save entry).2
  | .getPending limit => x.interrupt.await x.raised w (.ok (w.getPending limit)) w
  | .now => (x.clock, w)
  | .publish _ _ => (x.bus, w)
  | .push deadLetter =>
    x.interrupt.await x.raised w (.ok ())
      (if x.pushed then { w with dlq := w.dlq ++ [deadLetter] } else w)
  | .delete entryId =>
    x.interrupt.await x.raised w (.ok ()) { w with outbox := w.outbox.erase entryId }
  | .markFailed entryId attempts nextAttemptAt error =>
    x.interrupt.await x.raised w (.ok ())
      (if x.tracksAttempts then w.markFailed entryId attempts nextAttemptAt error else w)
  | .computeDelay _ => (x.delay, w)

end OutboxWorld

/-- A service that saves an entry, or a tick of the relay. -/
inductive OutboxClient
  | service (entry : OutboxEntry)
  | tick

def OutboxRelay.client {Ev : Type} (relay : OutboxRelay Ev) : OutboxClient → Outbox Ev Unit
  | .service entry => Outbox.save entry
  | .tick => relay.relayOnce

/-- Any number of services and ticks over one outbox. A tick that is cut off takes no more steps,
and another one is the next. -/
def OutboxRelay.pool {Ev ι : Type} (relay : OutboxRelay Ev) (clients : ι → OutboxClient) :
    Pool ι OutboxWorld (OutboxCmd Ev) OutboxCmd.Res (Except Exc Unit) where
  shared := {}
  prog i := (relay.client (clients i)).run

abbrev OutboxEvent (Ev ι : Type) := Event ι OutboxChoice (OutboxCmd Ev) OutboxCmd.Res

abbrev OutboxStep {Ev ι : Type} [DecidableEq ι] :
    Pool ι OutboxWorld (OutboxCmd Ev) OutboxCmd.Res (Except Exc Unit) → OutboxEvent Ev ι →
      Pool ι OutboxWorld (OutboxCmd Ev) OutboxCmd.Res (Except Exc Unit) → Prop :=
  Pool.Step fun _ x c w => some (OutboxWorld.exec x c w)

end Varco
