import Mathlib.Data.List.Sort
import Varco.Foundations.Async
import Varco.Foundations.Dict
import Varco.Foundations.Pool

/-!
# The inbox

The wrapper of `_make_inbox_wrapper` and `InboxPoller`, of `varco_core.service.inbox`. The bus hands
an event to the wrapper, which saves a row, runs the handler and marks the row as processed. The
poller publishes the event of every unprocessed row to the bus once more and marks the row.

The bus keeps the messages that were published and not yet handed over. It may hand over any of
them, keep it for another time when it does so, and drop any of them. Every await may raise, and a
task that is cut off takes no more steps.
-/

namespace Varco

/-! ## Rows -/

structure InboxEntry where
  entryId : UUID
  eventType : String := ""
  channel : String := "default"
  payload : Bytes := []
  receivedAt : Instant := 0
  processedAt : Option Instant := none
  deriving DecidableEq

/-! ## Commands -/

/-- What the wrapper, the poller, a producer and the bus do one at a time. -/
inductive InboxCmd (Ev : Type)
  /-- The bus hands over a message of the channel, if it has one. -/
  | receive (channel : String)
  /-- The bus drops a message. -/
  | drop
  /-- `bus.publish(event, channel=channel)` -/
  | publish (event : Ev) (channel : String)
  /-- `uuid4()` -/
  | uuid4
  /-- `datetime.now(UTC)` -/
  | now
  /-- `inbox.save(entry)`, for this event. -/
  | save (entry : InboxEntry) (event : Ev)
  /-- `handler(event)` -/
  | handle (event : Ev)
  /-- `inbox.mark_processed(entry_id)` -/
  | markProcessed (entryId : UUID)
  /-- `inbox.get_unprocessed(limit=limit)` -/
  | getUnprocessed (limit : ℕ)

abbrev InboxCmd.Res {Ev : Type} : InboxCmd Ev → Type
  | .receive _ => Option Ev
  | .drop => Unit
  | .publish .. => Except Exc Unit
  | .uuid4 => UUID
  | .now => Instant
  | .save .. => Except Exc Unit
  | .handle _ => Except Exc Unit
  | .markProcessed _ => Except Exc Unit
  | .getUnprocessed _ => Except Exc (List InboxEntry)

abbrev Inbox (Ev α : Type) := ExceptT Exc (Prog (InboxCmd Ev) InboxCmd.Res) α

namespace Inbox

variable {Ev : Type}

def receive (channel : String) : Inbox Ev (Option Ev) := Prog.call (InboxCmd.receive channel)

def drop : Inbox Ev Unit := Prog.call InboxCmd.drop

def publish (event : Ev) (channel : String) : Inbox Ev Unit :=
  Prog.await (InboxCmd.publish event channel) id

def uuid4 : Inbox Ev UUID := Prog.call InboxCmd.uuid4

def now : Inbox Ev Instant := Prog.call InboxCmd.now

def save (entry : InboxEntry) (event : Ev) : Inbox Ev Unit :=
  Prog.await (InboxCmd.save entry event) id

def handle (event : Ev) : Inbox Ev Unit := Prog.await (InboxCmd.handle event) id

def markProcessed (entryId : UUID) : Inbox Ev Unit :=
  Prog.await (InboxCmd.markProcessed entryId) id

def getUnprocessed (limit : ℕ) : Inbox Ev (List InboxEntry) :=
  Prog.await (InboxCmd.getUnprocessed limit) id

end Inbox

/-! ## The wrapper and the poller -/

/-- A handler behind the inbox: its channel, the serializer, and the batch size of the poller. -/
structure InboxConsumer (Ev : Type) where
  channel : String := "default"
  eventTypeName : Ev → String
  serialize : Ev → Except PyException Bytes
  deserialize : Bytes → Except PyException Ev
  batchSize : ℕ := 100

namespace InboxConsumer

variable {Ev : Type}

/-- `InboxEntry.from_event` -/
def fromEvent (consumer : InboxConsumer Ev) (event : Ev) : Inbox Ev InboxEntry := do
  match consumer.serialize event with
  | .error exc => throw (.error exc)
  | .ok payload =>
    let entryId ← Inbox.uuid4
    let receivedAt ← Inbox.now
    return { entryId := entryId, eventType := consumer.eventTypeName event,
             channel := consumer.channel, payload := payload, receivedAt := receivedAt }

/-- The wrapper that `_make_inbox_wrapper` returns. -/
def wrapper (consumer : InboxConsumer Ev) (event : Ev) : Inbox Ev Unit := do
  let entry ← consumer.fromEvent event
  Inbox.save entry event
  Inbox.handle event
  Prog.suppress (Inbox.markProcessed entry.entryId)

def deliver (consumer : InboxConsumer Ev) : Inbox Ev Unit := do
  match ← Inbox.receive consumer.channel with
  | none => return ()
  | some event => consumer.wrapper event

/-- `InboxPoller._relay_entry` -/
def relayEntry (consumer : InboxConsumer Ev) (entry : InboxEntry) : Inbox Ev Unit := do
  match consumer.deserialize entry.payload with
  | .error _ => return ()
  | .ok event =>
    match ← Prog.attempt (Inbox.publish event entry.channel) with
    | .error .cancelled => throw .cancelled
    | .error (.error _) => return ()
    | .ok () => Prog.suppress (Inbox.markProcessed entry.entryId)

def relayEntries (consumer : InboxConsumer Ev) : List InboxEntry → Inbox Ev Unit
  | [] => pure ()
  | entry :: rest => do
    consumer.relayEntry entry
    consumer.relayEntries rest

/-- `InboxPoller._relay_once` -/
def relayOnce (consumer : InboxConsumer Ev) : Inbox Ev Unit := do
  let entries ← Inbox.getUnprocessed consumer.batchSize
  consumer.relayEntries entries

end InboxConsumer

/-- What the environment decides at a command: the clock, what is raised and when, which message the
bus picks and whether it keeps it, whether a publish and a handler succeed, whether a mark is
written, and the random id. -/
structure InboxChoice where
  clock : Instant := 0
  interrupt : Interrupt := .none
  raised : Exc := .cancelled
  pick : ℕ := 0
  keep : Bool := false
  bus : Except Exc Unit := .ok ()
  handler : Except Exc Unit := .ok ()
  marked : Bool := true
  uuid : UUID := 0

/-- The rows and the messages of the bus, and for which event each row was saved, in the order of
the saves. -/
structure InboxWorld (Ev : Type) where
  rows : Dict UUID InboxEntry := .empty
  bus : List (String × Ev) := []
  saved : List (UUID × Ev) := []

namespace InboxWorld

variable {Ev : Type}

def integrityError : PyException :=
  ⟨"IntegrityError", "UNIQUE constraint failed: varco_inbox.entry_id"⟩

/-- `save`: ids are not used twice. -/
def save (w : InboxWorld Ev) (entry : InboxEntry) (event : Ev) : Except Exc Unit × InboxWorld Ev :=
  if ∃ p ∈ w.saved, p.1 = entry.entryId then (.error (.error integrityError), w)
  else (.ok (), { w with
    rows := w.rows.set entry.entryId entry, saved := w.saved ++ [(entry.entryId, event)] })

/-- `mark_processed`: a row that is processed already is left as it is. -/
def markProcessed (w : InboxWorld Ev) (now : Instant) (entryId : UUID) : InboxWorld Ev :=
  match w.rows.get? entryId with
  | none => w
  | some entry =>
    if entry.processedAt = none then
      { w with rows := w.rows.set entryId { entry with processedAt := some now } }
    else w

/-- `get_unprocessed`: the oldest rows that are not processed. -/
def getUnprocessed (w : InboxWorld Ev) (limit : ℕ) : List InboxEntry :=
  ((w.rows.values.filter (·.processedAt = none)).insertionSort
    fun e e' => e.receivedAt ≤ e'.receivedAt).take limit

def picked (w : InboxWorld Ev) (channel : String) (pick : ℕ) : Option (ℕ × Ev) :=
  ((w.bus.zipIdx.filter (·.1.1 = channel))[pick]?).map fun m => (m.2, m.1.2)

def exec (x : InboxChoice) (c : InboxCmd Ev) (w : InboxWorld Ev) : c.Res × InboxWorld Ev :=
  match c with
  | .receive channel =>
    match w.picked channel x.pick with
    | none => (none, w)
    | some (i, event) => (some event, if x.keep then w else { w with bus := w.bus.eraseIdx i })
  | .drop => ((), { w with bus := w.bus.eraseIdx x.pick })
  | .publish event channel =>
    (x.bus, if x.bus.toBool then { w with bus := w.bus ++ [(channel, event)] } else w)
  | .uuid4 => (x.uuid, w)
  | .now => (x.clock, w)
  | .save entry event => x.interrupt.await x.raised w (w.save entry event).1 (w.save entry event).2
  | .handle _ => (x.handler, w)
  | .markProcessed entryId =>
    x.interrupt.await x.raised w (.ok ())
      (if x.marked then w.markProcessed x.clock entryId else w)
  | .getUnprocessed limit => x.interrupt.await x.raised w (.ok (w.getUnprocessed limit)) w

end InboxWorld

/-- A producer, the bus that hands a message over or drops one, or a tick of the poller. -/
inductive InboxClient (Ev : Type)
  | producer (event : Ev) (channel : String)
  | consumer
  | dropper
  | poller

def InboxConsumer.client {Ev : Type} (consumer : InboxConsumer Ev) : InboxClient Ev → Inbox Ev Unit
  | .producer event channel => Inbox.publish event channel
  | .consumer => consumer.deliver
  | .dropper => Inbox.drop
  | .poller => consumer.relayOnce

/-- Any number of producers, deliveries, drops and ticks over one inbox. -/
def InboxConsumer.pool {Ev ι : Type} (consumer : InboxConsumer Ev) (clients : ι → InboxClient Ev) :
    Pool ι (InboxWorld Ev) (InboxCmd Ev) InboxCmd.Res (Except Exc Unit) where
  shared := {}
  prog i := (consumer.client (clients i)).run

abbrev InboxEvent (Ev ι : Type) := Event ι InboxChoice (InboxCmd Ev) InboxCmd.Res

abbrev InboxStep {Ev ι : Type} [DecidableEq ι] :
    Pool ι (InboxWorld Ev) (InboxCmd Ev) InboxCmd.Res (Except Exc Unit) → InboxEvent Ev ι →
      Pool ι (InboxWorld Ev) (InboxCmd Ev) InboxCmd.Res (Except Exc Unit) → Prop :=
  Pool.Step fun _ x c w => some (InboxWorld.exec x c w)

end Varco
