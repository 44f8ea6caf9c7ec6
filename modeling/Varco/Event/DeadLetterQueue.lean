import Varco.Event.DeadLetter
import Varco.Foundations.Dict
import Varco.Foundations.Python

/-!
# Two dead letter queues

`RedisDLQ` of `varco_redis.dlq` and `SADeadLetterQueue` of `varco_sa.dlq`. Each has its own form of
an entry. The one in Redis has no place for the source, its reference and the payload, and it is
made with the serialized event, decoded as UTF-8; an entry without an event cannot be made into it,
and `push` drops what it cannot store. `dead_letter_kept_iff` says which entries each queue gives
back as they were.

An event serializer is a parameter, which may write any bytes; the texts in a document are modelled
by what they are read as.
-/

namespace Varco

variable {E W : Type}

/-- `Serializer[Event]` -/
structure EventSerializer (E W : Type) where
  serialize : E → Except PyException W
  deserialize : W → Except PyException E

def EventSerializer.RoundTrips (serializer : EventSerializer E W) (e : E) : Prop :=
  ∃ w, serializer.serialize e = .ok w ∧ serializer.deserialize w = .ok e

/-- `bytes.decode("utf-8")`; of the error, only its type is modelled. -/
def decodeUtf8 (bytes : Bytes) : Except PyException String :=
  match String.fromUTF8? ⟨bytes.toArray⟩ with
  | some text => .ok text
  | none => .error ⟨"UnicodeDecodeError", ""⟩

/-- What the serializer writes is text, and is read back. -/
def EventSerializer.RoundTripsAsText (serializer : EventSerializer E Bytes) (e : E) : Prop :=
  ∃ w text, serializer.serialize e = .ok w ∧ decodeUtf8 w = .ok text ∧
    serializer.deserialize w = .ok e

/-- What was decoded is encoded again. -/
theorem toByteArray_of_decodeUtf8 {w : Bytes} {text : String} (h : decodeUtf8 w = .ok text) :
    text.toByteArray.data.toList = w := by
  unfold decodeUtf8 String.fromUTF8? at h
  split at h
  case h_1 text' htext =>
    split at htext
    · cases htext
      cases h
      rfl
    · cases htext
  case h_2 => cases h

/-- `DeadLetterEntry` with all its fields. -/
structure DeadLetter (E W : Type) extends DeadLetterEntry where
  entryId : UUID
  event : Option E := none
  firstFailedAt : Instant
  lastFailedAt : Instant
  payload : Option W := none
  tenantId : Option String := none

def DeadLetterSource.value : DeadLetterSource → String
  | .consumer => "consumer"
  | .outboxRelay => "outbox_relay"
  | .job => "job"

/-- `DeadLetterSource(value)` -/
def DeadLetterSource.ofValue (value : String) : Except PyException DeadLetterSource :=
  if value = "consumer" then .ok .consumer
  else if value = "outbox_relay" then .ok .outboxRelay
  else if value = "job" then .ok .job
  else .error (.valueError s!"'{value}' is not a valid DeadLetterSource")

@[simp] theorem DeadLetterSource.ofValue_value (source : DeadLetterSource) :
    ofValue source.value = .ok source := by
  cases source <;> rfl

/-! ## Redis -/

/-- The JSON document that `_serialize_entry` writes. -/
structure RedisDeadLetter where
  entryId : UUID
  channel : String
  handlerName : String
  errorType : String
  errorMessage : String
  attempts : ℤ
  firstFailedAt : Instant
  lastFailedAt : Instant
  eventPayload : String
  tenantId : Option String

/-- `RedisDLQ`: a hash of documents, and a sorted set of their identifiers. -/
structure RedisDLQ where
  connected : Bool
  entries : Dict UUID RedisDeadLetter := .empty
  queue : Dict UUID Instant := .empty

namespace RedisDLQ

/-- `serializer.serialize(entry.event)`, also where there is no event. -/
def serializeEvent (serializer : EventSerializer E Bytes) : Option E → Except PyException Bytes
  | some e => serializer.serialize e
  | none => .error ⟨"AttributeError", "'NoneType' object has no attribute 'event_type_name'"⟩

def serializeEntry (serializer : EventSerializer E Bytes) (entry : DeadLetter E Bytes) :
    Except PyException RedisDeadLetter := do
  let eventBytes ← serializeEvent serializer entry.event
  let eventPayload ← decodeUtf8 eventBytes
  return {
    entryId := entry.entryId
    channel := entry.channel
    handlerName := entry.handlerName
    errorType := entry.errorType
    errorMessage := entry.errorMessage
    attempts := entry.attempts
    firstFailedAt := entry.firstFailedAt
    lastFailedAt := entry.lastFailedAt
    eventPayload := eventPayload
    tenantId := entry.tenantId }

def deserializeEntry (serializer : EventSerializer E Bytes) (entryId : UUID)
    (data : RedisDeadLetter) : Except PyException (DeadLetter E Bytes) := do
  let event ← serializer.deserialize data.eventPayload.toByteArray.data.toList
  return {
    entryId := entryId
    event := some event
    channel := data.channel
    handlerName := data.handlerName
    errorType := data.errorType
    errorMessage := data.errorMessage
    attempts := data.attempts
    firstFailedAt := data.firstFailedAt
    lastFailedAt := data.lastFailedAt
    tenantId := data.tenantId }

/-- `push`: whatever is raised is logged and dropped. The pipeline may raise before its commands
have been carried out, or after it. -/
def push (serializer : EventSerializer E Bytes) (entry : DeadLetter E Bytes) (interrupt : Interrupt)
    (q : RedisDLQ) : RedisDLQ :=
  if !q.connected then q
  else
    match serializeEntry serializer entry with
    | .error _ => q
    | .ok data =>
      if interrupt = .before then q
      else { q with
        entries := q.entries.set entry.entryId data
        queue := q.queue.set entry.entryId entry.lastFailedAt }

def get (serializer : EventSerializer E Bytes) (entryId : UUID) (q : RedisDLQ) :
    Except PyException (Option (DeadLetter E Bytes)) :=
  if !q.connected then .error ⟨"RuntimeError", "RedisDLQ.get() called before connect()."⟩
  else
    match q.entries.get? entryId with
    | none => .ok none
    | some data => (deserializeEntry serializer entryId data).map some

end RedisDLQ

/-! ## SQL -/

/-- A row of `varco_dead_letters`. -/
structure DeadLetterRow (W : Type) where
  source : String
  sourceRef : Option String
  channel : String
  handlerName : String
  eventType : Option String
  payload : Option W
  errorType : String
  errorMessage : String
  attempts : ℤ
  firstFailedAt : Instant
  lastFailedAt : Instant
  tenantId : Option String

/-- `SADeadLetterQueue`: the rows of the table under their primary key. -/
structure SADeadLetterQueue (W : Type) where
  rows : Dict UUID (DeadLetterRow W) := .empty

namespace SADeadLetterQueue

/-- The row of an entry; `typeName` is `type(event).__name__`. -/
def toRow (serializer : EventSerializer E W) (typeName : E → String) (entry : DeadLetter E W) :
    Except PyException (DeadLetterRow W) := do
  let (payload, eventType) ←
    match entry.event with
    | some e => (serializer.serialize e).map fun w => (some w, some (typeName e))
    | none => .ok (entry.payload, none)
  return {
    source := entry.source.value
    sourceRef := entry.sourceRef
    channel := entry.channel
    handlerName := entry.handlerName
    eventType := eventType
    payload := payload
    errorType := entry.errorType
    errorMessage := entry.errorMessage
    attempts := entry.attempts
    firstFailedAt := entry.firstFailedAt
    lastFailedAt := entry.lastFailedAt
    tenantId := entry.tenantId }

/-- `push`: one transaction deletes the row of the entry and inserts it. Whatever is raised is
logged and dropped; the database may raise before the transaction is committed, or after it. -/
def push (serializer : EventSerializer E W) (typeName : E → String) (entry : DeadLetter E W)
    (interrupt : Interrupt) (q : SADeadLetterQueue W) : SADeadLetterQueue W :=
  match toRow serializer typeName entry with
  | .error _ => q
  | .ok row =>
    if interrupt = .before then q else ⟨(q.rows.erase entry.entryId).set entry.entryId row⟩

def eventOfRow (serializer : EventSerializer E W) (row : DeadLetterRow W) : Option E × Option W :=
  match row.eventType, row.payload with
  | some _, some w =>
    match serializer.deserialize w with
    | .ok e => (some e, none)
    | .error _ => (none, some w)
  | _, payload => (none, payload)

def rowToEntry (serializer : EventSerializer E W) (entryId : UUID) (row : DeadLetterRow W) :
    Except PyException (DeadLetter E W) := do
  let (event, payload) := eventOfRow serializer row
  let source ← DeadLetterSource.ofValue row.source
  return {
    entryId := entryId
    event := event
    channel := row.channel
    handlerName := row.handlerName
    errorType := row.errorType
    errorMessage := row.errorMessage
    attempts := row.attempts
    firstFailedAt := row.firstFailedAt
    lastFailedAt := row.lastFailedAt
    source := source
    sourceRef := row.sourceRef
    payload := payload
    tenantId := row.tenantId }

def get (serializer : EventSerializer E W) (entryId : UUID) (q : SADeadLetterQueue W) :
    Except PyException (Option (DeadLetter E W)) :=
  match q.rows.get? entryId with
  | none => .ok none
  | some row => (rowToEntry serializer entryId row).map some

end SADeadLetterQueue

/-! ## What is kept -/

section

variable {serializer : EventSerializer E Bytes} {entry : DeadLetter E Bytes} {interrupt : Interrupt}

/-- After a push that is stored, `get` reads what was stored. -/
theorem RedisDLQ.get_push {q : RedisDLQ} {data : RedisDeadLetter} (hq : q.connected = true)
    (hdata : serializeEntry serializer entry = .ok data) (hi : interrupt ≠ .before) :
    (q.push serializer entry interrupt).get serializer entry.entryId =
      (deserializeEntry serializer entry.entryId data).map some := by
  simp [RedisDLQ.push, RedisDLQ.get, hq, hdata, hi]

/-- `RedisDLQ` gives an entry back if and only if its event is written as text and can be read back,
it comes from a consumer, and it has no reference and no payload. -/
theorem RedisDLQ.keeps_iff :
    (∀ q : RedisDLQ, q.connected = true →
      (q.push serializer entry interrupt).get serializer entry.entryId = .ok (some entry)) ↔
      interrupt ≠ .before ∧ (∃ e, entry.event = some e ∧ serializer.RoundTripsAsText e) ∧
        entry.source = .consumer ∧ entry.sourceRef = none ∧ entry.payload = none := by
  constructor
  · intro h
    have h := h { connected := true } rfl
    cases hdata : serializeEntry serializer entry with
    | error e =>
      simp [RedisDLQ.push, RedisDLQ.get, hdata] at h
    | ok data =>
      by_cases hi : interrupt = .before
      · simp [RedisDLQ.push, RedisDLQ.get, hdata, hi] at h
      · rw [RedisDLQ.get_push rfl hdata hi] at h
        obtain ⟨entry', hentry, heq⟩ := exists_of_map_ok h
        obtain rfl : entry' = entry := Option.some.inj heq
        obtain ⟨e, he, hread⟩ := exists_of_bind_ok hentry
        obtain ⟨w, hw, hwrite⟩ := exists_of_bind_ok hdata
        obtain ⟨text, htext, hwrite⟩ := exists_of_bind_ok hwrite
        cases hwrite
        rw [toByteArray_of_decodeUtf8 htext] at he
        have hsame := Except.ok.inj hread
        have hevent : entry'.event = some e := (congrArg DeadLetter.event hsame).symm
        have hsource : entry'.source = .consumer := (congrArg (·.source) hsame).symm
        have href : entry'.sourceRef = none := (congrArg (·.sourceRef) hsame).symm
        have hpayload : entry'.payload = none := (congrArg DeadLetter.payload hsame).symm
        rw [hevent] at hw
        exact ⟨hi, ⟨e, hevent, w, text, hw, htext, he⟩, hsource, href, hpayload⟩
  · rintro ⟨hi, ⟨e, hevent, w, text, hw, htext, he⟩, hsource, href, hpayload⟩ q hq
    have hdata : serializeEntry serializer entry = .ok
        ⟨entry.entryId, entry.channel, entry.handlerName, entry.errorType, entry.errorMessage,
          entry.attempts, entry.firstFailedAt, entry.lastFailedAt, text, entry.tenantId⟩ := by
      simp only [serializeEntry, hevent, serializeEvent, hw]
      change (decodeUtf8 w >>= _) = _
      rw [htext]
      rfl
    rw [RedisDLQ.get_push hq hdata hi]
    simp only [deserializeEntry, toByteArray_of_decodeUtf8 htext, he]
    obtain ⟨⟨channel, handlerName, errorType, errorMessage, attempts, source, sourceRef⟩, entryId,
      event, firstFailedAt, lastFailedAt, payload, tenantId⟩ := entry
    cases hevent
    cases hsource
    cases href
    cases hpayload
    rfl

/-- After a push that is stored, `get` reads the row that was stored. -/
theorem SADeadLetterQueue.get_push {q : SADeadLetterQueue Bytes} {typeName : E → String}
    {row : DeadLetterRow Bytes} (hrow : toRow serializer typeName entry = .ok row)
    (hi : interrupt ≠ .before) :
    (q.push serializer typeName entry interrupt).get serializer entry.entryId =
      (rowToEntry serializer entry.entryId row).map some := by
  simp [SADeadLetterQueue.push, SADeadLetterQueue.get, hrow, hi]

/-- `SADeadLetterQueue` gives an entry back if and only if it has no event, or one that can be read
back and no payload beside it. -/
theorem SADeadLetterQueue.keeps_iff {typeName : E → String} :
    (∀ q : SADeadLetterQueue Bytes,
      (q.push serializer typeName entry interrupt).get serializer entry.entryId =
        .ok (some entry)) ↔
      interrupt ≠ .before ∧
        ∀ e, entry.event = some e → serializer.RoundTrips e ∧ entry.payload = none := by
  constructor
  · intro h
    have h := h {}
    cases hrow : toRow serializer typeName entry with
    | error e => simp [SADeadLetterQueue.push, SADeadLetterQueue.get, hrow] at h
    | ok row =>
      by_cases hi : interrupt = .before
      · simp [SADeadLetterQueue.push, SADeadLetterQueue.get, hrow, hi] at h
      · rw [SADeadLetterQueue.get_push hrow hi] at h
        refine ⟨hi, fun e hevent => ?_⟩
        obtain ⟨entry', hentry, heq⟩ := exists_of_map_ok h
        obtain rfl : entry' = entry := Option.some.inj heq
        obtain ⟨source, -, hread⟩ := exists_of_bind_ok hentry
        have hsame := Except.ok.inj hread
        have hread : (eventOfRow serializer row).1 = some e :=
          (congrArg DeadLetter.event hsame).trans hevent
        have hpayload : (eventOfRow serializer row).2 = entry'.payload :=
          congrArg DeadLetter.payload hsame
        cases hw : serializer.serialize e with
        | error error =>
          simp only [toRow, hevent, hw] at hrow
          cases hrow
        | ok w =>
          simp only [toRow, hevent, hw] at hrow
          cases hrow
          simp only [eventOfRow] at hread hpayload
          cases he : serializer.deserialize w with
          | error error =>
            rw [he] at hread
            cases hread
          | ok e' =>
            rw [he] at hread hpayload
            cases hread
            exact ⟨⟨w, hw, he⟩, hpayload.symm⟩
  · rintro ⟨hi, hkeep⟩ q
    obtain ⟨⟨channel, handlerName, errorType, errorMessage, attempts, source, sourceRef⟩, entryId,
      event, firstFailedAt, lastFailedAt, payload, tenantId⟩ := entry
    cases event with
    | none =>
      rw [SADeadLetterQueue.get_push rfl hi]
      simp only [rowToEntry, DeadLetterSource.ofValue_value]
      rfl
    | some e =>
      obtain ⟨⟨w, hw, he⟩, rfl⟩ := hkeep e rfl
      have hrow : toRow serializer typeName ⟨⟨channel, handlerName, errorType, errorMessage,
          attempts, source, sourceRef⟩, entryId, some e, firstFailedAt, lastFailedAt, none,
          tenantId⟩ = .ok ⟨source.value, sourceRef, channel, handlerName, some (typeName e), some w,
            errorType, errorMessage, attempts, firstFailedAt, lastFailedAt, tenantId⟩ := by
        simp only [toRow, hw]
        rfl
      rw [SADeadLetterQueue.get_push hrow hi]
      simp only [rowToEntry, eventOfRow, he, DeadLetterSource.ofValue_value]
      rfl

end

/-- **Which entries are kept whole.** For every entry, and whatever is in a queue before it: after
`push`, the queue in Redis gives the entry back if and only if the back end carried out the write,
the event is there, is written as text and can be read back, the source is a consumer, and there is
neither a reference nor a payload; the queue in SQL gives it back if and only if the back end
carried out the write and an event, if there is one, can be read back and has no payload beside it.
-/
theorem dead_letter_kept_iff (serializer : EventSerializer E Bytes) (typeName : E → String)
    (entry : DeadLetter E Bytes) (interrupt : Interrupt) :
    ((∀ q : RedisDLQ, q.connected = true →
        (q.push serializer entry interrupt).get serializer entry.entryId = .ok (some entry)) ↔
      interrupt ≠ .before ∧ (∃ e, entry.event = some e ∧ serializer.RoundTripsAsText e) ∧
        entry.source = .consumer ∧ entry.sourceRef = none ∧ entry.payload = none) ∧
    ((∀ q : SADeadLetterQueue Bytes,
        (q.push serializer typeName entry interrupt).get serializer entry.entryId =
          .ok (some entry)) ↔
      interrupt ≠ .before ∧
        ∀ e, entry.event = some e → serializer.RoundTrips e ∧ entry.payload = none) :=
  ⟨RedisDLQ.keeps_iff, SADeadLetterQueue.keeps_iff⟩

/-- What the outbox relay pushes for a message that it cannot read: no event, and the bytes. -/
def unreadableEntry : DeadLetter Unit Bytes where
  entryId := 1
  channel := "orders"
  errorType := "KeyError"
  errorMessage := "Unknown event type"
  attempts := 1
  source := .outboxRelay
  sourceRef := some "7"
  firstFailedAt := 0
  lastFailedAt := 0
  payload := some [0x7b, 0x7d]

/-- The queue in Redis drops the entry of a message that cannot be read; the one in SQL keeps it. -/
theorem redis_drops_unreadable :
    (({ connected := true } : RedisDLQ).push ⟨fun _ => .ok [], fun _ => .ok ()⟩
        unreadableEntry .none).get ⟨fun _ => .ok [], fun _ => .ok ()⟩ 1 = .ok none ∧
      (({} : SADeadLetterQueue Bytes).push ⟨fun _ => .ok [], fun _ => .ok ()⟩ (fun _ => "Order")
        unreadableEntry .none).get ⟨fun _ => .ok [], fun _ => .ok ()⟩ 1 =
          .ok (some unreadableEntry) :=
  ⟨rfl, rfl⟩

end Varco
