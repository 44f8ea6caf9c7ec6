import Varco.Event.Base
import Varco.Foundations.Text

/-!
# Events as JSON

`JsonEventSerializer` of `varco_core.event.serializer`. The bytes of a message are modelled by the
JSON document that they spell: `json.loads` undoes `json.dumps`. What pydantic does with the fields
of a class is a parameter, `Pydantic`, and `ReadsBack` says that it reads what it has written; the
two fields that every event has, `event_id` and `timestamp`, are written out.
-/

namespace Varco

/-! ## JSON -/

/-- A JSON document. -/
inductive Json
  | null
  | bool (b : Bool)
  | int (n : ℤ)
  | float (x : PyFloat)
  | str (s : String)
  | arr (values : List Json)
  | obj (fields : List (String × Json))

namespace Json

mutual

/-- `repr(value)` of what `json.loads` makes of a document. -/
def repr : Json → String
  | .null => "None"
  | .bool b => if b then "True" else "False"
  | .int n => toString n
  | .float x => x.repr
  | .str s => pyRepr s
  | .arr values => "[" ++ ", ".intercalate (reprs values) ++ "]"
  | .obj fields => "\x7b" ++ ", ".intercalate (reprFields fields) ++ "\x7d"

/-- The values of a list, each by `repr()`. -/
def reprs : List Json → List String
  | [] => []
  | value :: values => value.repr :: reprs values

/-- The items of a dictionary, each by `repr()`. -/
def reprFields : List (String × Json) → List String
  | [] => []
  | (key, value) :: fields => (pyRepr key ++ ": " ++ value.repr) :: reprFields fields

end

/-- `bool(value)` -/
def truthy : Json → Bool
  | .null => false
  | .bool b => b
  | .int n => n != 0
  | .float x => x.val != 0
  | .str s => s != ""
  | .arr values => !values.isEmpty
  | .obj fields => !fields.isEmpty

end Json

abbrev JsonObject := Dict String Json

/-- `dict.update`, and `{..., **fields}`. -/
def JsonObject.update (d : JsonObject) (fields : List (String × Json)) : JsonObject :=
  fields.foldl (fun d p => d.set p.1 p.2) d

theorem JsonObject.get?_update (d fields : JsonObject) (k : String) :
    (JsonObject.update d fields.entries).get? k = (fields.get? k).or (d.get? k) :=
  Dict.get?_foldl_set_entries d fields.nodup k

/-! ## Events -/

/-- A `datetime`: without a timezone, or with its offset from UTC in minutes. -/
inductive EventTime
  | naive (wall : Wall)
  | aware (wall : Wall) (offset : ℤ)
  deriving DecidableEq

namespace EventTime

/-- `timestamp.tzinfo is not None` -/
def isAware : EventTime → Bool
  | .naive _ => false
  | .aware _ _ => true

def orUtc : EventTime → EventTime
  | .naive wall => .aware wall 0
  | .aware wall offset => .aware wall offset

theorem orUtc_eq_iff {t : EventTime} : t.orUtc = t ↔ t.isAware = true := by
  cases t <;> simp [orUtc, isAware]

def isoformat : EventTime → String
  | .naive wall => wall.isoformat
  | .aware wall offset =>
    wall.isoformat ++ (if offset < 0 then "-" else "+") ++ zeroPad 2 (offset.natAbs / 60) ++ ":" ++
      zeroPad 2 (offset.natAbs % 60)

end EventTime

/-- An instance of an event class, with the values `F c` of the fields that its class adds. -/
structure EventInstance (F : EventClass → Type) where
  cls : EventClass
  eventId : UUID
  timestamp : EventTime
  fields : F cls

/-- What pydantic does with the fields of events, and what `getattr(event, "correlation_id", None)`
finds in them. -/
structure Pydantic (F : EventClass → Type) where
  dumpDatetime : EventTime → String
  parseDatetime : Json → Except PyException EventTime
  parseUUID : Json → Except PyException UUID
  dumpFields : (c : EventClass) → F c → JsonObject
  validateFields : (c : EventClass) → JsonObject → Except PyException (F c)
  correlationId : (c : EventClass) → F c → Option String

/-- What an event was written with is read back: its identifier, its time as pydantic writes it and
in ISO 8601 with an offset, and its other fields, in whatever order. The names of these are not
those of the two fields that every event has, and none is `__event_type__`. -/
structure ReadsBack {F : EventClass → Type} (py : Pydantic F) (e : EventInstance F) : Prop where
  uuid : py.parseUUID (.str e.eventId.str) = .ok e.eventId
  dumped : py.parseDatetime (.str (py.dumpDatetime e.timestamp)) = .ok e.timestamp
  rfc3339 : py.parseDatetime (.str e.timestamp.orUtc.isoformat) = .ok e.timestamp.orUtc
  fields : ∀ d : JsonObject, (∀ k, d.get? k = (py.dumpFields e.cls e.fields).get? k) →
    py.validateFields e.cls d = .ok e.fields
  names : (py.dumpFields e.cls e.fields).get? "event_id" = none ∧
    (py.dumpFields e.cls e.fields).get? "timestamp" = none ∧
    (py.dumpFields e.cls e.fields).get? "__event_type__" = none

/-- What the default factories of `event_id` and `timestamp` would give. -/
structure EventDefaults where
  uuid : UUID
  now : EventTime

section

variable {F : EventClass → Type} (py : Pydantic F)

/-- `event.model_dump(mode="json")` -/
def modelDump (e : EventInstance F) : JsonObject :=
  JsonObject.update ((Dict.empty.set "event_id" (.str e.eventId.str)).set "timestamp"
    (.str (py.dumpDatetime e.timestamp))) (py.dumpFields e.cls e.fields).entries

def readField {α : Type} (raw : JsonObject) (key : String) (parse : Json → Except PyException α)
    (default : α) : Except PyException α :=
  match raw.get? key with
  | some value => parse value
  | none => .ok default

/-- `cls.model_validate(raw)` -/
def modelValidate (defaults : EventDefaults) (c : EventClass) (raw : JsonObject) :
    Except PyException (EventInstance F) := do
  let eventId ← readField raw "event_id" py.parseUUID defaults.uuid
  let timestamp ← readField raw "timestamp" py.parseDatetime defaults.now
  let fields ← py.validateFields c ((raw.erase "event_id").erase "timestamp")
  return ⟨c, eventId, timestamp, fields⟩

variable {py} {e : EventInstance F} (hpy : ReadsBack py e) {defaults : EventDefaults}
include hpy

/-- An instance is restored from its identifier, a text of its timestamp and its fields, whatever
the order of the keys. -/
theorem modelValidate_eq {raw : JsonObject} {t : EventTime} {text : String}
    (hid : raw.get? "event_id" = some (.str e.eventId.str))
    (htime : raw.get? "timestamp" = some (.str text)) (htext : py.parseDatetime (.str text) = .ok t)
    (hfields : ∀ k, k ≠ "event_id" → k ≠ "timestamp" →
      raw.get? k = (py.dumpFields e.cls e.fields).get? k) :
    modelValidate py defaults e.cls raw = .ok ⟨e.cls, e.eventId, t, e.fields⟩ := by
  have hrest : py.validateFields e.cls ((raw.erase "event_id").erase "timestamp") =
      .ok e.fields := by
    apply hpy.fields
    intro k
    obtain ⟨hidName, htimeName, -⟩ := hpy.names
    rw [Dict.get?_erase, Dict.get?_erase]
    by_cases hk : k = "timestamp"
    · simp [hk, htimeName]
    · by_cases hk' : k = "event_id"
      · simp [hk', hidName]
      · simp [hk, hk', hfields k hk' hk]
  unfold modelValidate
  simp only [readField, hid, htime, hpy.uuid, htext, hrest]
  rfl

theorem get?_modelDump (k : String) :
    (modelDump py e).get? k =
      if k = "event_id" then some (.str e.eventId.str)
      else if k = "timestamp" then some (.str (py.dumpDatetime e.timestamp))
      else (py.dumpFields e.cls e.fields).get? k := by
  obtain ⟨hid, htime, -⟩ := hpy.names
  rw [modelDump, JsonObject.get?_update, Dict.get?_set, Dict.get?_set, Dict.get?_empty]
  by_cases hk : k = "event_id"
  · simp [hk, hid]
  · by_cases hk' : k = "timestamp"
    · simp [hk', htime]
    · simp [hk, hk']

end

/-- An instance has the class that it was validated against. -/
theorem modelValidate_cls {F : EventClass → Type} {py : Pydantic F} {defaults : EventDefaults}
    {c : EventClass} {raw : JsonObject} {e : EventInstance F}
    (h : modelValidate py defaults c raw = .ok e) : e.cls = c := by
  obtain ⟨eventId, -, h⟩ := exists_of_bind_ok h
  obtain ⟨timestamp, -, h⟩ := exists_of_bind_ok h
  obtain ⟨fields, -, h⟩ := exists_of_bind_ok h
  cases h
  rfl

/-! ## The serializer -/

/-- `KeyError(message)`: its `str()` is the `repr()` of the message. -/
def keyError (message : String) : PyException := ⟨"KeyError", pyRepr message⟩

def lookupType (classes : List EventClass) (typeName : Json) : Except PyException EventClass :=
  let unknown : PyException :=
    let known := ((registry classes).entries.map Prod.fst).mergeSort
    keyError (s!"Unknown event type {typeName.repr} — " ++
      "the event class was not imported before deserialization, " ++
      "or the type name has changed.  " ++
      s!"Known types ({known.length}): {pyReprList known}")
  match typeName with
  | .str name =>
    match (registry classes).get? name with
    | some c => .ok c
    | none => .error unknown
  | .arr _ => .error ⟨"TypeError", "unhashable type: 'list'"⟩
  | .obj _ => .error ⟨"TypeError", "unhashable type: 'dict'"⟩
  | _ => .error unknown

namespace JsonEventSerializer

variable {F : EventClass → Type}

def typeKey : String := "__event_type__"

def serialize (py : Pydantic F) (value : EventInstance F) : JsonObject :=
  JsonObject.update (Dict.empty.set typeKey (.str value.cls.eventTypeName))
    (modelDump py value).entries

def deserialize (py : Pydantic F) (classes : List EventClass) (defaults : EventDefaults)
    (data : JsonObject) : Except PyException (EventInstance F) := do
  let missing : PyException := .valueError
    (s!"Cannot deserialize event — '{typeKey}' key is missing " ++
      "from the JSON payload.  Was this produced by JsonEventSerializer?")
  let raw := data.erase typeKey
  let eventTypeName ←
    match data.get? typeKey with
    | none => .error missing
    | some .null => .error missing
    | some name => .ok name
  let eventCls ← lookupType classes eventTypeName
  modelValidate py defaults eventCls raw

variable {py : Pydantic F} {classes : List EventClass} {defaults : EventDefaults}
  {e : EventInstance F}

/-- **The JSON round trip.** The event comes back if and only if the type name of its class leads to
its class. -/
theorem deserialize_serialize_iff (hpy : ReadsBack py e) :
    deserialize py classes defaults (serialize py e) = .ok e ↔
      (registry classes).get? e.cls.eventTypeName = some e.cls := by
  have hget (k : String) : (serialize py e).get? k =
      ((modelDump py e).get? k).or
        (if k = typeKey then some (.str e.cls.eventTypeName) else none) := by
    rw [serialize, JsonObject.get?_update, Dict.get?_set, Dict.get?_empty]
  have htype : (serialize py e).get? typeKey = some (.str e.cls.eventTypeName) := by
    have hname : (modelDump py e).get? typeKey = none := by
      rw [get?_modelDump hpy]
      exact hpy.names.2.2
    rw [hget, hname]
    rfl
  have hraw (k : String) : ((serialize py e).erase typeKey).get? k = (modelDump py e).get? k := by
    rw [Dict.get?_erase, hget]
    by_cases hk : k = typeKey
    · have hname : (modelDump py e).get? typeKey = none := by
        rw [get?_modelDump hpy]
        exact hpy.names.2.2
      simp [hk, hname]
    · simp [hk]
  have hdeserialize : deserialize py classes defaults (serialize py e) =
      lookupType classes (.str e.cls.eventTypeName) >>= fun c =>
        modelValidate py defaults c ((serialize py e).erase typeKey) := by
    unfold deserialize
    simp only [htype]
    rfl
  rw [hdeserialize]
  constructor
  · intro h
    obtain ⟨c, hc, h⟩ := exists_of_bind_ok h
    obtain rfl := modelValidate_cls h
    unfold lookupType at hc
    simp only at hc
    split at hc
    · cases hc
      assumption
    · cases hc
  · intro h
    have hc : lookupType classes (.str e.cls.eventTypeName) = .ok e.cls := by
      unfold lookupType
      simp only [h]
    rw [hc]
    exact modelValidate_eq hpy (by rw [hraw, get?_modelDump hpy]; rfl)
      (by rw [hraw, get?_modelDump hpy]; rfl) hpy.dumped
      fun k hk hk' => by rw [hraw, get?_modelDump hpy, if_neg hk, if_neg hk']

end JsonEventSerializer

end Varco
