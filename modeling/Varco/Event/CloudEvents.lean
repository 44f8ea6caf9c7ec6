import Varco.Event.Serializer

/-!
# Events as CloudEvents

`CloudEventsJsonSerializer` of `varco_core.event.cloudevents`: the identifier and the time of an
event are attributes of an envelope, and its other fields are the data in it. A time without an
offset is written as UTC, and comes back as UTC.

`decode_own_class_iff` is about both serializers: each of them gives the event back if and only if
no class defined after the class of the event has inherited the declaration that this one is named
by, and what CloudEvents needs is there.
-/

namespace Varco

/-! ## Settings -/

def isJsonMediaType (value : String) : Bool :=
  let stripped := pyLower (pyStrip ((pySplit ';' value).headD ""))
  "json".toList.isSuffixOf stripped.toList || "+json".toList.isSuffixOf stripped.toList

/-- `CloudEventsSettings`, with its validators. -/
structure CloudEventsSettings where
  source : String
  datacontenttype : String := "application/json"
  source_ne : source ≠ "" := by decide
  json : isJsonMediaType datacontenttype = true := by decide +kernel

/-! ## The serializer -/

/-- `_to_rfc3339`: a naive time is taken for UTC. -/
def toRfc3339 (value : EventTime) : String := value.orUtc.isoformat

/-- `_EXTENSION_NAME_RE.match(name)`. Its `$` also matches before a newline at the end. -/
def isExtensionName (name : String) : Bool :=
  let isNameChar (c : Char) : Bool := c.isDigit || c.isLower
  let letters := name.toList.takeWhile isNameChar
  let rest := name.toList.dropWhile isNameChar
  1 ≤ letters.length && letters.length ≤ 20 && (rest.isEmpty || rest == ['\n'])

namespace CloudEventsJsonSerializer

variable {F : EventClass → Type}

/-- `_extensions`; `currentTenant` is the ambient tenant. -/
def extensions (py : Pydantic F) (currentTenant : Option String) (value : EventInstance F) :
    List (String × String) :=
  ((py.correlationId value.cls value.fields).map ("correlationid", ·)).toList ++
    (currentTenant.map ("tenantid", ·)).toList

/-- The loop of `serialize` over the extensions. -/
def addExtensions : List (String × String) → JsonObject → Except PyException JsonObject
  | [], envelope => .ok envelope
  | (name, value) :: rest, envelope =>
    if isExtensionName name then addExtensions rest (envelope.set name (.str value))
    else .error (.valueError
      (s!"illegal CloudEvents extension attribute name {pyRepr name} — " ++
        "lowercase ASCII letters and digits only, at most 20 characters"))

def serialize (py : Pydantic F) (settings : CloudEventsSettings) (currentTenant : Option String)
    (value : EventInstance F) : Except PyException JsonObject := do
  let contentType := settings.datacontenttype
  if !isJsonMediaType contentType then
    .error (.valueError (s!"datacontenttype {pyRepr contentType} requires `data_base64`, which " ++
      "this serializer does not emit."))
  else
    let data := ((modelDump py value).erase "event_id").erase "timestamp"
    let envelope : JsonObject :=
      (((((Dict.empty.set "specversion" (.str "1.0")).set "id" (.str value.eventId.str)).set
        "source" (.str settings.source)).set "type" (.str value.cls.eventTypeName)).set
        "time" (.str (toRfc3339 value.timestamp))).set "datacontenttype" (.str contentType)
    let envelope ← addExtensions (extensions py currentTenant value) envelope
    .ok (envelope.set "data" (.obj data.entries))

/-- `dict(envelope.get("data") or {})`; what is neither empty nor an object is refused. -/
def dataOf (data : Option Json) : Except PyException JsonObject :=
  match data with
  | some (.obj fields) => .ok (JsonObject.update .empty fields)
  | some data =>
    if data.truthy then .error ⟨"TypeError", s!"{data.repr} is not a mapping"⟩ else .ok .empty
  | none => .ok .empty

/-- An attribute of the envelope that is not null becomes a field again. -/
def restore (key : String) (found : Option Json) (payload : JsonObject) : JsonObject :=
  match found with
  | none => payload
  | some .null => payload
  | some value => payload.set key value

def deserialize (py : Pydantic F) (classes : List EventClass) (defaults : EventDefaults)
    (envelope : JsonObject) : Except PyException (EventInstance F) :=
  match envelope.get? "specversion" with
  | some (.str "1.0") =>
    if (envelope.get? "data_base64").isSome then
      .error (.valueError ("CloudEvents `data_base64` (binary payload) is not supported — " ++
        "varco emits and consumes structured JSON `data` only."))
    else do
      let eventTypeName := (envelope.get? "type").getD .null
      if !eventTypeName.truthy then
        .error (.valueError ("Cannot deserialize CloudEvent — the required `type` attribute " ++
          "is missing.  Was this produced by CloudEventsJsonSerializer?"))
      else
        let eventCls ← lookupType classes eventTypeName
        let payload ← dataOf (envelope.get? "data")
        modelValidate py defaults eventCls
          (restore "timestamp" (envelope.get? "time")
            (restore "event_id" (envelope.get? "id") payload))
  | specVersion =>
    .error (.valueError (s!"unsupported CloudEvents specversion " ++
      s!"{(specVersion.getD .null).repr} — expected '1.0'"))

variable {py : Pydantic F} {classes : List EventClass} {defaults : EventDefaults}
  {settings : CloudEventsSettings} {currentTenant : Option String}

/-- Extensions with legal names are added, and nothing else is changed. -/
theorem addExtensions_ok {l : List (String × String)} (h : ∀ p ∈ l, isExtensionName p.1 = true)
    (envelope : JsonObject) : ∃ envelope', addExtensions l envelope = .ok envelope' ∧
      ∀ k, k ∉ l.map Prod.fst → envelope'.get? k = envelope.get? k := by
  induction l generalizing envelope with
  | nil => exact ⟨envelope, rfl, fun _ _ => rfl⟩
  | cons p l ih =>
    obtain ⟨name, value⟩ := p
    have hname : isExtensionName name = true := h (name, value) List.mem_cons_self
    obtain ⟨envelope', hok, hget⟩ := ih (fun q hq => h q (List.mem_cons_of_mem _ hq))
      (envelope.set name (.str value))
    refine ⟨envelope', by simp only [addExtensions, hname, if_true, hok], fun k hk => ?_⟩
    rw [List.map_cons, List.mem_cons, not_or] at hk
    rw [hget k hk.2, Dict.get?_set, if_neg hk.1]

theorem extensions_names (py : Pydantic F) (currentTenant : Option String) (e : EventInstance F) :
    ∀ p ∈ extensions py currentTenant e, p.1 = "correlationid" ∨ p.1 = "tenantid" := by
  intro p hp
  unfold extensions at hp
  rcases List.mem_append.mp hp with hp | hp
  · obtain ⟨value, -, rfl⟩ := Option.map_eq_some_iff.mp (Option.mem_toList.mp hp)
    exact .inl rfl
  · obtain ⟨value, -, rfl⟩ := Option.map_eq_some_iff.mp (Option.mem_toList.mp hp)
    exact .inr rfl

/-- What `serialize` writes where `deserialize` looks. -/
theorem serialize_ok (py : Pydantic F) (settings : CloudEventsSettings)
    (currentTenant : Option String) (e : EventInstance F) :
    ∃ envelope, serialize py settings currentTenant e = .ok envelope ∧
      envelope.get? "specversion" = some (.str "1.0") ∧ envelope.get? "data_base64" = none ∧
      envelope.get? "type" = some (.str e.cls.eventTypeName) ∧
      envelope.get? "id" = some (.str e.eventId.str) ∧
      envelope.get? "time" = some (.str (toRfc3339 e.timestamp)) ∧
      envelope.get? "data" =
        some (.obj (((modelDump py e).erase "event_id").erase "timestamp").entries) := by
  have hnames := extensions_names py currentTenant e
  have hlegal : ∀ p ∈ extensions py currentTenant e, isExtensionName p.1 = true := by
    intro p hp
    rcases hnames p hp with h | h <;> rw [h] <;> decide +kernel
  have hother {k : String} (hk : k ≠ "correlationid") (hk' : k ≠ "tenantid") :
      k ∉ (extensions py currentTenant e).map Prod.fst := by
    intro hmem
    obtain ⟨p, hp, rfl⟩ := List.mem_map.mp hmem
    exact (hnames p hp).elim hk hk'
  obtain ⟨envelope, hok, hget⟩ := addExtensions_ok hlegal
    ((((((Dict.empty.set "specversion" (.str "1.0")).set "id" (.str e.eventId.str)).set
      "source" (.str settings.source)).set "type" (.str e.cls.eventTypeName)).set
      "time" (.str (toRfc3339 e.timestamp))).set "datacontenttype"
      (.str settings.datacontenttype))
  refine ⟨envelope.set "data"
    (.obj (((modelDump py e).erase "event_id").erase "timestamp").entries), ?_, ?_⟩
  · simp only [serialize, settings.json, hok]
    rfl
  · simp [Dict.get?_set, hget _ (hother (k := "specversion") (by decide) (by decide)),
      hget _ (hother (k := "data_base64") (by decide) (by decide)),
      hget _ (hother (k := "type") (by decide) (by decide)),
      hget _ (hother (k := "id") (by decide) (by decide)),
      hget _ (hother (k := "time") (by decide) (by decide))]

/-- A named class is looked up, and validates what the event was written with. -/
theorem deserialize_eq {e : EventInstance F} (hpy : ReadsBack py e) {envelope : JsonObject}
    (h : serialize py settings currentTenant e = .ok envelope) (hname : e.cls.eventTypeName ≠ "") :
    ∃ payload : JsonObject,
      payload.get? "event_id" = some (.str e.eventId.str) ∧
      payload.get? "timestamp" = some (.str (toRfc3339 e.timestamp)) ∧
      (∀ k, k ≠ "event_id" → k ≠ "timestamp" →
        payload.get? k = (py.dumpFields e.cls e.fields).get? k) ∧
      deserialize py classes defaults envelope =
        lookupType classes (.str e.cls.eventTypeName) >>= fun c =>
          modelValidate py defaults c payload := by
  obtain ⟨envelope', hok, hspec, hbase64, htype, hid, htime, hdata⟩ :=
    serialize_ok py settings currentTenant e
  obtain rfl : envelope' = envelope := Except.ok.inj (hok.symm.trans h)
  set data := ((modelDump py e).erase "event_id").erase "timestamp" with hdataDef
  have htruthy : (Json.str e.cls.eventTypeName).truthy = true := by simpa [Json.truthy] using hname
  refine ⟨((JsonObject.update .empty data.entries).set "event_id" (.str e.eventId.str)).set
    "timestamp" (.str (toRfc3339 e.timestamp)), ?_, ?_, fun k hk hk' => ?_, ?_⟩
  · simp [Dict.get?_set]
  · simp
  · rw [Dict.get?_set, if_neg hk', Dict.get?_set, if_neg hk, JsonObject.get?_update, hdataDef,
      Dict.get?_erase, if_neg hk', Dict.get?_erase, if_neg hk, get?_modelDump hpy, if_neg hk,
      if_neg hk']
    simp
  · unfold deserialize
    simp only [hspec, hbase64, htype, hid, htime, hdata, Option.getD_some, htruthy]
    rfl

/-- **The CloudEvents round trip.** The event comes back if and only if the type name of its class
is not empty and leads to its class, and its time has an offset. -/
theorem deserialize_serialize_iff {e : EventInstance F} (hpy : ReadsBack py e) :
    (serialize py settings currentTenant e >>= deserialize py classes defaults) = .ok e ↔
      (registry classes).get? e.cls.eventTypeName = some e.cls ∧ e.cls.eventTypeName ≠ "" ∧
        e.timestamp.isAware = true := by
  obtain ⟨envelope, hok, hspec, hbase64, htype, -⟩ := serialize_ok py settings currentTenant e
  have hbind : (serialize py settings currentTenant e >>= deserialize py classes defaults) =
      deserialize py classes defaults envelope := by
    rw [hok]
    rfl
  rw [hbind]
  by_cases hname : e.cls.eventTypeName = ""
  · have hfalsy : (Json.str e.cls.eventTypeName).truthy = false := by simp [Json.truthy, hname]
    unfold deserialize
    simp only [hspec, hbase64, htype, Option.getD_some, hfalsy]
    exact ⟨by rintro ⟨⟩, fun h => absurd hname h.2.1⟩
  · obtain ⟨payload, hid, htime, hfields, heq⟩ := deserialize_eq hpy hok hname
    rw [heq]
    constructor
    · intro h
      obtain ⟨c, hc, h⟩ := exists_of_bind_ok h
      obtain rfl := modelValidate_cls h
      rw [modelValidate_eq hpy hid htime hpy.rfc3339 hfields] at h
      have hsame : e.timestamp.orUtc = e.timestamp :=
        congrArg EventInstance.timestamp (Except.ok.inj h)
      refine ⟨?_, hname, EventTime.orUtc_eq_iff.mp hsame⟩
      unfold lookupType at hc
      simp only at hc
      split at hc
      · cases hc
        assumption
      · cases hc
    · rintro ⟨hget, -, haware⟩
      have hc : lookupType classes (.str e.cls.eventTypeName) = .ok e.cls := by
        unfold lookupType
        simp only [hget]
      rw [hc]
      have hvalid : modelValidate py defaults e.cls payload = _ :=
        modelValidate_eq hpy hid htime hpy.rfc3339 hfields
      rw [EventTime.orUtc_eq_iff.mpr haware] at hvalid
      exact hvalid

end CloudEventsJsonSerializer

/-! ## Both serializers -/

/-- **When an event is decoded as an instance of its own class.** For every forest of event classes
with distinct names, and every event of one of them: both serializers give the event back if and
only if no class that is defined after its class takes its `__event_type__` from the declaration
that this one takes its own from, and the two things that only CloudEvents asks for hold: the type
name is not empty, and the time has an offset. -/
theorem decode_own_class_iff {F : EventClass → Type} (py : Pydantic F)
    (settings : CloudEventsSettings) (currentTenant : Option String) (defaults : EventDefaults)
    (forest : EventForest) (hnames : forest.DistinctNames) (e : EventInstance F)
    (hcls : e.cls ∈ forest.classes) (hpy : ReadsBack py e) :
    (JsonEventSerializer.deserialize py forest.classes defaults
          (JsonEventSerializer.serialize py e) = .ok e ∧
        (CloudEventsJsonSerializer.serialize py settings currentTenant e >>=
          CloudEventsJsonSerializer.deserialize py forest.classes defaults) = .ok e) ↔
      (∀ c ∈ definedAfter forest.classes e.cls, c.declarer = none ∨ c.declarer ≠ e.cls.declarer) ∧
        e.cls.eventTypeName ≠ "" ∧ e.timestamp.isAware = true := by
  rw [JsonEventSerializer.deserialize_serialize_iff hpy,
    CloudEventsJsonSerializer.deserialize_serialize_iff hpy,
    EventForest.registry_get_iff hnames hcls]
  exact ⟨And.right, fun h => ⟨h.1, h⟩⟩

/-! ## An inherited name -/

/-- `class OrderPlaced(Event)`, with `__event_type__ = "order.placed"`. -/
def orderPlaced : EventClass := .ofEvent "OrderPlaced" (some "order.placed")

/-- `class RushOrder(OrderPlaced)` -/
def rushOrder : EventClass := .ofClass orderPlaced "RushOrder" none

def shopForest : EventForest where
  classes := [orderPlaced, rushOrder]
  nodup := by decide
  bases_first earlier c later h base hbase := by
    rcases earlier with _ | ⟨c₁, earlier⟩
    · cases h
      cases hbase
    · rcases earlier with _ | ⟨c₂, earlier⟩
      · cases h
        cases hbase
        exact List.mem_cons_self
      · simp at h

theorem shopForest_distinctNames : shopForest.DistinctNames where
  names := by decide
  declared := by
    have hall : ∀ c ∈ shopForest.classes, ∀ c' ∈ shopForest.classes,
        c.declared = c'.declared → c.declared.isSome → c = c' := by
      decide
    intro c hc c' hc' n hn hn'
    exact hall c hc c' hc' (hn.trans hn'.symm) (Option.isSome_of_eq_some hn)
  apart := by decide

def newYear : EventTime := .aware 63902822400000000 0

def orderEvent (c : EventClass) : EventInstance fun _ => Unit := ⟨c, 0x2a, newYear, ()⟩

/-- What pydantic makes of the two texts of the time, and of the one identifier there is. -/
def shopPydantic : Pydantic fun _ => Unit where
  dumpDatetime _ := "2026-01-01T00:00:00Z"
  parseDatetime
    | .str "2026-01-01T00:00:00Z" => .ok newYear
    | .str "2026-01-01T00:00:00+00:00" => .ok newYear
    | _ => .error ⟨"ValidationError", "Input should be a valid datetime"⟩
  parseUUID
    | .str _ => .ok 0x2a
    | _ => .error ⟨"ValidationError", "Input should be a valid UUID"⟩
  dumpFields _ _ := .empty
  validateFields _ _ := .ok ()
  correlationId _ _ := none

theorem shopPydantic_readsBack (c : EventClass) : ReadsBack shopPydantic (orderEvent c) where
  uuid := rfl
  dumped := rfl
  rfc3339 := by
    have hiso : newYear.orUtc.isoformat = "2026-01-01T00:00:00+00:00" := by decide +kernel
    change shopPydantic.parseDatetime (.str newYear.orUtc.isoformat) = _
    rw [hiso]
    rfl
  fields _ _ := rfl
  names := ⟨rfl, rfl, rfl⟩

theorem decode_own_class_rushOrder :
    JsonEventSerializer.deserialize shopPydantic shopForest.classes ⟨0, newYear⟩
        (JsonEventSerializer.serialize shopPydantic (orderEvent rushOrder)) =
          .ok (orderEvent rushOrder) ∧
      (CloudEventsJsonSerializer.serialize shopPydantic { source := "/shop" } none
          (orderEvent rushOrder) >>=
        CloudEventsJsonSerializer.deserialize shopPydantic shopForest.classes ⟨0, newYear⟩) =
          .ok (orderEvent rushOrder) :=
  (decode_own_class_iff shopPydantic { source := "/shop" } none ⟨0, newYear⟩ shopForest
    shopForest_distinctNames (orderEvent rushOrder) (by decide)
    (shopPydantic_readsBack rushOrder)).mpr ⟨by decide, by decide, rfl⟩

/-- An order that is placed comes back as a rush order, from either serializer. -/
theorem order_decoded_as_rushOrder :
    shopForest.DistinctNames ∧ orderPlaced ∈ shopForest.classes ∧ orderPlaced ≠ rushOrder ∧
      (JsonEventSerializer.deserialize shopPydantic shopForest.classes ⟨0, newYear⟩
        (JsonEventSerializer.serialize shopPydantic (orderEvent orderPlaced))).toOption.map
          (·.cls) = some rushOrder ∧
      (CloudEventsJsonSerializer.serialize shopPydantic { source := "/shop" } none
          (orderEvent orderPlaced) >>=
        CloudEventsJsonSerializer.deserialize shopPydantic shopForest.classes
          ⟨0, newYear⟩).toOption.map (·.cls) = some rushOrder := by
  refine ⟨shopForest_distinctNames, by decide, by decide, ?_, ?_⟩
  · decide +kernel
  · decide +kernel

end Varco
