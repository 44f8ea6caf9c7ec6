import Varco.Foundations.Prog
import Varco.Foundations.Text
import Varco.Idempotency.Contract

/-!
# The idempotency middleware

`IdempotencyMiddleware` of `varco_fastapi.middleware.idempotency`, and `compute_fingerprint` of
`varco_core.idempotency.fingerprint`. `dispatch` is a program: its commands are the awaits, on the
request body, the store, the downstream application and the body of its response, and the reading of
the clock for the record.

The downstream application may answer anything: a response with any headers, a body in any chunks,
an exception in place of the response or in the middle of its body. What the middleware returns is
the downstream response itself, unread, or a `Response` that it builds; for the latter the arguments
of the constructor are kept.
-/

namespace Varco

/-! ## Requests and responses -/

/-- Headers as pairs in order; the names are in lower case, and may come more than once. -/
abbrev Headers := List (String × String)

namespace Headers

/-- `headers.get(name)`: the first header of that name, in any case. -/
def get (h : Headers) (name : String) : Option String := h.lookup (pyLower name)

/-- `dict(headers)`: of a name that comes more than once, the first value. -/
def toDict (h : Headers) : Dict String String :=
  h.foldl (fun d p => if (d.get? p.1).isSome then d else d.set p.1 p.2) .empty

/-- A dictionary comprehension over `headers.items()`: of a name that comes more than once, the last
value. -/
def ofItems (items : List (String × String)) : Dict String String :=
  items.foldl (fun d p => d.set p.1 p.2) .empty

end Headers

/-- The request, up to its body. -/
structure Request where
  method : String
  path : String
  query : String := ""
  headers : Headers := []

/-- `AuthContext`, through what the middleware reads of it. -/
structure AuthContext where
  userId : Option String := none

/-- The context variables of the request: `current_tenant()` and `get_auth_context_or_none()`. -/
structure RequestContext where
  tenant : Option String := none
  auth : Option AuthContext := none

/-- The response of the downstream application, up to its body. -/
structure Response where
  statusCode : ℤ
  headers : Headers := []
  mediaType : Option String := none
  deriving DecidableEq

/-- A chunk of a body. -/
inductive Chunk
  | bytes (b : Bytes)
  | memoryview (b : Bytes)
  | str (codePoints : List ℕ)
  deriving DecidableEq

def coerceChunkToBytes : Chunk → Except PyException Bytes
  | .bytes b => .ok b
  | .memoryview b => .ok b
  | .str codePoints => encodeUtf8 codePoints

/-- `b"".join(...)` of the chunks. -/
def joinChunks (chunks : List Chunk) : Except PyException Bytes :=
  (chunks.mapM coerceChunkToBytes).map List.flatten

/-- What the middleware returns. -/
inductive Reply
  /-- The downstream response, with its body unread. -/
  | downstream (response : Response)
  /-- `Response(content=..., status_code=..., headers=..., media_type=...)` -/
  | built (content : Bytes) (statusCode : ℤ) (headers : Dict String String)
      (mediaType : Option String)
  deriving DecidableEq

/-! ## Headers that are replayed -/

def alwaysReplayHeaders : List String := ["content-type", "location", "content-language"]

def neverReplayHeaders : List String :=
  ["date", "set-cookie", "cache-control", "age", "expires", "etag", "server", "content-length",
    "x-request-id", "x-correlation-id"]

def filteredReplayHeaders (headers : Dict String String) (allowlist : List String) :
    List (String × String) :=
  let allowLower := allowlist.map pyLower
  headers.entries.filter fun p =>
    !neverReplayHeaders.contains (pyLower p.1) &&
      (alwaysReplayHeaders.contains (pyLower p.1) || allowLower.contains (pyLower p.1))

/-! ## The fingerprint -/

/-- The library functions under the fingerprint: `hashlib.sha256(...).hexdigest()`, and from
`urllib.parse` `parse_qsl(..., keep_blank_values=True)` and `urlencode`. -/
structure FingerprintLib where
  sha256 : Bytes → String
  parseQsl : String → List (String × String)
  urlencode : List (String × String) → String

def pairLe (p q : String × String) : Bool := p.1 < q.1 || p.1 = q.1 && p.2 ≤ q.2

def FingerprintLib.normalizeQuery (lib : FingerprintLib) (query : String) : String :=
  if query = "" then "" else lib.urlencode ((lib.parseQsl query).mergeSort pairLe)

def FingerprintLib.computeFingerprint (lib : FingerprintLib) (method path query : String)
    (body : Bytes) : String :=
  let material := method ++ "\n" ++ path ++ "\n" ++ lib.normalizeQuery query ++ "\n" ++
    lib.sha256 body
  lib.sha256 (material.toList.flatMap String.utf8EncodeChar)

/-! ## Commands -/

/-- What `dispatch` awaits, and its reading of the clock. -/
inductive HttpCmd
  /-- `request.body()` -/
  | body
  /-- `store.reserve(key, fingerprint, ttl=ttl)` -/
  | reserve (key fingerprint : String) (ttl : PyFloat)
  /-- `store.get(key)` -/
  | get (key : String)
  /-- `store.complete(key, record)` -/
  | complete (key : String) (record : IdempotencyRecord)
  /-- `store.release(key)` -/
  | release (key : String)
  /-- `call_next(request)` -/
  | callNext
  /-- The loop over `body_iterator`. -/
  | drain
  /-- `datetime.now(UTC)` -/
  | now

/-- What a command answers. A body that is drained is the chunks that came, and what was raised
after them. -/
abbrev HttpCmd.Res : HttpCmd → Type
  | .body => Except Exc Bytes
  | .reserve .. => Except Exc ReserveOutcome
  | .get _ => Except Exc (Option IdempotencyRecord)
  | .complete .. => Except Exc Unit
  | .release _ => Except Exc Unit
  | .callNext => Except Exc Response
  | .drain => List Chunk × Option Exc
  | .now => Instant

abbrev Handler (α : Type) := ExceptT Exc (Prog HttpCmd HttpCmd.Res) α

def Handler.ofExcept {α : Type} : Except PyException α → Handler α
  | .ok a => pure a
  | .error e => throw (.error e)

def drained : List Chunk × Option Exc → Except Exc (List Chunk)
  | (chunks, none) => .ok chunks
  | (_, some e) => .error e

/-! ## The middleware -/

/-- `IdempotencyKeyInvalidError(detail)` -/
def keyInvalidError (detail : String) : PyException :=
  ⟨"IdempotencyKeyInvalidError", "Invalid Idempotency-Key: " ++ detail⟩

/-- `IdempotencyKeyConflictError(key)` -/
def keyConflictError (key : String) : PyException :=
  ⟨"IdempotencyKeyConflictError",
    "A request with Idempotency-Key " ++ pyRepr key ++ " is already in flight."⟩

/-- `IdempotencyFingerprintMismatchError(key)` -/
def fingerprintMismatchError (key : String) : PyException :=
  ⟨"IdempotencyFingerprintMismatchError",
    "Validation error (field: 'Idempotency-Key'): Idempotency-Key " ++ pyRepr key ++
      " was already used with a different request (method/path/query/body do not match)."⟩

def keyHeader : String := "Idempotency-Key"

def replayedHeader : String := "Idempotency-Replayed"

/-- The configuration of the middleware. -/
structure IdempotencyMiddleware where
  methods : List String := ["POST", "PATCH"]
  requireKey : Bool := false
  ttl : PyFloat := ⟨86400, "86400.0"⟩
  maxKeyLength : ℤ := 255
  maxStoredBodyBytes : ℤ := 1048576
  replayHeaderAllowlist : List String := []
  tenancyEnabled : Bool := false
  includePaths : Option (List String) := none
  excludePaths : List String := []

namespace IdempotencyMiddleware

def appliesTo (mw : IdempotencyMiddleware) (request : Request) : Bool :=
  if !(mw.methods.map pyUpper).contains (pyUpper request.method) then false
  else if mw.excludePaths.any (request.path.startsWith ·) then false
  else
    match mw.includePaths with
    | some paths => paths.any (request.path.startsWith ·)
    | none => true

def currentSubject (ctx : RequestContext) : String :=
  match ctx.auth with
  | none => "-"
  | some auth => auth.userId.getD "-"

def tenantUnsetError : PyException :=
  ⟨"RuntimeError", "IdempotencyMiddleware: tenancy_enabled=True but current_tenant() is unset. " ++
    "A TENANT-scoped idempotency key is never emitted unnamespaced — wrap the request with " ++
    "`with tenant_context(tenant_id): ...` (typically done by " ++
    "RequestContextMiddleware/TenantResolutionMiddleware)."⟩

def scopeKey (mw : IdempotencyMiddleware) (ctx : RequestContext) (key : String) :
    Except PyException String :=
  if mw.tenancyEnabled then
    match ctx.tenant with
    | none => .error tenantUnsetError
    | some tenant =>
      .ok ("idempotency:" ++ tenant ++ ":" ++ currentSubject ctx ++ ":" ++ key)
  else if currentSubject ctx = "-" then .ok key
  else .ok ("idempotency:-:" ++ currentSubject ctx ++ ":" ++ key)

/-- The response has a length, and it is not over the ceiling. A length that is no number counts as
over it. -/
def captures (mw : IdempotencyMiddleware) (response : Response) : Bool :=
  match response.headers.get "content-length" with
  | none => false
  | some header => (pyInt header).getD (mw.maxStoredBodyBytes + 1) ≤ mw.maxStoredBodyBytes

def record (mw : IdempotencyMiddleware) (response : Response) (body : Bytes) (fingerprint : String)
    (createdAt : Instant) : IdempotencyRecord where
  status := response.statusCode
  body := body
  headers := filteredReplayHeaders response.headers.toDict mw.replayHeaderAllowlist
  fingerprint := fingerprint
  createdAt := createdAt

def rebuilt (response : Response) (body : Bytes) : Reply :=
  let rebuiltHeaders := Headers.ofItems (response.headers.filter (·.1 ≠ "content-length"))
  .built body response.statusCode rebuiltHeaders response.mediaType

def executeAndCapture (mw : IdempotencyMiddleware) (storageKey fingerprint : String) :
    Handler Reply := do
  let response ← Prog.await .callNext id
  if mw.captures response then
    let chunks ← Prog.await .drain drained
    let body ← Handler.ofExcept (joinChunks chunks)
    let createdAt ← Prog.call .now
    Prog.await (.complete storageKey (mw.record response body fingerprint createdAt)) id
    return rebuilt response body
  else
    Prog.await (.release storageKey) id
    return .downstream response

def replay (record : IdempotencyRecord) : Reply :=
  .built record.body record.status ((Headers.ofItems record.headers).set replayedHeader "true") none

def proceed (mw : IdempotencyMiddleware) (rawKey storageKey fingerprint : String) :
    ReserveOutcome → Handler Reply
  | .inFlight => throw (.error (keyConflictError rawKey))
  | .replay => do
    match ← Prog.await (.get storageKey) id with
    | none => mw.executeAndCapture storageKey fingerprint
    | some record =>
      if record.fingerprint ≠ fingerprint then throw (.error (fingerprintMismatchError rawKey))
      else return replay record
  | .acquired => mw.executeAndCapture storageKey fingerprint

def checkKey (mw : IdempotencyMiddleware) (rawKey : String) : Except PyException Unit :=
  if rawKey = "" ∨ mw.maxKeyLength < rawKey.length then
    .error (keyInvalidError ("Idempotency-Key must be non-empty and at most " ++
      toString mw.maxKeyLength ++ " characters (got length " ++ toString rawKey.length ++ ")."))
  else .ok ()

def handleKey (mw : IdempotencyMiddleware) (lib : FingerprintLib) (request : Request)
    (ctx : RequestContext) (rawKey : String) : Handler Reply := do
  Handler.ofExcept (mw.checkKey rawKey)
  let body ← Prog.await .body id
  let fingerprint := lib.computeFingerprint request.method request.path request.query body
  let storageKey ← Handler.ofExcept (mw.scopeKey ctx rawKey)
  let outcome ← Prog.await (.reserve storageKey fingerprint mw.ttl) id
  mw.proceed rawKey storageKey fingerprint outcome

def passThrough : Handler Reply := do
  let response ← Prog.await .callNext id
  return .downstream response

def dispatch (mw : IdempotencyMiddleware) (lib : FingerprintLib) (request : Request)
    (ctx : RequestContext) : Handler Reply :=
  if !mw.appliesTo request then passThrough
  else
    match request.headers.get keyHeader with
    | none =>
      if mw.requireKey then throw (.error (keyInvalidError "Idempotency-Key header is required."))
      else passThrough
    | some rawKey => mw.handleKey lib request ctx rawKey

end IdempotencyMiddleware

/-- What the environment decides at an await: the time, what is raised and when, and what comes from
the client and from downstream. -/
structure HttpChoice where
  clock : ℚ := 0
  interrupt : Interrupt := .none
  raised : Exc := .cancelled
  body : Except Exc Bytes := .ok []
  response : Except Exc Response := .ok { statusCode := 200 }
  drain : List Chunk × Option Exc := ([], none)
  now : Instant := 0

namespace HttpChoice

variable {σ α : Type}

/-- An await of a store call that would answer `r` and leave `s'` behind. -/
def await (x : HttpChoice) (s : σ) (r : Except PyException α) (s' : σ) : Except Exc α × σ :=
  match x.interrupt with
  | .none => (r.mapError .error, s')
  | .before => (.error x.raised, s)
  | .after => (.error x.raised, s')

/-- The call is carried out unless something is raised before it. -/
theorem await_snd (x : HttpChoice) (s : σ) (r : Except PyException α) (s' : σ) :
    (x.await s r s').2 = if x.interrupt = .before then s else s' := by
  unfold await
  cases x.interrupt <;> simp

/-- An answer is the answer of a call that was carried out. -/
theorem await_eq_ok {x : HttpChoice} {s s' s'' : σ} {r : Except PyException α} {a : α}
    (h : x.await s r s' = (.ok a, s'')) : r = .ok a ∧ s'' = s' := by
  unfold await at h
  cases hx : x.interrupt with
  | none =>
    cases r with
    | ok b =>
      simp only [hx, Except.mapError, Prod.mk.injEq, Except.ok.injEq] at h
      exact ⟨by rw [h.1], h.2.symm⟩
    | error e => simp [hx, Except.mapError] at h
  | before => simp [hx] at h
  | after => simp [hx] at h

end HttpChoice

def AbstractIdempotencyStore.exec {σ : Type} (store : AbstractIdempotencyStore σ) (x : HttpChoice)
    (c : HttpCmd) (s : σ) : c.Res × σ :=
  match c with
  | .body => (x.body, s)
  | .reserve key fp ttl =>
    let out := store.reserve s x.clock key fp ttl
    x.await s out.1 out.2
  | .get key => x.await s (.ok (store.get s x.clock key)) s
  | .complete key record => x.await s (.ok ()) (store.complete s x.clock key record)
  | .release key => x.await s (.ok ()) (store.release s key)
  | .callNext => (x.response, s)
  | .drain => (x.drain, s)
  | .now => (x.now, s)

end Varco
