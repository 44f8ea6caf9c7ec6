import Varco.Event.DeadLetterQueue
import Varco.Foundations.Tasks
import Varco.Resilience.Retry

/-!
# The webhook dispatcher

`WebhookDispatcher` of `varco_core.webhook.dispatcher`, with a repository that hands out copies, as
`InMemoryWebhookSubscriptionRepository` does, and raises nothing. Any number of calls of
`_on_trigger` run beside each other; a call is suspended while it sends, saves and pushes, and what
it has loaded is a copy that is saved as a whole.

What an attempt ends with is given from outside: the headers, the check of the target and the
transport come down to a status code or an exception. The sleep before an attempt is part of the
await of the attempt.
-/

namespace Varco

/-! ## Subscriptions and signers -/

/-- `WebhookSubscription`, without its headers and the times of its bookkeeping. -/
structure WebhookSubscription where
  tenantId : String
  targetUrl : String
  eventPatterns : List String := []
  activeSecrets : List String := []
  status : String := "ACTIVE"
  consecutiveFailures : ℤ := 0
  signer : String := "standard_webhooks"
  deriving DecidableEq

/-- `WebhookTriggerEvent`: the tenant of its payload, and what `json.dumps` makes of the payload. -/
structure WebhookTriggerEvent where
  matchedEventType : String
  tenantId : Option String
  payloadJson : Except PyException String
  deriving DecidableEq

/-- A `WebhookSigner` that has been constructed. -/
inductive WebhookSigner
  | standardWebhooks (secrets : List String) (toleranceSeconds : PyFloat)
  | rfc9421 (secrets : List String) (keyid : String) (toleranceSeconds : PyFloat)
  deriving DecidableEq

/-- `get_signer`, with the check of the constructors. -/
def getSigner (schemeName : String) (secrets : List String) (toleranceSeconds : PyFloat) :
    Except PyException WebhookSigner :=
  if schemeName = "standard_webhooks" then
    if secrets = [] then
      .error (.valueError "StandardWebhooksSigner requires at least one secret.")
    else .ok (.standardWebhooks secrets toleranceSeconds)
  else if schemeName = "rfc9421" then
    if secrets = [] then .error (.valueError "Rfc9421Signer requires at least one secret.")
    else .ok (.rfc9421 secrets "default" toleranceSeconds)
  else .error (.valueError s!"Unknown webhook signing scheme: {pyRepr schemeName}")

/-- A signer can be built of a known scheme and at least one secret. -/
theorem getSigner_isOk_iff {schemeName : String} {secrets : List String}
    {toleranceSeconds : PyFloat} :
    (∃ signer, getSigner schemeName secrets toleranceSeconds = .ok signer) ↔
      (schemeName = "standard_webhooks" ∨ schemeName = "rfc9421") ∧ secrets ≠ [] := by
  unfold getSigner
  split_ifs with h₁ h₂ h₃ h₄ <;> simp_all

namespace WebhookDispatcher

/-! ## The repository -/

/-- The repository: the subscriptions by their `pk`. -/
abbrev Rows : Type := Dict UUID WebhookSubscription

/-- What the dispatcher is made with. `fnmatch(name, pattern)` is that of Python. -/
structure Config where
  retryPolicy : RetryPolicy
  disableAfterFailures : ℤ
  signatureToleranceSeconds : PyFloat
  hasDlq : Bool
  fnmatch : String → String → Bool

/-- The row is one that `find_active_matching` returns. -/
def isMatch (cfg : Config) (event : WebhookTriggerEvent) (row : WebhookSubscription) : Bool :=
  decide (row.status = "ACTIVE") &&
    (event.tenantId.all fun tenantId => row.tenantId = tenantId) &&
    row.eventPatterns.any (cfg.fnmatch event.matchedEventType)

def findActiveMatching (cfg : Config) (event : WebhookTriggerEvent) (rows : Rows) :
    List (UUID × WebhookSubscription) :=
  rows.entries.filter fun entry => isMatch cfg event entry.2

/-- What a call does to the outside for one subscription: a receiver has answered with a status 2xx,
the success or the failure has been saved, an entry has been pushed. -/
inductive Effect
  | delivered
  | succeeded
  | failed
  | deadLettered (entry : DeadLetter WebhookTriggerEvent Bytes)

/-- The variables of `_on_trigger`, and what it has done for which subscription. -/
structure Call where
  event : WebhookTriggerEvent
  subscriptions : List (UUID × WebhookSubscription)
  left : List (UUID × WebhookSubscription)
  effects : List (UUID × Effect) := []

/-- The variables of `_deliver_one`. The subscription is kept as it was loaded. -/
structure Delivery where
  pk : UUID
  subscription : WebhookSubscription
  webhookId : UUID
  signer : WebhookSigner
  firstFailedAt : Instant
  attemptIndex : ℕ := 0
  lastExc : Option PyException := none

/-- Where a call is suspended. -/
inductive Phase
  | idle
  /-- An attempt has been made. -/
  | sending (c : Call) (d : Delivery)
  /-- `_on_success` saves, or `_on_exhaustion`, if it `failed`. -/
  | saving (c : Call) (d : Delivery) (failed : Bool)
  /-- `_on_exhaustion` pushes. -/
  | pushing (c : Call)
  | returned (c : Call)
  | raised (c : Call) (exc : PyException)

/-- What the clock and the random numbers give: `uuid.uuid4()`, the time, and
`random.uniform(0.5, 1.5)`. -/
structure Draw where
  webhookId : UUID
  time : Instant
  uniform : ℚ

/-- What a call is made with, or what its await has ended with. -/
inductive Answer
  | trigger (event : WebhookTriggerEvent)
  | sent (response : Except PyException ℤ)
  | saved
  | pushed (result : Except PyException Unit)

/-- The repository, and whether each save was that of a failure. -/
structure State where
  rows : Rows
  saves : List (UUID × Bool) := []

def onSuccess (subscription : WebhookSubscription) : WebhookSubscription :=
  { subscription with consecutiveFailures := 0 }

def onExhaustion (cfg : Config) (subscription : WebhookSubscription) : WebhookSubscription :=
  let subscription := { subscription with
    consecutiveFailures := subscription.consecutiveFailures + 1 }
  if cfg.disableAfterFailures ≤ subscription.consecutiveFailures then
    { subscription with status := "DISABLED" }
  else subscription

def ended (cfg : Config) (failed : Bool) (subscription : WebhookSubscription) :
    WebhookSubscription :=
  if failed then onExhaustion cfg subscription else onSuccess subscription

/-- The entry that `_on_exhaustion` pushes. -/
def deadLetter (cfg : Config) (draw : Draw) (event : WebhookTriggerEvent) (d : Delivery) :
    DeadLetter WebhookTriggerEvent Bytes :=
  { entryId := draw.webhookId
    event := some event
    channel := "webhook:" ++ d.webhookId.str
    handlerName := "WebhookDispatcher._deliver_one"
    errorType := (d.lastExc.map PyException.typeName).getD "Unknown"
    errorMessage := (d.lastExc.map PyException.message).getD ""
    attempts := cfg.retryPolicy.maxAttempts
    firstFailedAt := d.firstFailedAt
    lastFailedAt := draw.time
    tenantId := some d.subscription.tenantId }

def deliverNext (cfg : Config) (draw : Draw) (c : Call) : Phase :=
  match c.left with
  | [] => .returned c
  | (pk, subscription) :: left =>
    match c.event.payloadJson, getSigner subscription.signer subscription.activeSecrets
        cfg.signatureToleranceSeconds with
    | .error exc, _ => .raised c exc
    | .ok _, .error exc => .raised c exc
    | .ok _, .ok signer =>
      .sending { c with left }
        { pk, subscription, webhookId := draw.webhookId, signer, firstFailedAt := draw.time }

/-- `_on_trigger`, up to the first attempt. -/
def onTrigger (cfg : Config) (draw : Draw) (event : WebhookTriggerEvent) (rows : Rows) : Phase :=
  let subscriptions := findActiveMatching cfg event rows
  deliverNext cfg draw { event, subscriptions, left := subscriptions }

/-- `200 <= response.status_code < 300` -/
def isDelivered : Except PyException ℤ → Bool
  | .ok status => 200 ≤ status && status < 300
  | .error _ => false

/-- What the attempt leaves in `last_exc`. -/
def attemptExc : Except PyException ℤ → PyException
  | .ok status => ⟨"RuntimeError", s!"Webhook receiver returned HTTP {status}."⟩
  | .error exc => exc

def sent (cfg : Config) (draw : Draw) (response : Except PyException ℤ) (c : Call) (d : Delivery) :
    Phase :=
  if isDelivered response then
    let c := { c with effects := c.effects ++ [(d.pk, .delivered)] }
    if d.subscription.consecutiveFailures ≠ 0 then
      .saving c d false
    else deliverNext cfg draw c
  else
    let d := { d with lastExc := some (attemptExc response) }
    if d.attemptIndex + 1 < cfg.retryPolicy.maxAttempts then
      match cfg.retryPolicy.computeDelay d.attemptIndex draw.uniform with
      | .ok _ => .sending c { d with attemptIndex := d.attemptIndex + 1 }
      | .error exc => .raised c exc
    else .saving c d true

def saved (cfg : Config) (draw : Draw) (c : Call) (d : Delivery) (failed : Bool) : Phase :=
  let effect := if failed then Effect.failed else Effect.succeeded
  let c := { c with effects := c.effects ++ [(d.pk, effect)] }
  if failed && cfg.hasDlq then
    .pushing { c with
      effects := c.effects ++ [(d.pk, .deadLettered (deadLetter cfg draw c.event d))] }
  else deliverNext cfg draw c

def next (cfg : Config) (a : Draw × Answer) (s : State) (p : Phase) : Option (State × Phase) :=
  match a.2, p with
  | .trigger event, .idle => some (s, onTrigger cfg a.1 event s.rows)
  | .sent response, .sending c d => some (s, sent cfg a.1 response c d)
  | .saved, .saving c d failed =>
    some ({
      rows := s.rows.set d.pk (ended cfg failed d.subscription)
      saves := s.saves ++ [(d.pk, failed)] }, saved cfg a.1 c d failed)
  | .pushed _, .pushing c => some (s, deliverNext cfg a.1 c)
  | _, _ => none

abbrev Calls (ι : Type) : Type := Tasks ι State Phase

def fresh (ι : Type) (rows : Rows) : Calls ι := ⟨{ rows }, fun _ => .idle⟩

abbrev Step {ι : Type} [DecidableEq ι] (cfg : Config) :
    Calls ι → ι × Draw × Answer → Calls ι → Prop :=
  Tasks.Step (next cfg)

end WebhookDispatcher

end Varco
