import Mathlib.Control.Monad.Writer
import Varco.Event.DeadLetterQueue
import Varco.Resilience.Retry

/-!
# Event handlers with retries

The wrapper that `_make_retry_wrapper` of `varco_core.event.consumer` puts around a handler: it
skips an event that the deduplicator knows, invokes the handler until it returns, and gives an event
up to the dead letter queue.

One delivery is a program over the calls that it makes, `Delivery`. What the handler, the
deduplicator, the dead letter queue, the clock and the back-off sleep answer is a script. A
cancellation of the task arrives as an answer.
-/

namespace Varco

/-- A call that a delivery makes, with its answer. -/
inductive DeliveryCall (E W : Type)
  | isDuplicate (eventId : UUID) (answer : Except Exc Bool)
  | handler (event : E) (answer : Except Exc Unit)
  | markSeen (eventId : UUID) (answer : Except Exc Unit)
  | sleep (delay : ℚ) (answer : Except Exc Unit)
  | push (entry : DeadLetter E W) (answer : Except Exc Unit)

abbrev Delivery (E W α : Type) := ExceptT Exc (Writer (List (DeliveryCall E W))) α

/-- What `_make_retry_wrapper` is called with. -/
structure RetryWrapper (E : Type) where
  handlerName : String
  policy : Option RetryPolicy
  hasDlq : Bool
  channel : String
  hasDeduplicator : Bool
  eventId : E → UUID

/-- What the collaborators of one delivery answer, where `attempt` counts from 1. -/
structure DeliveryScript where
  isDuplicate : Except Exc Bool
  handler : (attempt : ℕ) → Except Exc Unit
  markSeen : (attempt : ℕ) → Except Exc Unit
  sleep : (attempt : ℕ) → Except Exc Unit
  uniform : (attempt : ℕ) → ℚ
  failedAt : (attempt : ℕ) → Instant
  entryId : UUID
  entryTime : Instant
  currentTenant : Option String
  push : Except Exc Unit

variable {E W : Type}

namespace Delivery

variable {α β : Type}

def outcome (x : Delivery E W α) : Except Exc α × List (DeliveryCall E W) := WriterT.run x.run

def call (c : Except Exc α → DeliveryCall E W) (answer : Except Exc α) : Delivery E W α :=
  ExceptT.mk (WriterT.mk (answer, [c answer]))

/-- `try: body`, with what it raised as a value. -/
def attempt (body : Delivery E W α) : Delivery E W (Except Exc α) :=
  ExceptT.mk (WriterT.mk (.ok body.outcome.1, body.outcome.2))

@[simp] theorem outcome_call (c : Except Exc α → DeliveryCall E W) (answer : Except Exc α) :
    (call c answer).outcome = (answer, [c answer]) := rfl

@[simp] theorem outcome_attempt (body : Delivery E W α) :
    (attempt body).outcome = (.ok body.outcome.1, body.outcome.2) := rfl

theorem outcome_bind (x : Delivery E W α) (f : α → Delivery E W β) :
    (x >>= f).outcome =
      ((WriterT.run (ExceptT.bindCont f x.outcome.1)).1,
        x.outcome.2 ++ (WriterT.run (ExceptT.bindCont f x.outcome.1)).2) := rfl

theorem outcome_bind_ok {x : Delivery E W α} {f : α → Delivery E W β} {a : α}
    {calls : List (DeliveryCall E W)} (h : x.outcome = (.ok a, calls)) :
    (x >>= f).outcome = ((f a).outcome.1, calls ++ (f a).outcome.2) := by
  rw [outcome_bind, h]
  rfl

theorem outcome_bind_error {x : Delivery E W α} {f : α → Delivery E W β} {exc : Exc}
    {calls : List (DeliveryCall E W)} (h : x.outcome = (.error exc, calls)) :
    (x >>= f).outcome = (.error exc, calls) := by
  rw [outcome_bind, h]
  exact Prod.ext rfl (List.append_nil calls)

end Delivery

/-- `DeadLetterEntry.from_failure` -/
def DeadLetter.fromFailure (event : E) (channel handlerName : String) (lastExc : Exc)
    (attempts : ℕ) (firstFailedAt : Instant) (entryId : UUID) (now : Instant) : DeadLetter E W :=
  { entryId, event := some event, channel, handlerName, errorType := lastExc.typeName,
    errorMessage := lastExc.message, attempts, firstFailedAt, lastFailedAt := now }

namespace RetryWrapper

variable (w : RetryWrapper E) (script : DeliveryScript) (event : E)

def maxAttempts : ℕ :=
  match w.policy with
  | some policy => policy.maxAttempts
  | none => 1

/-- The `except` clause does not raise `exc` again. -/
def catches (exc : Exc) : Bool :=
  match w.policy with
  | some policy => policy.isRetryable exc
  | none => true

/-- `policy.compute_delay(attempt - 1) if policy is not None else 0.0` -/
def delay (attempt : ℕ) : Except Exc ℚ :=
  match w.policy with
  | some policy => (policy.computeDelay (attempt - 1) (script.uniform attempt)).mapError .error
  | none => .ok 0

/-- The body of the `try`. -/
def handle (attempt : ℕ) : Delivery E W Unit := do
  Delivery.call (.handler event) (script.handler attempt)
  if w.hasDeduplicator then
    Delivery.call (.markSeen (w.eventId event)) (script.markSeen attempt)

def backOff (attempt : ℕ) : Delivery E W Unit :=
  match w.delay script attempt with
  | .ok delay => Delivery.call (.sleep delay) (script.sleep attempt)
  | .error exc => throw exc

def exhausted (lastExc : Option Exc) (firstFailedAt : Option Instant) : Delivery E W Unit :=
  match lastExc, firstFailedAt with
  | some lastExc, some firstFailedAt =>
    if w.hasDlq then
      let entry := DeadLetter.fromFailure event w.channel w.handlerName lastExc w.maxAttempts
        firstFailedAt script.entryId script.entryTime
      let entry := match script.currentTenant with
        | some tenantId => { entry with tenantId := some tenantId }
        | none => entry
      Delivery.call (.push entry) script.push
    else throw (.error (retryExhaustedError w.handlerName w.maxAttempts lastExc))
  | _, _ => throw (.error ⟨"AssertionError", ""⟩)

/-- The loop over the attempts: `left` of them from `attempt` on, and what comes after it. -/
def attempts (left attempt : ℕ) (lastExc : Option Exc) (firstFailedAt : Option Instant) :
    Delivery E W Unit :=
  match left with
  | 0 => w.exhausted script event lastExc firstFailedAt
  | left + 1 => do
    match ← Delivery.attempt (w.handle script event attempt) with
    | .ok () => return
    | .error exc =>
      if !w.catches exc then throw exc
      let firstFailedAt := firstFailedAt.getD (script.failedAt attempt)
      if attempt < w.maxAttempts then w.backOff script attempt
      attempts left (attempt + 1) (some exc) (some firstFailedAt)

/-- `wrapper(event)` -/
def wrapper : Delivery E W Unit := do
  if w.hasDeduplicator then
    if ← Delivery.call (.isDuplicate (w.eventId event)) script.isDuplicate then
      return
  w.attempts script event w.maxAttempts 1 none none

def deliver : Except Exc Unit × List (DeliveryCall E W) := (w.wrapper script event).outcome

end RetryWrapper

end Varco
