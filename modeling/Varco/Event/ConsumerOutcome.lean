import Varco.Event.Consumer

/-!
# The outcome of a delivery

A delivery should end in one way: its handler has returned, an exception or the cancellation reaches
the bus, or the event is in the dead letter queue. `one_outcome_iff` says for which answers of the
collaborators that is so. It is not so where the `except` clause catches what it was not meant for:
a cancellation, where there is no policy, and an exception of `mark_seen`, after the handler has
returned.
-/

namespace Varco

open List Delivery

variable {E W : Type}

/-! ## What the calls of a delivery show -/

namespace DeliveryCall

def isHandler : DeliveryCall E W → Bool
  | .handler .. => true
  | _ => false

def isHandled : DeliveryCall E W → Bool
  | .handler _ (.ok ()) => true
  | _ => false

/-- The deduplicator knows the event: its handler has returned in an earlier delivery. -/
def isKnown : DeliveryCall E W → Bool
  | .isDuplicate _ (.ok true) => true
  | _ => false

def isPush : DeliveryCall E W → Bool
  | .push .. => true
  | _ => false

def pushed : DeliveryCall E W → Option (DeadLetter E W)
  | .push entry (.ok ()) => some entry
  | _ => none

def isCancelled : DeliveryCall E W → Bool
  | .isDuplicate _ (.error .cancelled) => true
  | .handler _ (.error .cancelled) => true
  | .markSeen _ (.error .cancelled) => true
  | .sleep _ (.error .cancelled) => true
  | .push _ (.error .cancelled) => true
  | _ => false

/-- The delivery goes on after the call. -/
structure Passes (c : DeliveryCall E W) : Prop where
  handled : c.isHandled = false
  known : c.isKnown = false
  push : c.isPush = false
  cancelled : c.isCancelled = false

theorem Passes.pushed {c : DeliveryCall E W} (h : c.Passes) : c.pushed = none := by
  cases c with
  | push entry answer => cases h.push
  | _ => rfl

end DeliveryCall

def EndsHandled (o : Except Exc Unit × List (DeliveryCall E W)) : Prop :=
  o.1 = .ok () ∧ ∃ c ∈ o.2, c.isHandled = true ∨ c.isKnown = true

def EndsRaised (o : Except Exc Unit × List (DeliveryCall E W)) : Prop := ∃ exc, o.1 = .error exc

/-- The delivery ends with one entry for the event in the dead letter queue. -/
def EndsDeadLettered (event : E) (o : Except Exc Unit × List (DeliveryCall E W)) : Prop :=
  ∃ entry, o.2.filterMap DeliveryCall.pushed = [entry] ∧ entry.event = some event

def ExactlyOne (p q r : Prop) : Prop := (p ∧ ¬q ∧ ¬r) ∨ (¬p ∧ q ∧ ¬r) ∨ (¬p ∧ ¬q ∧ r)

/-- What is asked of a delivery that may invoke its handler `limit` times. -/
structure OneOutcome (limit : ℕ) (event : E) (o : Except Exc Unit × List (DeliveryCall E W)) :
    Prop where
  one : ExactlyOne (EndsHandled o) (EndsRaised o) (EndsDeadLettered event o)
  limit : o.2.countP DeliveryCall.isHandler ≤ limit
  never_again : o.2.Pairwise fun c c' => c.isHandled = true → c'.isHandler = false
  not_dead : (∃ c ∈ o.2, c.isHandled = true) → ∀ c ∈ o.2, c.isPush = false
  cancelled_last : o.2.Pairwise fun c _ => c.isCancelled = false
  cancelled : (∃ c ∈ o.2, c.isCancelled = true) → o.1 = .error .cancelled

/-- Calls that the delivery goes on after change nothing but the number of invocations. -/
theorem oneOutcome_append {limit : ℕ} {event : E} {before after : List (DeliveryCall E W)}
    {r : Except Exc Unit} (h : ∀ c ∈ before, c.Passes) :
    OneOutcome (limit + before.countP DeliveryCall.isHandler) event (r, before ++ after) ↔
      OneOutcome limit event (r, after) := by
  have hhandled : EndsHandled (r, before ++ after) ↔ EndsHandled (r, after) := by
    refine and_congr Iff.rfl ⟨?_, ?_⟩
    · rintro ⟨c, hc, hc'⟩
      obtain hc | hc := mem_append.mp hc
      · rw [(h c hc).handled, (h c hc).known] at hc'
        simp at hc'
      · exact ⟨c, hc, hc'⟩
    · rintro ⟨c, hc, hc'⟩
      exact ⟨c, mem_append_right _ hc, hc'⟩
  have hdead : EndsDeadLettered event (r, before ++ after) ↔ EndsDeadLettered event (r, after) := by
    have hnone : before.filterMap DeliveryCall.pushed = [] :=
      filterMap_eq_nil_iff.mpr fun c hc => (h c hc).pushed
    simp only [EndsDeadLettered, filterMap_append, hnone, nil_append]
  have hmem (p : DeliveryCall E W → Bool) (hp : ∀ c ∈ before, p c = false) :
      (∃ c ∈ before ++ after, p c = true) ↔ ∃ c ∈ after, p c = true := by
    constructor
    · rintro ⟨c, hc, hc'⟩
      obtain hc | hc := mem_append.mp hc
      · rw [hp c hc] at hc'
        cases hc'
      · exact ⟨c, hc, hc'⟩
    · rintro ⟨c, hc, hc'⟩
      exact ⟨c, mem_append_right _ hc, hc'⟩
  constructor
  · intro o
    refine ⟨by simpa only [hhandled, hdead, EndsRaised] using o.one, ?_, ?_, ?_, ?_, ?_⟩
    · have := o.limit
      simp only [countP_append] at this
      exact (by omega : after.countP DeliveryCall.isHandler ≤ limit)
    · exact (pairwise_append.mp o.never_again).2.1
    · intro hc c hc'
      exact o.not_dead ((hmem _ fun c hc => (h c hc).handled).mpr hc) c
        (mem_append_right _ hc')
    · exact (pairwise_append.mp o.cancelled_last).2.1
    · intro hc
      exact o.cancelled ((hmem _ fun c hc => (h c hc).cancelled).mpr hc)
  · intro o
    refine ⟨by simpa only [hhandled, hdead, EndsRaised] using o.one, ?_, ?_, ?_, ?_, ?_⟩
    · have := o.limit
      simp only [countP_append] at this ⊢
      omega
    · refine pairwise_append.mpr ⟨?_, o.never_again, fun c hc _ _ hc' => ?_⟩
      · refine List.Pairwise.imp_of_mem (fun hc _ _ hc' => ?_) (pairwise_of_forall
          (R := fun _ _ => True) fun _ _ => trivial)
        rw [(h _ hc).handled] at hc'
        cases hc'
      · rw [(h c hc).handled] at hc'
        cases hc'
    · intro hc c hc'
      obtain hc' | hc' := mem_append.mp hc'
      · exact (h c hc').push
      · exact o.not_dead ((hmem _ fun c hc => (h c hc).handled).mp hc) c hc'
    · refine pairwise_append.mpr ⟨?_, o.cancelled_last, fun c hc _ _ => (h c hc).cancelled⟩
      exact List.Pairwise.imp_of_mem (fun hc _ _ => (h _ hc).cancelled) (pairwise_of_forall
        (R := fun _ _ => True) fun _ _ => trivial)
    · intro hc
      exact o.cancelled ((hmem _ fun c hc => (h c hc).cancelled).mp hc)

theorem passes_of_failed {event : E} (error : PyException) (delay : ℚ) :
    ∀ c ∈ ([DeliveryCall.handler event (.error (.error error))] ++
      [DeliveryCall.sleep delay (.ok ())] : List (DeliveryCall E W)), c.Passes := by
  intro c hc
  simp only [singleton_append, mem_cons, not_mem_nil, or_false] at hc
  obtain rfl | rfl := hc <;> exact ⟨rfl, rfl, rfl, rfl⟩

theorem passes_of_new {eventId : UUID} :
    ∀ c ∈ ([.isDuplicate eventId (.ok false)] : List (DeliveryCall E W)), c.Passes := by
  intro c hc
  rw [mem_singleton.mp hc]
  exact ⟨rfl, rfl, rfl, rfl⟩

/-! ## How an attempt ends -/

namespace RetryWrapper

variable {w : RetryWrapper E} {script : DeliveryScript} {event : E} {attempt left : ℕ}
  {exc : Exc} {lastExc : Option Exc} {firstFailedAt : Option Instant}
  {calls slept : List (DeliveryCall E W)}

theorem handle_raises (h : script.handler attempt = .error exc) :
    (w.handle script event attempt : Delivery E W Unit).outcome =
      (.error exc, [.handler event (.error exc)]) := by
  refine outcome_bind_error ?_
  rw [outcome_call, h]

theorem handle_returns (h : script.handler attempt = .ok ()) (hd : w.hasDeduplicator = false) :
    (w.handle script event attempt : Delivery E W Unit).outcome =
      (.ok (), [.handler event (.ok ())]) := by
  refine (outcome_bind_ok (a := ()) (by rw [outcome_call, h])).trans ?_
  rw [hd]
  rfl

theorem handle_marks (event : E) (h : script.handler attempt = .ok ())
    (hd : w.hasDeduplicator = true) :
    (w.handle script event attempt : Delivery E W Unit).outcome =
      (script.markSeen attempt,
        [.handler event (.ok ()), .markSeen (w.eventId event) (script.markSeen attempt)]) := by
  refine (outcome_bind_ok (a := ()) (by rw [outcome_call, h])).trans ?_
  rw [hd]
  rfl

/-- The `try` body has returned. -/
theorem attempts_returns
    (h : (w.handle script event attempt : Delivery E W Unit).outcome = (.ok (), calls)) :
    (w.attempts script event (left + 1) attempt lastExc firstFailedAt).outcome =
      (.ok (), calls) := by
  refine (outcome_bind_ok (by rw [outcome_attempt, h])).trans ?_
  exact Prod.ext rfl (append_nil calls)

/-- The `except` clause raises the exception again. -/
theorem attempts_raises
    (h : (w.handle script event attempt : Delivery E W Unit).outcome = (.error exc, calls))
    (hexc : w.catches exc = false) :
    (w.attempts script event (left + 1) attempt lastExc firstFailedAt).outcome =
      (.error exc, calls) := by
  refine (outcome_bind_ok (by rw [outcome_attempt, h])).trans ?_
  dsimp only
  rw [hexc]
  exact Prod.ext rfl (append_nil calls)

section

variable (h : (w.handle script event attempt : Delivery E W Unit).outcome = (.error exc, calls))
  (hexc : w.catches exc = true)

include h hexc

theorem attempts_last (lastExc : Option Exc) (firstFailedAt : Option Instant)
    (hlast : ¬attempt < w.maxAttempts) :
    ∃ (failedAt : Instant) (o : Except Exc Unit × List (DeliveryCall E W)),
      (w.exhausted script event (some exc) (some failedAt)).outcome = o ∧
      (w.attempts script event 1 attempt lastExc firstFailedAt).outcome = (o.1, calls ++ o.2) := by
  refine ⟨firstFailedAt.getD (script.failedAt attempt), _, rfl, ?_⟩
  refine (outcome_bind_ok (by rw [outcome_attempt, h])).trans ?_
  dsimp only
  rw [hexc, if_neg hlast]
  rfl

theorem attempts_backOff_raises {e : Exc} (hlast : attempt < w.maxAttempts)
    (hs : (w.backOff script attempt : Delivery E W Unit).outcome = (.error e, slept)) :
    (w.attempts script event (left + 1) attempt lastExc firstFailedAt).outcome =
      (.error e, calls ++ slept) := by
  refine (outcome_bind_ok (by rw [outcome_attempt, h])).trans ?_
  dsimp only
  rw [hexc, Bool.not_true, if_neg Bool.false_ne_true, if_pos hlast]
  rw [outcome_bind_error hs]

/-- The back-off returns, and the next attempt follows. -/
theorem attempts_again (left : ℕ) (lastExc : Option Exc) (firstFailedAt : Option Instant)
    (hlast : attempt < w.maxAttempts)
    (hs : (w.backOff script attempt : Delivery E W Unit).outcome = (.ok (), slept)) :
    ∃ (failedAt : Instant) (o : Except Exc Unit × List (DeliveryCall E W)),
      (w.attempts script event left (attempt + 1) (some exc) (some failedAt)).outcome = o ∧
      (w.attempts script event (left + 1) attempt lastExc firstFailedAt).outcome =
        (o.1, calls ++ (slept ++ o.2)) := by
  refine ⟨firstFailedAt.getD (script.failedAt attempt), _, rfl, ?_⟩
  refine (outcome_bind_ok (by rw [outcome_attempt, h])).trans ?_
  dsimp only
  rw [hexc, Bool.not_true, if_neg Bool.false_ne_true, if_pos hlast]
  rw [outcome_bind_ok hs]

end

/-! ## The condition -/

variable (w script attempt) in
def Slept : Prop := ∃ delay, w.delay script attempt = .ok delay ∧ script.sleep attempt = .ok ()

variable (w script attempt) in
/-- The handler raises what the `except` clause catches, and the back-off returns. -/
def Retries : Prop :=
  (∃ exc, script.handler attempt = .error exc ∧ w.catches exc = true) ∧ w.Slept script attempt

variable (w script attempt) in
/-- At this attempt the `except` clause catches nothing that it was not meant for: the handler is
not cancelled where there is no policy, and if `mark_seen` raises what is caught, then it is not
cancelled, and the delivery ends with an exception nevertheless. -/
structure CatchesRightly : Prop where
  handler : script.handler attempt = .error .cancelled → w.policy ≠ none
  markSeen : ∀ exc, script.handler attempt = .ok () → w.hasDeduplicator = true →
    script.markSeen attempt = .error exc → w.catches exc = true →
      exc ≠ .cancelled ∧ if attempt < w.maxAttempts then ¬w.Slept script attempt
        else w.hasDlq = false

variable (w script) in
/-- The condition for the attempts from `attempt` on. -/
def CatchesRightlyFrom (attempt : ℕ) : Prop :=
  ∀ k, attempt ≤ k → k ≤ w.maxAttempts → (∀ j, attempt ≤ j → j < k → w.Retries script j) →
    w.CatchesRightly script k

theorem catchesRightlyFrom_iff (h : attempt ≤ w.maxAttempts) :
    w.CatchesRightlyFrom script attempt ↔ w.CatchesRightly script attempt ∧
      (w.Retries script attempt → w.CatchesRightlyFrom script (attempt + 1)) := by
  constructor
  · intro hfrom
    refine ⟨hfrom attempt le_rfl h fun j hj hj' => by omega, fun hretries k hk hk' hbefore => ?_⟩
    refine hfrom k (by omega) hk' fun j hj hj' => ?_
    obtain rfl | hj := hj.eq_or_lt
    · exact hretries
    · exact hbefore j hj hj'
  · rintro ⟨hhere, hlater⟩ k hk hk' hbefore
    obtain rfl | hk := hk.eq_or_lt
    · exact hhere
    · exact hlater (hbefore attempt le_rfl hk) k hk hk' fun j hj hj' => hbefore j (by omega) hj'

theorem catches_cancelled : w.catches .cancelled = true ↔ w.policy = none := by
  unfold catches
  cases w.policy with
  | none => simp
  | some policy => simp [RetryPolicy.isRetryable]

theorem backOff_returns (h : w.Slept script attempt) :
    ∃ delay, (w.backOff script attempt : Delivery E W Unit).outcome =
      (.ok (), [.sleep delay (.ok ())]) := by
  obtain ⟨delay, hdelay, hsleep⟩ := h
  refine ⟨delay, ?_⟩
  rw [backOff, hdelay]
  dsimp only
  rw [outcome_call, hsleep]

theorem backOff_raises (h : ¬w.Slept script attempt) :
    ∃ exc calls, (w.backOff script attempt : Delivery E W Unit).outcome = (.error exc, calls) ∧
      (calls = [] ∨ ∃ delay, calls = [.sleep delay (.error exc)]) := by
  cases hdelay : w.delay script attempt with
  | error exc =>
    refine ⟨exc, [], ?_, .inl rfl⟩
    rw [backOff, hdelay]
    rfl
  | ok delay =>
    cases hsleep : script.sleep attempt with
    | ok u => exact absurd ⟨delay, hdelay, hsleep⟩ h
    | error exc =>
      refine ⟨exc, _, ?_, .inr ⟨delay, rfl⟩⟩
      rw [backOff, hdelay]
      dsimp only
      rw [outcome_call, hsleep]

theorem exhausted_pushes (script : DeliveryScript) (event : E) (exc : Exc) (h : w.hasDlq = true)
    (failedAt : Instant) :
    ∃ entry, entry.event = some event ∧
      (w.exhausted script event (some exc) (some failedAt) : Delivery E W Unit).outcome =
        (script.push, [.push entry script.push]) := by
  rw [exhausted, if_pos h]
  dsimp only
  cases script.currentTenant with
  | none => exact ⟨_, rfl, rfl⟩
  | some tenantId => exact ⟨_, rfl, rfl⟩

theorem exhausted_raises (script : DeliveryScript) (event : E) (exc : Exc) (h : w.hasDlq = false)
    (failedAt : Instant) :
    ∃ e, (w.exhausted script event (some exc) (some failedAt) : Delivery E W Unit).outcome =
      (.error (.error e), []) := by
  rw [exhausted, if_neg (by rw [h]; exact Bool.false_ne_true)]
  exact ⟨_, rfl⟩

/-- The first call of an attempt is that of the handler. -/
theorem attempts_invokes (w : RetryWrapper E) (script : DeliveryScript) (event : E)
    (left attempt : ℕ) (lastExc : Option Exc) (firstFailedAt : Option Instant) :
    ∃ r calls, (w.attempts script event (left + 1) attempt lastExc firstFailedAt :
      Delivery E W Unit).outcome = (r, .handler event (script.handler attempt) :: calls) :=
  ⟨_, _, rfl⟩

/-- What the body of the `try` does. -/
theorem handle_cases (w : RetryWrapper E) (script : DeliveryScript) (event : E) (attempt : ℕ) :
    (script.handler attempt = .ok () ∧
      (w.hasDeduplicator = true → script.markSeen attempt = .ok ()) ∧
      ∃ calls : List (DeliveryCall E W),
        (w.handle script event attempt).outcome = (.ok (), .handler event (.ok ()) :: calls) ∧
        (calls = [] ∨ calls = [.markSeen (w.eventId event) (.ok ())])) ∨
    (∃ exc, script.handler attempt = .error exc ∧
      (w.handle script event attempt : Delivery E W Unit).outcome =
        (.error exc, [.handler event (.error exc)])) ∨
    (∃ exc, script.handler attempt = .ok () ∧ w.hasDeduplicator = true ∧
      script.markSeen attempt = .error exc ∧
      (w.handle script event attempt : Delivery E W Unit).outcome =
        (.error exc, [.handler event (.ok ()), .markSeen (w.eventId event) (.error exc)])) := by
  cases hh : script.handler attempt with
  | error exc => exact .inr (.inl ⟨exc, rfl, handle_raises hh⟩)
  | ok u =>
    cases hd : w.hasDeduplicator with
    | false => exact .inl ⟨rfl, by simp, [], handle_returns hh hd, .inl rfl⟩
    | true =>
      have houtcome := handle_marks (W := W) event hh hd
      cases hm : script.markSeen attempt with
      | ok v =>
        rw [hm] at houtcome
        exact .inl ⟨rfl, by simp, _, houtcome, .inr rfl⟩
      | error exc =>
        rw [hm] at houtcome
        exact .inr (.inr ⟨exc, rfl, rfl, rfl, houtcome⟩)

end RetryWrapper

/-! ## The outcomes -/

section

variable {limit : ℕ} {event : E} {exc e : Exc} {error error' : PyException} {eventId : UUID}
  {entry : DeadLetter E W} {answer : Except Exc Unit} {calls : List (DeliveryCall E W)}

attribute [local simp] DeliveryCall.isHandler DeliveryCall.isHandled DeliveryCall.isKnown
  DeliveryCall.isPush DeliveryCall.isCancelled DeliveryCall.pushed ExactlyOne EndsHandled EndsRaised
  EndsDeadLettered filterMap_cons countP_cons

theorem oneOutcome_skipped :
    OneOutcome limit event ((.ok (), [.isDuplicate eventId (.ok true)]) :
      Except Exc Unit × List (DeliveryCall E W)) := by
  constructor <;> simp

theorem oneOutcome_unknown :
    OneOutcome limit event ((.error exc, [.isDuplicate eventId (.error exc)]) :
      Except Exc Unit × List (DeliveryCall E W)) := by
  cases exc <;> constructor <;> simp

theorem oneOutcome_returned (h : calls = [] ∨ calls = [.markSeen eventId (.ok ())]) :
    OneOutcome (limit + 1) event (.ok (), .handler event (.ok ()) :: calls) := by
  obtain rfl | rfl := h <;> constructor <;> simp

theorem oneOutcome_raised :
    OneOutcome (limit + 1) event ((.error exc, [.handler event (.error exc)]) :
      Except Exc Unit × List (DeliveryCall E W)) := by
  cases exc <;> constructor <;> simp

theorem oneOutcome_marked :
    OneOutcome (limit + 1) event
      ((.error exc, [.handler event (.ok ()), .markSeen eventId (.error exc)]) :
        Except Exc Unit × List (DeliveryCall E W)) := by
  cases exc <;> constructor <;> simp

theorem oneOutcome_awake (h : calls = [] ∨ ∃ delay, calls = [.sleep delay (.error e)]) :
    OneOutcome (limit + 1) event
      (.error e, [DeliveryCall.handler event (.error (.error error))] ++ calls) := by
  obtain rfl | ⟨delay, rfl⟩ := h <;> cases e <;> constructor <;> simp

theorem oneOutcome_marked_awake (h : calls = [] ∨ ∃ delay, calls = [.sleep delay (.error e)]) :
    OneOutcome (limit + 1) event
      (.error e,
        [DeliveryCall.handler event (.ok ()), .markSeen eventId (.error (.error error))] ++
          calls) := by
  obtain rfl | ⟨delay, rfl⟩ := h <;> cases e <;> constructor <;> simp

theorem oneOutcome_pushed (h : entry.event = some event) :
    OneOutcome (limit + 1) event
      (answer, [DeliveryCall.handler event (.error (.error error))] ++
        [DeliveryCall.push entry answer]) := by
  match answer with
  | .ok () => constructor <;> simp [h]
  | .error .cancelled => constructor <;> simp
  | .error (.error _) => constructor <;> simp

theorem oneOutcome_exhausted :
    OneOutcome (limit + 1) event
      ((.error (.error error'), [DeliveryCall.handler event (.error (.error error))] ++ []) :
        Except Exc Unit × List (DeliveryCall E W)) := by
  constructor <;> simp

theorem oneOutcome_marked_exhausted :
    OneOutcome (limit + 1) event
      ((.error (.error error),
        [DeliveryCall.handler event (.ok ()), .markSeen eventId (.error exc)] ++ []) :
        Except Exc Unit × List (DeliveryCall E W)) ↔ exc ≠ .cancelled := by
  constructor
  · rintro o rfl
    have := o.cancelled
    simp at this
  · intro hexc
    cases exc with
    | cancelled => exact absurd rfl hexc
    | error _ => constructor <;> simp

theorem not_oneOutcome_cancelled {o : Except Exc Unit × List (DeliveryCall E W)}
    (h : o.2 ≠ [] ∨ o.1 ≠ .error .cancelled) :
    ¬OneOutcome limit event (o.1, [DeliveryCall.handler event (.error .cancelled)] ++ o.2) := by
  intro ho
  obtain h | h := h
  · obtain ⟨c, calls, hcalls⟩ := exists_cons_of_ne_nil h
    have := (pairwise_cons.mp ho.cancelled_last).1 c (by simp [hcalls])
    cases this
  · exact h (ho.cancelled ⟨_, mem_cons_self, rfl⟩)

theorem not_oneOutcome_marked {c : DeliveryCall E W} (hc : c ∈ calls)
    (h : c.isHandler = true ∨ c.isPush = true) :
    ¬OneOutcome limit event
      (answer, [DeliveryCall.handler event (.ok ()), .markSeen eventId (.error exc)] ++ calls) := by
  intro o
  obtain h | h := h
  · have := (pairwise_cons.mp o.never_again).1 c (by simp [hc]) rfl
    rw [h] at this
    cases this
  · have := o.not_dead ⟨_, mem_cons_self, rfl⟩ c (by simp [hc])
    rw [h] at this
    cases this

end

namespace RetryWrapper

variable {w : RetryWrapper E} {script : DeliveryScript} {event : E} {attempt left : ℕ}
  {lastExc : Option Exc} {firstFailedAt : Option Instant}

/-- After the last attempt there is nothing left to ask. -/
theorem catchesRightlyFrom_of_lt (h : w.maxAttempts < attempt) :
    w.CatchesRightlyFrom script attempt := fun k hk hk' _ => by omega

theorem catchesRightly_of_error {exc : Exc} (h : script.handler attempt = .error exc)
    (hexc : exc = .cancelled → w.policy ≠ none) : w.CatchesRightly script attempt := by
  refine ⟨fun hc => ?_, fun e he => ?_⟩
  · rw [h] at hc
    exact hexc (Except.error.inj hc)
  · rw [h] at he
    cases he

theorem not_retries_of_ok (h : script.handler attempt = .ok ()) : ¬w.Retries script attempt := by
  rintro ⟨⟨exc, hexc, -⟩, -⟩
  rw [h] at hexc
  cases hexc

/-- A caught cancellation is one without a policy, at the only attempt. -/
theorem maxAttempts_of_none (h : w.policy = none) : w.maxAttempts = 1 := by
  rw [maxAttempts, h]

theorem not_cancelled_of_catches {exc : Exc} (h : w.catches exc = true) (hp : w.policy ≠ none) :
    exc ≠ .cancelled := by
  rintro rfl
  exact hp (catches_cancelled.mp h)

theorem markSeen_of_catchesRightly {exc : Exc} (h : script.handler attempt = .ok ())
    (hd : w.hasDeduplicator = true) (hm : script.markSeen attempt = .error exc)
    (hexc : w.catches exc = true) :
    w.CatchesRightly script attempt ↔
      exc ≠ .cancelled ∧ if attempt < w.maxAttempts then ¬w.Slept script attempt
        else w.hasDlq = false := by
  constructor
  · intro hc
    exact hc.markSeen exc h hd hm hexc
  · intro hc
    refine ⟨fun hcancelled => ?_, fun e _ _ he _ => ?_⟩
    · rw [h] at hcancelled
      cases hcancelled
    · rw [hm] at he
      rw [← Except.error.inj he]
      exact hc

/-- An attempt ends the delivery, as it should, or its exception is caught. -/
theorem attempts_cases (w : RetryWrapper E) (script : DeliveryScript) (event : E)
    (left attempt limit : ℕ) (lastExc : Option Exc) (firstFailedAt : Option Instant) :
    (OneOutcome (limit + 1) event
        (w.attempts script event (left + 1) attempt lastExc firstFailedAt :
          Delivery E W Unit).outcome ∧
      w.CatchesRightly script attempt ∧ ¬w.Retries script attempt) ∨
    (∃ exc, script.handler attempt = .error exc ∧ w.catches exc = true ∧
      (w.handle script event attempt : Delivery E W Unit).outcome =
        (.error exc, [.handler event (.error exc)])) ∨
    (∃ exc, script.handler attempt = .ok () ∧ w.hasDeduplicator = true ∧
      script.markSeen attempt = .error exc ∧ w.catches exc = true ∧
      (w.handle script event attempt : Delivery E W Unit).outcome =
        (.error exc, [.handler event (.ok ()), .markSeen (w.eventId event) (.error exc)])) := by
  obtain ⟨hh, hm, calls, houtcome, hcalls⟩ | ⟨exc, hh, houtcome⟩ | ⟨exc, hh, hd, hm, houtcome⟩ :=
    handle_cases (W := W) w script event attempt
  · refine .inl ⟨?_, ⟨fun hc => ?_, fun exc _ hd he => ?_⟩, not_retries_of_ok hh⟩
    · rw [attempts_returns houtcome]
      exact oneOutcome_returned hcalls
    · rw [hh] at hc
      cases hc
    · rw [hm hd] at he
      cases he
  · cases hexc : w.catches exc with
    | true => exact .inr (.inl ⟨exc, hh, hexc, houtcome⟩)
    | false =>
      refine .inl ⟨?_, catchesRightly_of_error hh ?_, ?_⟩
      · rw [attempts_raises houtcome hexc]
        exact oneOutcome_raised
      · rintro rfl hp
        rw [catches_cancelled.mpr hp] at hexc
        cases hexc
      · rintro ⟨⟨e, he, hcatches⟩, -⟩
        rw [hh] at he
        rw [Except.error.inj he, hcatches] at hexc
        cases hexc
  · cases hexc : w.catches exc with
    | true => exact .inr (.inr ⟨exc, hh, hd, hm, hexc, houtcome⟩)
    | false =>
      refine .inl ⟨?_, ⟨fun hc => ?_, fun e _ _ he hcatches => ?_⟩, not_retries_of_ok hh⟩
      · rw [attempts_raises houtcome hexc]
        exact oneOutcome_marked
      · rw [hh] at hc
        cases hc
      · rw [hm] at he
        rw [Except.error.inj he, hcatches] at hexc
        cases hexc

/-- The last attempt has one outcome as long as nothing is caught wrongly. -/
theorem attempts_one_iff (hn : attempt = w.maxAttempts) :
    OneOutcome 1 event (w.attempts script event 1 attempt lastExc firstFailedAt :
      Delivery E W Unit).outcome ↔ w.CatchesRightly script attempt := by
  have hlast : ¬attempt < w.maxAttempts := by omega
  obtain ⟨ho, hc, -⟩ | ⟨exc, hh, hexc, houtcome⟩ | ⟨exc, hh, hd, hm, hexc, houtcome⟩ :=
    attempts_cases (W := W) w script event 0 attempt 0 lastExc firstFailedAt
  · exact iff_of_true ho hc
  · obtain ⟨failedAt, o, ho, hattempts⟩ :=
      attempts_last houtcome hexc lastExc firstFailedAt hlast
    rw [hattempts]
    cases exc with
    | cancelled =>
      have hp : w.policy = none := catches_cancelled.mp hexc
      refine iff_of_false (not_oneOutcome_cancelled ?_) fun hc => hc.handler hh hp
      cases hdlq : w.hasDlq with
      | true =>
        obtain ⟨entry, -, he⟩ := exhausted_pushes (W := W) script event .cancelled hdlq failedAt
        exact .inl (by rw [← ho, he]; exact cons_ne_nil _ _)
      | false =>
        obtain ⟨e, he⟩ := exhausted_raises (W := W) script event .cancelled hdlq failedAt
        exact .inr (by rw [← ho, he]; simp)
    | error error =>
      refine iff_of_true ?_ (catchesRightly_of_error hh fun h => by cases h)
      cases hdlq : w.hasDlq with
      | true =>
        obtain ⟨entry, hentry, he⟩ :=
          exhausted_pushes (W := W) script event (.error error) hdlq failedAt
        rw [← ho, he]
        exact oneOutcome_pushed hentry
      | false =>
        obtain ⟨e, he⟩ := exhausted_raises (W := W) script event (.error error) hdlq failedAt
        rw [← ho, he]
        exact oneOutcome_exhausted
  · obtain ⟨failedAt, o, ho, hattempts⟩ :=
      attempts_last houtcome hexc lastExc firstFailedAt hlast
    rw [hattempts, markSeen_of_catchesRightly hh hd hm hexc, if_neg hlast]
    cases hdlq : w.hasDlq with
    | true =>
      obtain ⟨entry, -, he⟩ := exhausted_pushes (W := W) script event exc hdlq failedAt
      refine iff_of_false ?_ fun h => by cases h.2
      rw [← ho, he]
      exact not_oneOutcome_marked (c := .push entry script.push) (by simp) (.inr rfl)
    | false =>
      obtain ⟨e, he⟩ := exhausted_raises (W := W) script event exc hdlq failedAt
      rw [← ho, he, and_iff_left rfl]
      exact oneOutcome_marked_exhausted

/-- **From any attempt on, a delivery has one outcome just if nothing is caught wrongly.** -/
theorem attempts_iff (lastExc : Option Exc) (firstFailedAt : Option Instant) (hk : 1 ≤ attempt)
    (hn : attempt + left = w.maxAttempts) :
    OneOutcome (left + 1) event
      (w.attempts script event (left + 1) attempt lastExc firstFailedAt :
        Delivery E W Unit).outcome ↔ w.CatchesRightlyFrom script attempt := by
  induction left generalizing attempt lastExc firstFailedAt with
  | zero =>
    have hend : w.CatchesRightlyFrom script (attempt + 1) := catchesRightlyFrom_of_lt (by omega)
    rw [catchesRightlyFrom_iff (by omega), and_iff_left fun _ => hend]
    exact attempts_one_iff (by omega)
  | succ left ih =>
    have hlast : attempt < w.maxAttempts := by omega
    have hpolicy : w.policy ≠ none := by
      intro hp
      rw [maxAttempts_of_none hp] at hn
      omega
    rw [catchesRightlyFrom_iff (by omega)]
    obtain ⟨ho, hc, hr⟩ | ⟨exc, hh, hexc, houtcome⟩ | ⟨exc, hh, hd, hm, hexc, houtcome⟩ :=
      attempts_cases (W := W) w script event (left + 1) attempt (left + 1) lastExc firstFailedAt
    · exact iff_of_true ho ⟨hc, fun h => absurd h hr⟩
    · have hright := catchesRightly_of_error hh fun _ => hpolicy
      rw [and_iff_right hright]
      cases exc with
      | cancelled => exact absurd rfl (not_cancelled_of_catches hexc hpolicy)
      | error error =>
        by_cases hslept : w.Slept script attempt
        · obtain ⟨delay, hsleep⟩ := backOff_returns (W := W) hslept
          obtain ⟨failedAt, o, ho, hattempts⟩ := attempts_again houtcome hexc (left + 1)
            lastExc firstFailedAt hlast hsleep
          have hretries : w.Retries script attempt := ⟨⟨_, hh, hexc⟩, hslept⟩
          rw [hattempts, forall_prop_of_true hretries, ← append_assoc]
          rw [← ih (some (.error error)) (some failedAt) (by omega) (by omega), ho]
          exact oneOutcome_append (passes_of_failed error delay)
        · obtain ⟨e, calls, hsleep, hcalls⟩ := backOff_raises (W := W) hslept
          rw [attempts_backOff_raises houtcome hexc hlast hsleep]
          exact iff_of_true (oneOutcome_awake hcalls) fun h => absurd h.2 hslept
    · rw [markSeen_of_catchesRightly hh hd hm hexc, if_pos hlast]
      cases exc with
      | cancelled => exact absurd rfl (not_cancelled_of_catches hexc hpolicy)
      | error error =>
        by_cases hslept : w.Slept script attempt
        · obtain ⟨delay, hsleep⟩ := backOff_returns (W := W) hslept
          obtain ⟨failedAt, o, ho, hattempts⟩ := attempts_again houtcome hexc (left + 1)
            lastExc firstFailedAt hlast hsleep
          refine iff_of_false ?_ fun h => h.1.2 hslept
          obtain ⟨r, calls, hinvokes⟩ := attempts_invokes (W := W) w script event left
            (attempt + 1) (some (.error error)) (some failedAt)
          rw [hattempts, ← ho, hinvokes]
          exact not_oneOutcome_marked (c := .handler event (script.handler (attempt + 1))) (by simp)
            (.inl rfl)
        · obtain ⟨e, calls, hsleep, hcalls⟩ := backOff_raises (W := W) hslept
          rw [attempts_backOff_raises houtcome hexc hlast hsleep]
          exact iff_of_true (oneOutcome_marked_awake hcalls)
            ⟨⟨by simp, hslept⟩, fun h => absurd h (not_retries_of_ok hh)⟩

theorem maxAttempts_pos (w : RetryWrapper E) : 1 ≤ w.maxAttempts := by
  unfold maxAttempts
  cases w.policy with
  | none => exact le_rfl
  | some policy => exact policy.maxAttempts_pos

/-- All attempts, as `attempts_iff` has them. -/
theorem attempts_all_iff :
    OneOutcome w.maxAttempts event
      (w.attempts script event w.maxAttempts 1 none none : Delivery E W Unit).outcome ↔
        w.CatchesRightlyFrom script 1 := by
  obtain ⟨left, hleft⟩ : ∃ left, w.maxAttempts = left + 1 :=
    ⟨_, (Nat.sub_add_cancel w.maxAttempts_pos).symm⟩
  have h : OneOutcome (left + 1) event (w.attempts script event (left + 1) 1 none none :
      Delivery E W Unit).outcome ↔ w.CatchesRightlyFrom script 1 :=
    attempts_iff none none le_rfl (by omega)
  rwa [← hleft] at h

/-- Without a deduplicator the attempts follow at once. -/
theorem deliver_undeduplicated (hd : w.hasDeduplicator = false) :
    (w.deliver script event : Except Exc Unit × List (DeliveryCall E W)) =
      (w.attempts script event w.maxAttempts 1 none none).outcome := by
  rw [deliver, wrapper, hd]
  rfl

/-- An exception of `is_duplicate` is the end. -/
theorem deliver_unknown {exc : Exc} (hd : w.hasDeduplicator = true)
    (h : script.isDuplicate = .error exc) :
    (w.deliver script event : Except Exc Unit × List (DeliveryCall E W)) =
      (.error exc, [.isDuplicate (w.eventId event) (.error exc)]) := by
  rw [deliver, wrapper, if_pos hd]
  refine outcome_bind_error ?_
  rw [outcome_call, h]

theorem deliver_known (hd : w.hasDeduplicator = true) (h : script.isDuplicate = .ok true) :
    (w.deliver script event : Except Exc Unit × List (DeliveryCall E W)) =
      (.ok (), [.isDuplicate (w.eventId event) (.ok true)]) := by
  rw [deliver, wrapper, if_pos hd]
  refine (outcome_bind_ok (a := true) (by rw [outcome_call, h])).trans ?_
  rfl

theorem deliver_new (event : E) (hd : w.hasDeduplicator = true)
    (h : script.isDuplicate = .ok false) :
    ∃ o : Except Exc Unit × List (DeliveryCall E W),
      (w.attempts script event w.maxAttempts 1 none none).outcome = o ∧
        w.deliver script event =
          (o.1, [DeliveryCall.isDuplicate (w.eventId event) (.ok false)] ++ o.2) := by
  refine ⟨_, rfl, ?_⟩
  rw [deliver, wrapper, if_pos hd]
  refine (outcome_bind_ok (a := false) (by rw [outcome_call, h])).trans ?_
  rfl

/-- **A delivery has one outcome just if its `except` clause catches nothing wrongly**, at the
attempts that are reached. An event that is known, or of which that cannot be told, reaches none; an
attempt is reached if at each one before it the handler raises what is caught, and the back-off
returns. -/
theorem one_outcome_iff (w : RetryWrapper E) (script : DeliveryScript) (event : E) :
    OneOutcome w.maxAttempts event
      (w.deliver script event : Except Exc Unit × List (DeliveryCall E W)) ↔
        ((w.hasDeduplicator = true → script.isDuplicate = .ok false) →
          w.CatchesRightlyFrom script 1) := by
  cases hd : w.hasDeduplicator with
  | false =>
    rw [forall_prop_of_true (fun h => by cases h), deliver_undeduplicated hd]
    exact attempts_all_iff
  | true =>
    cases hdup : script.isDuplicate with
    | error exc =>
      rw [deliver_unknown hd hdup]
      exact iff_of_true oneOutcome_unknown fun h => by cases h rfl
    | ok known =>
      cases known with
      | true =>
        rw [deliver_known hd hdup]
        exact iff_of_true oneOutcome_skipped fun h => by cases h rfl
      | false =>
        obtain ⟨o, ho, hdeliver⟩ := deliver_new (W := W) event hd hdup
        have hall : OneOutcome w.maxAttempts event o ↔ w.CatchesRightlyFrom script 1 := by
          rw [← ho]
          exact attempts_all_iff
        rw [hdeliver, forall_prop_of_true fun _ => rfl, ← hall]
        exact oneOutcome_append passes_of_new

/-- A handler without a policy is cancelled: its event is dead-lettered, and the cancellation is
gone. -/
theorem cancelled_dead_lettered :
    ¬OneOutcome 1 ()
      (RetryWrapper.deliver ⟨"on_order", none, true, "orders", false, fun _ => 0⟩
        { isDuplicate := .ok false, handler := fun _ => .error .cancelled,
          markSeen := fun _ => .ok (), sleep := fun _ => .ok (), uniform := fun _ => 1,
          failedAt := fun _ => 0, entryId := 1, entryTime := 0, currentTenant := none,
          push := .ok () } () : Except Exc Unit × List (DeliveryCall Unit Unit)) := by
  intro o
  have := o.cancelled ⟨.handler () (.error .cancelled), mem_cons_self, rfl⟩
  cases this

end RetryWrapper

end Varco
