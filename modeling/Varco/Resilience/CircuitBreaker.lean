import Mathlib.Algebra.Order.Ring.Unbundled.Rat
import Varco.Foundations.EventLoop
import Varco.Foundations.Python

/-!
# Circuit breakers

`CircuitBreaker` of `varco_core.resilience.circuit_breaker`, with its asynchronous path `call_async`
run by tasks of one event loop, and its synchronous path `call_sync`. A task suspends before it
starts, at `await func(*args, **kwargs)`, and at `async with lock` if the lock is held. The
protected function is not modelled further: it may end with any value or exception at any later
time.

The clock is read within one stretch of a task that does not suspend; it does not move there. Times
are rational numbers of seconds. The lock is created on first use, and an absent lock is a free one.
-/

namespace Varco

inductive CircuitState
  | closed
  | open
  | halfOpen
  deriving DecidableEq

/-! ## Configuration -/

/-- `CircuitBreakerConfig`. The exception types of `monitored_on` are subclasses of `Exception`;
`monitoredOn` says which exceptions are instances of one of them. -/
structure CircuitBreakerConfig where
  failureThreshold : ℕ
  recoveryTimeout : PyFloat
  successThreshold : ℕ
  monitoredOn : PyException → Bool
  failureThreshold_pos : 1 ≤ failureThreshold
  recoveryTimeout_nonneg : 0 ≤ recoveryTimeout.val
  successThreshold_pos : 1 ≤ successThreshold

namespace CircuitBreakerConfig

/-- `isinstance(exc, self.config.monitored_on)` -/
def monitors (config : CircuitBreakerConfig) : Exc → Bool
  | .cancelled => false
  | .error exc => config.monitoredOn exc

end CircuitBreakerConfig

structure CircuitOpenError where
  breakerName : String
  opensAt : ℚ
  retryAfter : ℚ
  deriving DecidableEq

namespace CircuitOpenError

/-- `CircuitOpenError(breaker_name, opens_at, recovery_timeout)`, at the time `now`. -/
def new (breakerName : String) (opensAt recoveryTimeout now : ℚ) : CircuitOpenError :=
  let elapsed := now - opensAt
  { breakerName, opensAt, retryAfter := max 0 (recoveryTimeout - elapsed) }

end CircuitOpenError

/-- What a call raises: that it was rejected, or what the protected function has raised. -/
inductive BreakerExc
  | rejected (e : CircuitOpenError)
  | raised (e : Exc)

/-! ## Commands -/

/-- The attributes of a `CircuitBreaker` that change. -/
structure Breaker where
  state : CircuitState := .closed
  failureCount : ℕ := 0
  successCount : ℕ := 0
  openedAt : ℚ := 0
  locked : Bool := false
  deriving DecidableEq

/-- What a call does one at a time. -/
inductive BreakerCmd (V : Type)
  /-- The task is scheduled. -/
  | start
  /-- `time.monotonic()` -/
  | monotonic
  /-- The attributes of `self` are read. -/
  | self
  /-- The attributes of `self` are assigned to. -/
  | assign (f : Breaker → Breaker)
  /-- `lock.__aenter__()` -/
  | acquire
  /-- `lock.__aexit__()` -/
  | release
  /-- `await func(*args, **kwargs)`, or `func(*args, **kwargs)`; in `_probe_async` or not. -/
  | func (probe : Bool)

abbrev BreakerCmd.Res {V : Type} : BreakerCmd V → Type
  | .start => Except Exc Unit
  | .monotonic => ℚ
  | .self => Breaker
  | .assign _ => Unit
  | .acquire => Except Exc Unit
  | .release => Unit
  | .func _ => Except Exc V

def raising {α : Type} (r : Except Exc α) : Except BreakerExc α := r.mapError .raised

abbrev BreakerM (V α : Type) := ExceptT BreakerExc (Prog (BreakerCmd V) BreakerCmd.Res) α

/-! ## `CircuitBreaker` -/

namespace CircuitBreaker

variable {V : Type} (config : CircuitBreakerConfig) (name : String)

/-- `time.monotonic()` -/
def monotonic : BreakerM V ℚ := Prog.call BreakerCmd.monotonic

def self : BreakerM V Breaker := Prog.call BreakerCmd.self

def assign (f : Breaker → Breaker) : BreakerM V Unit := Prog.call (BreakerCmd.assign f)

/-- `await func(*args, **kwargs)` in a `try` statement. -/
def func (probe : Bool) : BreakerM V (Except Exc V) := Prog.call (BreakerCmd.func probe)

def openCircuit : BreakerM V Unit := do
  assign fun b => { b with state := .open }
  let now ← monotonic
  assign fun b => { b with openedAt := now, failureCount := 0, successCount := 0 }

def onFailure : BreakerM V Unit := do
  assign fun b => { b with failureCount := b.failureCount + 1 }
  if config.failureThreshold ≤ (← self).failureCount then
    openCircuit

def onSuccess : BreakerM V Unit := do
  if (← self).state = .halfOpen then
    assign fun b => { b with successCount := b.successCount + 1 }
    if config.successThreshold ≤ (← self).successCount then
      assign fun b =>
        { b with state := .closed, failureCount := 0, successCount := 0 }
  else
    assign fun b => { b with failureCount := 0 }

/-- `raise CircuitOpenError(self.name, self._opened_at, self.config.recovery_timeout)` -/
def reject {α : Type} : BreakerM V α := do
  let b ← self
  let now ← monotonic
  throw (.rejected (.new name b.openedAt config.recoveryTimeout.val now))

def maybeAttemptRecovery : BreakerM V Unit := do
  if (← self).state = .open then
    let now ← monotonic
    if config.recoveryTimeout.val ≤ now - (← self).openedAt then
      assign fun b => { b with state := .halfOpen }

def callClosedAsync : BreakerM V V := do
  match ← func false with
  | .error exc =>
    if config.monitors exc then
      onFailure config
    throw (.raised exc)
  | .ok result =>
    onSuccess config
    return result

/-- The `try` statement of `_probe_async` and what follows it. -/
def probe : BreakerM V V := do
  match ← func true with
  | .error exc =>
    if config.monitors exc then
      openCircuit
    throw (.raised exc)
  | .ok result =>
    onSuccess config
    return result

/-- The body of an `async with lock`, and the release of the lock after it. -/
def releasing {α : Type} (body : BreakerM V α) : BreakerM V α := do
  match ← Prog.attempt body with
  | .error exc =>
    Prog.call BreakerCmd.release
    throw exc
  | .ok a =>
    Prog.call BreakerCmd.release
    return a

def probeAsync : BreakerM V V := do
  if (← self).locked then
    reject config name
  else
    Prog.await BreakerCmd.acquire raising
    releasing do
      if (← self).state = .open then
        reject config name
      else
        probe config

def callAsync : BreakerM V V := do
  maybeAttemptRecovery config
  let b ← self
  if b.state = .open then
    reject config name
  else if b.state = .halfOpen then
    probeAsync config name
  else
    callClosedAsync config

def callSync : BreakerM V V := do
  if (← self).state = .open then
    let now ← monotonic
    if config.recoveryTimeout.val ≤ now - (← self).openedAt then
      assign fun b => { b with state := .halfOpen }
  if (← self).state = .open then
    reject config name
  else
    match ← func false with
    | .error exc =>
      if config.monitors exc then
        onFailure config
      throw (.raised exc)
    | .ok result =>
      onSuccess config
      return result

/-- A task that awaits `call_async(func)`. -/
def task : BreakerM V V := do
  Prog.await BreakerCmd.start raising
  callAsync config name

end CircuitBreaker

/-! ## The event loop -/

/-- A breaker, and the time. -/
structure Circuit where
  breaker : Breaker := {}
  clock : ℚ := 0
  deriving DecidableEq

/-- When a task is woken and, if it awaits the protected function, what the function ends with. -/
structure FuncReply (V : Type) where
  time : ℚ
  outcome : Except Exc V

namespace Circuit

variable {V : Type}

def now (c : BreakerCmd V) (s : Circuit) : Option (c.Res × Circuit) :=
  match c with
  | .start => none
  | .monotonic => some (s.clock, s)
  | .self => some (s.breaker, s)
  | .assign f => some ((), { s with breaker := f s.breaker })
  | .acquire =>
    if s.breaker.locked then none
    else some (.ok (), { s with breaker := { s.breaker with locked := true } })
  | .release => some ((), { s with breaker := { s.breaker with locked := false } })
  | .func _ => none

/-- What a suspended task is woken with; the clock does not go back. -/
def wake (w : Wake (FuncReply V)) (c : BreakerCmd V) (s : Circuit) : Option (c.Res × Circuit) :=
  match w, c with
  | .resume r, .start =>
    if s.clock ≤ r.time then some (.ok (), { s with clock := r.time }) else none
  | .resume r, .func _ =>
    if s.clock ≤ r.time then some (r.outcome, { s with clock := r.time }) else none
  | .resume _, .acquire => now .acquire s
  | .cancel, .start => some (.error .cancelled, s)
  | .cancel, .func _ => some (.error .cancelled, s)
  | .cancel, .acquire => some (.error .cancelled, s)
  | _, _ => none

end Circuit

abbrev BreakerPool (V ι : Type) :=
  Pool ι Circuit (BreakerCmd V) BreakerCmd.Res (Except BreakerExc V)

abbrev BreakerEvent (V ι : Type) := LoopEvent ι (FuncReply V)

/-- Any number of calls on one breaker, which was made at the time `clock`. -/
def CircuitBreaker.pool {ι : Type} (V : Type) (config : CircuitBreakerConfig) (name : String)
    (clock : ℚ) : BreakerPool V ι where
  shared := { clock }
  prog _ := (task config name).run

/-! ## What a call does to the breaker -/

namespace Breaker

variable (config : CircuitBreakerConfig) (clock : ℚ) (b : Breaker)

def Elapsed : Prop := config.recoveryTimeout.val ≤ clock - b.openedAt

instance : Decidable (b.Elapsed config clock) :=
  inferInstanceAs (Decidable (_ ≤ _))

def recovered : Breaker :=
  if b.state = .open ∧ b.Elapsed config clock then { b with state := .halfOpen } else b

def opened : Breaker :=
  { b with state := .open, openedAt := clock, failureCount := 0, successCount := 0 }

def failed : Breaker :=
  if config.failureThreshold ≤ b.failureCount + 1 then b.opened clock
  else { b with failureCount := b.failureCount + 1 }

def succeeded : Breaker :=
  if b.state = .halfOpen then
    if config.successThreshold ≤ b.successCount + 1 then
      { b with state := .closed, failureCount := 0, successCount := 0 }
    else { b with successCount := b.successCount + 1 }
  else { b with failureCount := 0 }

end Breaker

namespace CircuitBreaker

open EventLoop

variable {V : Type} (config : CircuitBreakerConfig) (name : String)

def rejection (s : Circuit) : CircuitOpenError :=
  .new name s.breaker.openedAt config.recoveryTimeout.val s.clock

variable {config name} {s : Circuit}

theorem drive_openCircuit :
    drive Circuit.now (openCircuit (V := V)).run s =
      (.ret (.ok ()), { s with breaker := s.breaker.opened s.clock }) := rfl

theorem drive_onFailure :
    drive Circuit.now (onFailure config (V := V)).run s =
      (.ret (.ok ()), { s with breaker := s.breaker.failed config s.clock }) := by
  change drive Circuit.now
    (ite (config.failureThreshold ≤ s.breaker.failureCount + 1) openCircuit (pure ())).run _ = _
  unfold Breaker.failed
  split
  · rfl
  · rfl

theorem drive_onSuccess :
    drive Circuit.now (onSuccess config (V := V)).run s =
      (.ret (.ok ()), { s with breaker := s.breaker.succeeded config }) := by
  unfold Breaker.succeeded onSuccess
  change drive Circuit.now (ite (s.breaker.state = .halfOpen) _ _ : BreakerM V Unit).run s = _
  split
  · change drive Circuit.now
      (ite (config.successThreshold ≤ s.breaker.successCount + 1) _ _ : BreakerM V Unit).run _ = _
    split
    · rfl
    · rfl
  · rfl

theorem drive_maybeAttemptRecovery :
    drive Circuit.now (maybeAttemptRecovery config (V := V)).run s =
      (.ret (.ok ()), { s with breaker := s.breaker.recovered config s.clock }) := by
  unfold Breaker.recovered maybeAttemptRecovery
  change drive Circuit.now (ite (s.breaker.state = .open) _ _ : BreakerM V Unit).run s = _
  by_cases hopen : s.breaker.state = .open
  · rw [if_pos hopen]
    change drive Circuit.now
      (ite (s.breaker.Elapsed config s.clock) _ _ : BreakerM V Unit).run _ = _
    by_cases helapsed : s.breaker.Elapsed config s.clock
    · rw [if_pos helapsed, if_pos ⟨hopen, helapsed⟩]
      rfl
    · rw [if_neg helapsed, if_neg fun h => helapsed h.2]
      rfl
  · rw [if_neg hopen, if_neg fun h => hopen h.1]
    rfl

theorem drive_probeAsync (hstate : s.breaker.state = .halfOpen) (hfree : s.breaker.locked = false) :
    drive Circuit.now (probeAsync config name (V := V)).run s =
      ((releasing (probe config)).run,
        { s with breaker := { s.breaker with locked := true } }) := by
  change drive Circuit.now (ite (s.breaker.locked = true) _ _ : BreakerM V V).run s = _
  rw [hfree, if_neg Bool.false_ne_true]
  have hacquire : Circuit.now (V := V) .acquire s =
      some (.ok (), { s with breaker := { s.breaker with locked := true } }) := by
    simp [Circuit.now, hfree]
  refine (drive_bindExcept_ok (drive_await hacquire)).trans ?_
  have hopen : ¬s.breaker.state = .open := by simp [hstate]
  have hcheck : (ite (s.breaker.state = .open) (reject config name) (probe config) :
      BreakerM V V) = probe config := if_neg hopen
  change drive Circuit.now (releasing (ite (s.breaker.state = .open) (reject config name)
    (probe config)) : BreakerM V V).run _ = _
  rw [hcheck]
  rfl

theorem drive_probeAsync_locked (hlocked : s.breaker.locked = true) :
    drive Circuit.now (probeAsync config name (V := V)).run s =
      (.ret (.error (.rejected (rejection config name s))), s) := by
  change drive Circuit.now (ite (s.breaker.locked = true) _ _ : BreakerM V V).run s = _
  rw [if_pos hlocked]
  rfl

/-- What a call does first. -/
inductive Admission
  | reject
  | probe
  | call
  deriving DecidableEq

/-- How a call is admitted by a breaker whose recovery check is done. -/
def admission (b : Breaker) : Admission :=
  match b.state with
  | .open => .reject
  | .halfOpen => if b.locked then .reject else .probe
  | .closed => .call

theorem drive_callAsync :
    drive Circuit.now (callAsync config name (V := V)).run s =
      drive Circuit.now
        (if (s.breaker.recovered config s.clock).state = .open then reject config name
          else if (s.breaker.recovered config s.clock).state = .halfOpen then probeAsync config name
          else callClosedAsync config : BreakerM V V).run
        { s with breaker := s.breaker.recovered config s.clock } :=
  drive_bindExcept_ok drive_maybeAttemptRecovery

theorem drive_callAsync_reject (h : admission (s.breaker.recovered config s.clock) = .reject) :
    drive Circuit.now (callAsync config name (V := V)).run s =
      (.ret (.error (.rejected (rejection config name
          { s with breaker := s.breaker.recovered config s.clock }))),
        { s with breaker := s.breaker.recovered config s.clock }) := by
  rw [drive_callAsync]
  generalize s.breaker.recovered config s.clock = b at h ⊢
  unfold admission at h
  cases hstate : b.state with
  | «open» =>
    rw [if_pos rfl]
    rfl
  | halfOpen =>
    rw [hstate] at h
    have hlocked : b.locked = true := by simpa using h
    rw [if_neg (by simp), if_pos rfl]
    exact drive_probeAsync_locked (s := ⟨b, s.clock⟩) hlocked
  | closed =>
    rw [hstate] at h
    cases h

/-- A call that probes: it takes the lock and awaits the protected function. -/
theorem drive_callAsync_probe (h : admission (s.breaker.recovered config s.clock) = .probe) :
    drive Circuit.now (callAsync config name (V := V)).run s =
      ((releasing (probe config)).run,
        { s with breaker := { s.breaker.recovered config s.clock with locked := true } }) := by
  rw [drive_callAsync]
  generalize s.breaker.recovered config s.clock = b at h ⊢
  unfold admission at h
  cases hstate : b.state with
  | halfOpen =>
    rw [hstate] at h
    have hfree : b.locked = false := by simpa using h
    rw [if_neg (by simp), if_pos rfl]
    exact drive_probeAsync (s := ⟨b, s.clock⟩) hstate hfree
  | «open» =>
    rw [hstate] at h
    cases h
  | closed =>
    rw [hstate] at h
    cases h

/-- A call on a closed breaker awaits the protected function. -/
theorem drive_callAsync_call (h : admission (s.breaker.recovered config s.clock) = .call) :
    drive Circuit.now (callAsync config name (V := V)).run s =
      ((callClosedAsync config).run,
        { s with breaker := s.breaker.recovered config s.clock }) := by
  rw [drive_callAsync]
  generalize s.breaker.recovered config s.clock = b at h ⊢
  unfold admission at h
  cases hstate : b.state with
  | closed =>
    rw [if_neg (by simp), if_neg (by simp)]
    rfl
  | «open» =>
    rw [hstate] at h
    cases h
  | halfOpen =>
    rw [hstate] at h
    simp only at h
    split at h <;> cases h

/-- The breaker after a call on a closed breaker has ended with `r`. -/
def afterCall (config : CircuitBreakerConfig) (clock : ℚ) (r : Except Exc V) (b : Breaker) :
    Breaker :=
  match r with
  | .ok _ => b.succeeded config
  | .error exc => if config.monitors exc then b.failed config clock else b

/-- The breaker after a probe has ended with `r`. -/
def afterProbe (config : CircuitBreakerConfig) (clock : ℚ) (r : Except Exc V) (b : Breaker) :
    Breaker :=
  match r with
  | .ok _ => { b.succeeded config with locked := false }
  | .error exc =>
    { (if config.monitors exc then b.opened clock else b) with locked := false }

/-- What an `except` clause does with a monitored exception before it raises it again. -/
theorem drive_except {exc : Exc} {body : BreakerM V Unit} {f : Breaker → Breaker}
    (hbody : drive Circuit.now body.run s = (.ret (.ok ()), { s with breaker := f s.breaker })) :
    drive Circuit.now (do
      if config.monitors exc then
        body
      throw (.raised exc) : BreakerM V V).run s =
      (.ret (.error (.raised exc)),
        { s with breaker := if config.monitors exc then f s.breaker else s.breaker }) := by
  cases hexc : config.monitors exc with
  | true => exact (drive_bindExcept_ok hbody).trans rfl
  | false => rfl

/-- **The end of a call** that was admitted by a closed breaker. -/
theorem drive_callClosedAsync :
    ∃ k, (callClosedAsync config (V := V)).run = .cmd (.func false) k ∧
      ∀ (r : Except Exc V) (s : Circuit), drive Circuit.now (k r) s =
        (.ret (raising r), { s with breaker := afterCall config s.clock r s.breaker }) := by
  refine ⟨_, rfl, fun r s => ?_⟩
  cases r with
  | ok result => exact (drive_bindExcept_ok drive_onSuccess).trans rfl
  | error exc => exact drive_except drive_onFailure

/-- **The end of a probe.** -/
theorem drive_probe :
    ∃ k, (releasing (probe config (V := V))).run = .cmd (.func true) k ∧
      ∀ (r : Except Exc V) (s : Circuit), drive Circuit.now (k r) s =
        (.ret (raising r), { s with breaker := afterProbe config s.clock r s.breaker }) := by
  refine ⟨_, rfl, fun r s => ?_⟩
  cases r with
  | ok result =>
    have hbody : drive Circuit.now (do onSuccess config; return result : BreakerM V V).run s =
        (.ret (.ok result), { s with breaker := s.breaker.succeeded config }) :=
      (drive_bindExcept_ok drive_onSuccess).trans rfl
    exact (drive_bindExcept_ok (drive_attempt hbody)).trans rfl
  | error exc =>
    exact (drive_bindExcept_ok (drive_attempt (drive_except drive_openCircuit))).trans rfl

/-- A synchronous call, once its recovery check is done. -/
theorem drive_callSync :
    drive Circuit.now (callSync config name (V := V)).run s =
      drive Circuit.now
        (if (s.breaker.recovered config s.clock).state = .open then reject config name
          else callClosedAsync config : BreakerM V V).run
        { s with breaker := s.breaker.recovered config s.clock } := by
  unfold callSync Breaker.recovered
  change drive Circuit.now (ite (s.breaker.state = .open) _ _ : BreakerM V V).run s = _
  by_cases hopen : s.breaker.state = .open
  · rw [if_pos hopen]
    change drive Circuit.now (ite (s.breaker.Elapsed config s.clock) _ _ : BreakerM V V).run _ = _
    by_cases helapsed : s.breaker.Elapsed config s.clock
    · rw [if_pos helapsed, if_pos (And.intro hopen helapsed)]
      rfl
    · have hstays : ¬(s.breaker.state = .open ∧ s.breaker.Elapsed config s.clock) :=
        fun h => helapsed h.2
      rw [if_neg helapsed, if_neg hstays]
      rfl
  · have hstays : ¬(s.breaker.state = .open ∧ s.breaker.Elapsed config s.clock) :=
      fun h => hopen h.1
    rw [if_neg hopen, if_neg hstays]
    rfl

end CircuitBreaker

end Varco
