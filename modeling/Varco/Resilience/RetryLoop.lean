import Varco.Resilience.Retry

/-!
# Retrying a function

The wrappers that `_wrap_async` and `_wrap_sync` of `varco_core.resilience.retry` build. A wrapped
function is the sequence of its outcomes, from the first call on; the wrappers differ in how they
sleep only. A policy does what it says (`Meets`) unless it allows one call only, which fails with an
exception to retry on, since this is reported as exhaustion; or a power of the base is too large for
a `float`, which is evaluated before it is capped (`wrappers_meet_iff`).
-/

namespace Varco

/-- What `random.uniform(0.5, 1.5)` gives. -/
abbrev Jitter := {u : ℚ // 1 / 2 ≤ u ∧ u ≤ 3 / 2}

/-- How a call of a wrapper ends: it returns, raises an exception of the function or a
`RetryExhaustedError`, or fails in `compute_delay` or at its assertion. -/
inductive Wrapped (α : Type)
  | returned (value : α)
  | raised (exc : Exc)
  | exhausted (attempts : ℕ) (lastExc : Exc)
  | delayFailed (exc : PyException)
  | assertionFailed

/-- A call of a wrapper: how often it called the function, how long it slept, and how it ended. -/
structure WrapperRun (α : Type) where
  calls : ℕ
  slept : List ℚ
  result : Wrapped α

namespace RetryPolicy

variable {α : Type} (policy : RetryPolicy) (func : ℕ → Except Exc α) (uniform : ℕ → Jitter)

def retryLoop : (remaining attempt : ℕ) → Option Exc → WrapperRun α
  | 0, attempt, none => ⟨attempt - 1, [], .assertionFailed⟩
  | 0, attempt, some lastExc => ⟨attempt - 1, [], .exhausted policy.maxAttempts lastExc⟩
  | remaining + 1, attempt, _ =>
    match func attempt with
    | .ok value => ⟨attempt, [], .returned value⟩
    | .error exc =>
      if !policy.isRetryable exc then ⟨attempt, [], .raised exc⟩
      else if attempt < policy.maxAttempts then
        match policy.computeDelay (attempt - 1) (uniform attempt).val with
        | .error e => ⟨attempt, [], .delayFailed e⟩
        | .ok delay =>
          let rest := retryLoop remaining (attempt + 1) (some exc)
          { rest with slept := delay :: rest.slept }
      else retryLoop remaining (attempt + 1) (some exc)

/-- `_wrap_async(func, policy)()`, with `asyncio.sleep`. -/
def wrapAsync : WrapperRun α := policy.retryLoop func uniform policy.maxAttempts 1 none

/-- `_wrap_sync(func, policy)()`, with `time.sleep`. -/
def wrapSync : WrapperRun α := policy.retryLoop func uniform policy.maxAttempts 1 none

/-! ## What is asked of them -/

/-- A call after which there is none: a success, or an exception that is not retried. -/
def settles : Except Exc α → Bool
  | .ok _ => true
  | .error exc => !policy.isRetryable exc

def passOn : Except Exc α → Wrapped α
  | .ok value => .returned value
  | .error exc => .raised exc

/-- **What is asked of a wrapper**: it ends with the first call that settles it, and returns or
raises what this does; without one it makes all its calls, and raises the exception of a single call
as it is, and otherwise a `RetryExhaustedError` with the last one. -/
structure Meets (run : WrapperRun α) : Prop where
  settled : ∀ k, 1 ≤ k → k ≤ policy.maxAttempts → policy.settles (func k) = true →
    (∀ j, 1 ≤ j → j < k → policy.settles (func j) = false) →
      run.calls = k ∧ run.result = passOn (func k)
  exhausted : (∀ k, 1 ≤ k → k ≤ policy.maxAttempts → policy.settles (func k) = false) →
    run.calls = policy.maxAttempts ∧ ∃ exc, func policy.maxAttempts = .error exc ∧
      run.result = if policy.maxAttempts = 1 then .raised exc
        else .exhausted policy.maxAttempts exc

/-- **What is asked of `compute_delay`**: a value within its bounds. -/
def DelayWithin (attemptIndex : ℕ) (u : Jitter) : Prop :=
  ∃ delay, policy.computeDelay attemptIndex u.val = .ok delay ∧
    0 ≤ delay ∧ delay ≤ policy.maxDelay.val * (3 / 2)

/-- The power that `compute_delay` takes is no `float`. -/
def Overflows (attemptIndex : ℕ) : Prop := powerBound ≤ policy.exponentialBase.val ^ attemptIndex

/-- The wrapper sleeps after the call `j`. -/
def Sleeps (j : ℕ) : Prop :=
  1 ≤ j ∧ j < policy.maxAttempts ∧ ∀ i, 1 ≤ i → i ≤ j → policy.settles (func i) = false

variable {policy func uniform} {remaining attempt k : ℕ} {last : Option Exc}

theorem delayWithin_iff {u : Jitter} : policy.DelayWithin k u ↔ ¬policy.Overflows k := by
  constructor
  · rintro ⟨delay, hok, -⟩ hover
    have herror : policy.computeDelay k u.val =
        .error ⟨"OverflowError", "(34, 'Numerical result out of range')"⟩ := if_pos hover
    rw [herror] at hok
    cases hok
  · intro hover
    have hok : ∃ delay, policy.computeDelay k u.val = .ok delay := ⟨_, if_neg hover⟩
    obtain ⟨delay, hok⟩ := hok
    exact ⟨delay, hok, computeDelay_bounds u.2.1 u.2.2 hok⟩

theorem exists_of_not_settles {outcome : Except Exc α} (h : policy.settles outcome = false) :
    ∃ exc, outcome = .error exc ∧ policy.isRetryable exc = true := by
  cases outcome with
  | ok value => cases h
  | error exc => exact ⟨exc, rfl, by simpa [settles] using h⟩

theorem retryLoop_settles (h : policy.settles (func attempt) = true) :
    policy.retryLoop func uniform (remaining + 1) attempt last =
      ⟨attempt, [], passOn (func attempt)⟩ := by
  rw [retryLoop]
  cases houtcome : func attempt with
  | ok value => rfl
  | error exc =>
    rw [houtcome] at h
    exact if_pos h

theorem retryLoop_retries (uniform : ℕ → Jitter) (remaining : ℕ) (last : Option Exc)
    (h : policy.settles (func attempt) = false) (hless : attempt < policy.maxAttempts)
    (hover : ¬policy.Overflows (attempt - 1)) :
    ∃ exc delay, policy.retryLoop func uniform (remaining + 1) attempt last =
      { policy.retryLoop func uniform remaining (attempt + 1) (some exc) with
        slept := delay ::
          (policy.retryLoop func uniform remaining (attempt + 1) (some exc)).slept } := by
  obtain ⟨exc, houtcome, hretry⟩ := exists_of_not_settles h
  obtain ⟨delay, hdelay, -⟩ := (delayWithin_iff (u := uniform attempt)).mpr hover
  refine ⟨exc, delay, ?_⟩
  rw [retryLoop, houtcome]
  simp only [hretry, Bool.not_true, Bool.false_eq_true, if_false, if_pos hless, hdelay]

theorem retryLoop_first (hk : attempt ≤ k) (hroom : k < attempt + remaining)
    (hmax : k ≤ policy.maxAttempts) (hsettles : policy.settles (func k) = true)
    (hbefore : ∀ j, attempt ≤ j → j < k → policy.settles (func j) = false)
    (hover : ∀ j, attempt ≤ j → j < k → ¬policy.Overflows (j - 1)) :
    (policy.retryLoop func uniform remaining attempt last).calls = k ∧
      (policy.retryLoop func uniform remaining attempt last).result = passOn (func k) := by
  induction remaining generalizing attempt last with
  | zero => omega
  | succ remaining ih =>
    rcases hk.eq_or_lt with rfl | hlt
    · rw [retryLoop_settles hsettles]
      exact ⟨rfl, rfl⟩
    · obtain ⟨exc, delay, hnext⟩ := retryLoop_retries uniform remaining last
        (hbefore attempt le_rfl hlt) (by omega) (hover attempt le_rfl hlt)
      rw [hnext]
      exact ih (by omega) (by omega) (fun j hj => hbefore j (by omega))
        fun j hj => hover j (by omega)

/-- The loop makes its last call, which is to be retried. -/
theorem retryLoop_all (uniform : ℕ → Jitter) (attempt remaining : ℕ) (last : Option Exc)
    (hattempt : attempt + remaining = policy.maxAttempts)
    (hnone : ∀ j, attempt ≤ j → j ≤ policy.maxAttempts → policy.settles (func j) = false)
    (hover : ∀ j, attempt ≤ j → j < policy.maxAttempts → ¬policy.Overflows (j - 1)) :
    (policy.retryLoop func uniform (remaining + 1) attempt last).calls = policy.maxAttempts ∧
      ∃ exc, func policy.maxAttempts = .error exc ∧
        (policy.retryLoop func uniform (remaining + 1) attempt last).result =
          .exhausted policy.maxAttempts exc := by
  induction remaining generalizing attempt last with
  | zero =>
    obtain rfl : attempt = policy.maxAttempts := hattempt
    obtain ⟨exc, houtcome, hretry⟩ := exists_of_not_settles (hnone _ le_rfl le_rfl)
    refine ⟨?_, exc, houtcome, ?_⟩ <;> simp [retryLoop, houtcome, hretry]
  | succ remaining ih =>
    obtain ⟨exc, delay, hnext⟩ := retryLoop_retries uniform (remaining + 1) last
      (hnone attempt le_rfl (by omega)) (by omega) (hover attempt le_rfl (by omega))
    rw [hnext]
    exact ih _ _ (by omega) (fun j hj => hnone j (by omega)) fun j hj => hover j (by omega)

theorem retryLoop_overflows (uniform : ℕ → Jitter) (remaining : ℕ) (last : Option Exc)
    (hk : attempt ≤ k) (hroom : k < attempt + remaining)
    (hmax : k < policy.maxAttempts)
    (hnone : ∀ j, attempt ≤ j → j ≤ k → policy.settles (func j) = false)
    (hbefore : ∀ j, attempt ≤ j → j < k → ¬policy.Overflows (j - 1))
    (hover : policy.Overflows (k - 1)) :
    ∃ e, (policy.retryLoop func uniform remaining attempt last).result = .delayFailed e := by
  induction remaining generalizing attempt last with
  | zero => omega
  | succ remaining ih =>
    rcases hk.eq_or_lt with rfl | hlt
    · obtain ⟨exc, houtcome, hretry⟩ := exists_of_not_settles (hnone attempt le_rfl le_rfl)
      have hdelay : policy.computeDelay (attempt - 1) (uniform attempt).val =
          .error ⟨"OverflowError", "(34, 'Numerical result out of range')"⟩ := if_pos hover
      exact ⟨_, by simp only [retryLoop, houtcome, hretry, hdelay, if_pos hmax, Bool.not_true,
        Bool.false_eq_true, if_false]; rfl⟩
    · obtain ⟨exc, delay, hnext⟩ := retryLoop_retries uniform remaining last
        (hnone attempt le_rfl hk) (by omega) (hbefore attempt le_rfl hlt)
      rw [hnext]
      exact ih _ (by omega) (by omega) (fun j hj => hnone j (by omega))
        fun j hj => hbefore j (by omega)

/-! ## When a wrapper does what its policy says -/

/-- A wrapper that does what it is asked does not fail in `compute_delay`, and does not report the
exhaustion of a single call. -/
theorem Meets.result_ne {run : WrapperRun α} (h : policy.Meets func run) :
    (∀ e, run.result ≠ .delayFailed e) ∧
      (policy.maxAttempts = 1 → ∀ n exc, run.result ≠ .exhausted n exc) := by
  by_cases hsome : ∃ k, 1 ≤ k ∧ k ≤ policy.maxAttempts ∧ policy.settles (func k) = true
  · obtain ⟨hone, hmax, hsettles⟩ := Nat.find_spec hsome
    have hfirst : ∀ j, 1 ≤ j → j < Nat.find hsome → policy.settles (func j) = false := by
      intro j hj hlt
      have hnot := Nat.find_min hsome hlt
      by_contra hyes
      exact hnot ⟨hj, by omega, by simpa using hyes⟩
    obtain ⟨-, hresult⟩ := h.settled _ hone hmax hsettles hfirst
    rw [hresult]
    cases func (Nat.find hsome) <;> simp [passOn]
  · obtain ⟨-, exc, -, hresult⟩ := h.exhausted fun k hone hmax => by
      by_contra hyes
      exact hsome ⟨k, hone, hmax, by simpa using hyes⟩
    rw [hresult]
    split_ifs with hmax <;> simp [hmax]

/-- **The loop does what the policy says** if and only if the single call of a policy settles it,
and no power that it needs is too large. -/
theorem retryLoop_meets_iff :
    policy.Meets func (policy.retryLoop func uniform policy.maxAttempts 1 none) ↔
      (policy.maxAttempts = 1 → policy.settles (func 1) = true) ∧
        ∀ j, policy.Sleeps func j → ¬policy.Overflows (j - 1) := by
  obtain ⟨n, hn⟩ : ∃ n, policy.maxAttempts = n + 1 :=
    ⟨policy.maxAttempts - 1, by have := policy.maxAttempts_pos; omega⟩
  constructor
  · intro h
    have hclear : ∀ j, policy.Sleeps func j → ¬policy.Overflows (j - 1) := by
      classical
      intro j hsleeps hover
      have hsome : ∃ j, policy.Sleeps func j ∧ policy.Overflows (j - 1) := ⟨j, hsleeps, hover⟩
      obtain ⟨⟨hone, hmax, hnone⟩, hleast⟩ := Nat.find_spec hsome
      obtain ⟨e, hresult⟩ := retryLoop_overflows uniform policy.maxAttempts none hone
        (by omega) hmax hnone
        (fun i hi hlt hover' => Nat.find_min hsome hlt
          ⟨⟨hi, by omega, fun i' hi' hle => hnone i' hi' (by omega)⟩, hover'⟩) hleast
      exact h.result_ne.1 e hresult
    refine ⟨fun hmax => ?_, hclear⟩
    by_contra hyes
    have hnone : ∀ j, 1 ≤ j → j ≤ policy.maxAttempts → policy.settles (func j) = false := by
      intro j hj hle
      obtain rfl : j = 1 := by omega
      simpa using hyes
    obtain ⟨-, exc, -, hresult⟩ := retryLoop_all uniform 1 n
      none (by omega) hnone (fun j hj hlt => by omega)
    rw [hn] at h
    exact h.result_ne.2 hmax _ _ (hn ▸ hresult)
  · rintro ⟨hsingle, hclear⟩
    constructor
    · intro k hone hmax hsettles hbefore
      exact retryLoop_first hone (by omega) hmax hsettles hbefore fun j hj hlt =>
        hclear j ⟨hj, by omega, fun i hi hle => hbefore i hi (by omega)⟩
    · intro hnone
      have hmany : policy.maxAttempts ≠ 1 := by
        intro hmax
        have hno := hnone 1 le_rfl policy.maxAttempts_pos
        rw [hsingle hmax] at hno
        cases hno
      simp only [if_neg hmany]
      have hall := retryLoop_all uniform 1 n none
        (by omega) hnone fun j hj hlt =>
          hclear j ⟨hj, hlt, fun i hi hle => hnone i hi (by omega)⟩
      rwa [← hn] at hall

/-- **Both wrappers and `compute_delay` do what the policy says** if and only if a single call
settles its policy, no power that the wrappers need is too large, and neither is the one asked
for. -/
theorem wrappers_meet_iff (policy : RetryPolicy) (func : ℕ → Except Exc α) (uniform : ℕ → Jitter)
    (attemptIndex : ℕ) (u : Jitter) :
    (policy.Meets func (policy.wrapAsync func uniform) ∧
        policy.Meets func (policy.wrapSync func uniform) ∧ policy.DelayWithin attemptIndex u) ↔
      (policy.maxAttempts = 1 → policy.settles (func 1) = true) ∧
        (∀ j, policy.Sleeps func j → ¬policy.Overflows (j - 1)) ∧
          ¬policy.Overflows attemptIndex := by
  unfold wrapAsync wrapSync
  rw [retryLoop_meets_iff, delayWithin_iff]
  tauto

/-- A single call that times out is reported as the exhaustion of one attempt. -/
theorem single_call_exhausted :
    let policy : RetryPolicy := ⟨1, ⟨1, "1.0"⟩, ⟨60, "60.0"⟩, ⟨2, "2.0"⟩, false, fun _ => true,
      by decide, by decide, by decide, by decide⟩
    let timeout : Exc := .error ⟨"TimeoutError", ""⟩
    (policy.wrapAsync (α := Unit) (fun _ => .error timeout) fun _ => ⟨1, by norm_num⟩).result =
        .exhausted 1 timeout ∧
      ¬policy.Meets (α := Unit) (fun _ => .error timeout)
        (policy.wrapAsync (fun _ => .error timeout) fun _ => ⟨1, by norm_num⟩) := by
  refine ⟨rfl, fun h => ?_⟩
  exact h.result_ne.2 rfl 1 _ rfl

end RetryPolicy

end Varco
