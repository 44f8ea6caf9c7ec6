import Mathlib.Tactic.Linarith
import Varco.Foundations.Text

/-!
# Retry policies

`RetryPolicy` and `RetryExhaustedError` of `varco_core.resilience.retry`. Delays are rational
numbers, without the rounding of `float`; a power that no `float` can hold raises, as it does in
Python.
-/

namespace Varco

/-- `type(exc).__name__` -/
def Exc.typeName : Exc → String
  | .cancelled => "CancelledError"
  | .error e => e.typeName

/-- `str(exc)` -/
def Exc.message : Exc → String
  | .cancelled => ""
  | .error e => e.message

/-- `RetryPolicy`. The exception types of `retryable_on` are subclasses of `Exception`;
`retryableOn` says which exceptions are instances of one of them. -/
structure RetryPolicy where
  maxAttempts : ℕ
  baseDelay : PyFloat
  maxDelay : PyFloat
  exponentialBase : PyFloat
  jitter : Bool
  retryableOn : PyException → Bool
  maxAttempts_pos : 1 ≤ maxAttempts
  baseDelay_nonneg : 0 ≤ baseDelay.val
  maxDelay_nonneg : 0 ≤ maxDelay.val
  exponentialBase_pos : 0 < exponentialBase.val

namespace RetryPolicy

/-- What a `float` power has to stay below. -/
def powerBound : ℚ := 2 ^ 1024 - 2 ^ 970

/-- `compute_delay(attempt_index)`, where `random.uniform(0.5, 1.5)` gives `uniform`. -/
def computeDelay (policy : RetryPolicy) (attemptIndex : ℕ) (uniform : ℚ) :
    Except PyException ℚ :=
  let power := policy.exponentialBase.val ^ attemptIndex
  if powerBound ≤ power then
    .error ⟨"OverflowError", "(34, 'Numerical result out of range')"⟩
  else
    let raw := min (policy.baseDelay.val * power) policy.maxDelay.val
    .ok (if policy.jitter then raw * uniform else raw)

/-- A delay is at most half above the bound, and never negative. -/
theorem computeDelay_bounds {policy : RetryPolicy} {attemptIndex : ℕ} {uniform delay : ℚ}
    (hlow : 1 / 2 ≤ uniform) (hhigh : uniform ≤ 3 / 2)
    (h : policy.computeDelay attemptIndex uniform = .ok delay) :
    0 ≤ delay ∧ delay ≤ policy.maxDelay.val * (3 / 2) := by
  have hmax := policy.maxDelay_nonneg
  by_cases hpower : powerBound ≤ policy.exponentialBase.val ^ attemptIndex
  · rw [computeDelay, if_pos hpower] at h
    cases h
  · rw [computeDelay, if_neg hpower] at h
    have hraw : 0 ≤ min (policy.baseDelay.val * policy.exponentialBase.val ^ attemptIndex)
        policy.maxDelay.val :=
      le_min (mul_nonneg policy.baseDelay_nonneg (pow_nonneg policy.exponentialBase_pos.le _)) hmax
    have hle := min_le_right (policy.baseDelay.val * policy.exponentialBase.val ^ attemptIndex)
      policy.maxDelay.val
    rw [← Except.ok.inj h]
    split
    · exact ⟨mul_nonneg hraw (by linarith), mul_le_mul hle hhigh (by linarith) hmax⟩
    · exact ⟨hraw, by linarith⟩

/-- `is_retryable(exc)` -/
def isRetryable (policy : RetryPolicy) : Exc → Bool
  | .cancelled => false
  | .error exc => policy.retryableOn exc

end RetryPolicy

/-- `RetryExhaustedError(func_name, attempts, last_exc)` -/
def retryExhaustedError (funcName : String) (attempts : ℕ) (lastExc : Exc) : PyException :=
  ⟨"RetryExhaustedError", s!"{pyRepr funcName} failed after {attempts} attempt(s). " ++
    s!"Last error ({lastExc.typeName}): {lastExc.message}"⟩

end Varco
