import Varco.Resilience.BreakerSafety

/-!
# The two paths of a circuit breaker

`call_sync` and `call_async`, one call after the other. Both check for recovery alike, and they
treat a success alike. A monitored failure while the breaker is half-open opens it at once on the
asynchronous path; on the synchronous path it is counted as any other failure, and opens the breaker
at the failure threshold.
-/

namespace Varco

namespace CircuitBreaker

open EventLoop

variable {V : Type} {config : CircuitBreakerConfig} {name : String}

/-! ## Calls in sequence -/

/-- What is seen of a call: whether it was admitted, and the breaker after it. -/
structure Decision where
  admitted : Bool
  state : CircuitState
  failureCount : ℕ
  successCount : ℕ
  deriving DecidableEq

def wasRejected : Prog (BreakerCmd V) BreakerCmd.Res (Except BreakerExc V) → Bool
  | .ret (.error (.rejected _)) => true
  | _ => false

/-- A call at the time of the reply on its own, whose function, if it is invoked, ends with the
outcome of the reply: whether it was admitted, and the breaker after it. -/
def callAlone (call : BreakerM V V) (b : Breaker) (r : FuncReply V) : Bool × Breaker :=
  let out := drive (alone Circuit.now Circuit.wake r) call.run ⟨b, r.time⟩
  (!wasRejected out.1, out.2.breaker)

def decisions (call : BreakerM V V) : Breaker → List (FuncReply V) → List Decision
  | _, [] => []
  | b, r :: l =>
    let out := callAlone call b r
    ⟨out.1, out.2.state, out.2.failureCount, out.2.successCount⟩ :: decisions call out.2 l

/-- A call at this time probes, and its function fails with a monitored exception. -/
def ProbeFails (config : CircuitBreakerConfig) (b : Breaker) (r : FuncReply V) : Prop :=
  (b.recovered config r.time).state = .halfOpen ∧
    ∃ exc, r.outcome = .error exc ∧ config.monitors exc = true

/-- No probe of the sequence fails with a monitored exception, when it is run through
`call_async`. -/
def NoProbeFails (config : CircuitBreakerConfig) (name : String) :
    Breaker → List (FuncReply V) → Prop
  | _, [] => True
  | b, r :: l =>
    ¬ProbeFails config b r ∧ NoProbeFails config name (callAlone (callAsync config name) b r).2 l

/-- Between two calls that do not overlap the lock is free, and failures are counted for a closed
breaker only. -/
structure Idle (b : Breaker) : Prop where
  free : b.locked = false
  fresh : b.state ≠ .closed → b.failureCount = 0

section

variable {b : Breaker} {r : FuncReply V}

theorem callAlone_eq {call : BreakerM V V} {p : Prog (BreakerCmd V) BreakerCmd.Res _} {s : Circuit}
    (h : drive Circuit.now call.run ⟨b, r.time⟩ = (p, s)) :
    callAlone call b r = (!wasRejected (drive (alone Circuit.now Circuit.wake r) p s).1,
      (drive (alone Circuit.now Circuit.wake r) p s).2.breaker) := by
  unfold callAlone
  rw [← drive_alone, h]

theorem wasRejected_raising (a : Except Exc V) : wasRejected (.ret (raising a)) = false := by
  cases a <;> rfl

/-- A call that awaits the function is admitted, and ends when the function ends. -/
theorem callAlone_func {call : BreakerM V V} {p : Prog (BreakerCmd V) BreakerCmd.Res _}
    {probe : Bool} {k : Except Exc V → Prog (BreakerCmd V) BreakerCmd.Res _} {b₁ b₂ : Breaker}
    (h : drive Circuit.now call.run ⟨b, r.time⟩ = (p, ⟨b₁, r.time⟩)) (hp : p = .cmd (.func probe) k)
    (hk : drive Circuit.now (k r.outcome) ⟨b₁, r.time⟩ =
      (.ret (raising r.outcome), ⟨b₂, r.time⟩)) :
    callAlone call b r = (true, b₂) := by
  have hwake : alone Circuit.now Circuit.wake r (.func probe) ⟨b₁, r.time⟩ =
      some (r.outcome, ⟨b₁, r.time⟩) := by
    simp [alone, Circuit.now, Circuit.wake]
  rw [callAlone_eq h, hp, drive_cmd_some hwake, ← drive_alone, hk, drive_ret, wasRejected_raising]
  rfl

/-- **`call_sync` on its own**: an open breaker rejects it, else it is counted. -/
theorem callAlone_sync : callAlone (callSync config name) b r =
    if (b.recovered config r.time).state = .open then (false, b.recovered config r.time)
    else (true, afterCall config r.time r.outcome (b.recovered config r.time)) := by
  have hdrive := @drive_callSync V config name ⟨b, r.time⟩
  split
  case isTrue hopen =>
    rw [if_pos hopen] at hdrive
    exact callAlone_eq hdrive
  case isFalse hopen =>
    obtain ⟨k, hk, hend⟩ := @drive_callClosedAsync V config
    rw [if_neg hopen, hk] at hdrive
    exact callAlone_func hdrive rfl (hend _ _)

/-- **`call_async` on its own**, with the lock free: a probe or a call on a closed breaker. -/
theorem callAlone_async (hfree : b.locked = false) : callAlone (callAsync config name) b r =
    if (b.recovered config r.time).state = .open then (false, b.recovered config r.time)
    else if (b.recovered config r.time).state = .halfOpen then
      (true, afterProbe config r.time r.outcome { b.recovered config r.time with locked := true })
    else (true, afterCall config r.time r.outcome (b.recovered config r.time)) := by
  have hlocked : (b.recovered config r.time).locked = false := locked_recovered.trans hfree
  cases hstate : (b.recovered config r.time).state with
  | «open» =>
    rw [if_pos rfl]
    have hadm : admission (b.recovered config r.time) = .reject := by simp [admission, hstate]
    exact callAlone_eq (drive_callAsync_reject (s := ⟨b, r.time⟩) hadm)
  | halfOpen =>
    rw [if_neg (by simp), if_pos rfl]
    have hadm : admission (b.recovered config r.time) = .probe := by
      simp [admission, hstate, hlocked]
    obtain ⟨k, hk, hend⟩ := @drive_probe V config
    exact callAlone_func (drive_callAsync_probe (s := ⟨b, r.time⟩) hadm) hk (hend _ _)
  | closed =>
    rw [if_neg (by simp), if_neg (by simp)]
    have hadm : admission (b.recovered config r.time) = .call := by simp [admission, hstate]
    obtain ⟨k, hk, hend⟩ := @drive_callClosedAsync V config
    exact callAlone_func (drive_callAsync_call (s := ⟨b, r.time⟩) hadm) hk (hend _ _)

theorem idle_recovered (h : Idle b) (clock : ℚ) : Idle (b.recovered config clock) := by
  refine ⟨locked_recovered.trans h.free, ?_⟩
  unfold Breaker.recovered
  split
  case isTrue hopen =>
    intro _
    exact h.fresh (by simp [hopen.1])
  case isFalse => exact h.fresh

theorem idle_afterCall (h : Idle b) (hclosed : b.state = .closed) (clock : ℚ) (a : Except Exc V) :
    Idle (afterCall config clock a b) := by
  refine ⟨(locked_afterCall a).trans h.free, ?_⟩
  cases a with
  | ok v =>
    intro hne
    simp [afterCall, Breaker.succeeded, hclosed] at hne
  | error exc =>
    simp only [afterCall, Breaker.failed]
    split
    · split
      · intro _
        rfl
      · intro hne
        exact absurd hclosed hne
    · exact h.fresh

theorem idle_afterProbe (h : Idle b) (hhalf : b.state = .halfOpen) (clock : ℚ)
    (a : Except Exc V) : Idle (afterProbe config clock a { b with locked := true }) := by
  have hzero : b.failureCount = 0 := h.fresh (by simp [hhalf])
  cases a with
  | ok v =>
    refine ⟨rfl, fun _ => ?_⟩
    simp only [afterProbe, Breaker.succeeded, hhalf, if_true]
    split
    · rfl
    · exact hzero
  | error exc =>
    refine ⟨rfl, fun _ => ?_⟩
    simp only [afterProbe]
    split
    · rfl
    · exact hzero

theorem idle_callAlone (h : Idle b) : Idle (callAlone (callAsync config name) b r).2 := by
  have hrec : Idle (b.recovered config r.time) := idle_recovered h r.time
  rw [callAlone_async h.free]
  split
  · exact hrec
  · split
    case isTrue hhalf => exact idle_afterProbe hrec hhalf _ _
    case isFalse hopen hhalf =>
      refine idle_afterCall hrec ?_ _ _
      cases hstate : (b.recovered config r.time).state with
      | closed => rfl
      | «open» => exact absurd hstate hopen
      | halfOpen => exact absurd hstate hhalf

/-- A probe that does not fail with a monitored exception, and every probe if one failure opens the
breaker, is counted by both paths alike. -/
theorem afterProbe_eq (h : Idle b) (hhalf : b.state = .halfOpen) (clock : ℚ) {a : Except Exc V}
    (hok : config.failureThreshold = 1 ∨
      ¬∃ exc, a = .error exc ∧ config.monitors exc = true) :
    afterCall config clock a b = afterProbe config clock a { b with locked := true } := by
  obtain ⟨state, failureCount, successCount, openedAt, locked⟩ := b
  obtain ⟨hfree, hfresh⟩ := h
  cases hfree
  cases hhalf
  cases hfresh (by simp)
  cases a with
  | ok v =>
    simp only [afterCall, afterProbe, Breaker.succeeded, if_true]
    split <;> rfl
  | error exc =>
    simp only [afterCall, afterProbe, Breaker.failed]
    split
    case isFalse => rfl
    case isTrue hmon =>
      rcases hok with hone | hnone
      · simp [hone, Breaker.opened]
      · exact absurd ⟨exc, rfl, hmon⟩ hnone

/-- **A call that both paths treat alike.** -/
theorem callAlone_eq_of (h : Idle b)
    (hok : config.failureThreshold = 1 ∨ ¬ProbeFails config b r) :
    callAlone (callSync config name) b r = callAlone (callAsync config name) b r := by
  rw [callAlone_sync, callAlone_async h.free]
  split
  · rfl
  · split
    case isTrue hhalf =>
      have hprobe : config.failureThreshold = 1 ∨
          ¬∃ exc, r.outcome = .error exc ∧ config.monitors exc = true :=
        hok.imp_right fun hnot hex => hnot ⟨hhalf, hex⟩
      rw [afterProbe_eq (idle_recovered h _) hhalf _ hprobe]
    case isFalse => rfl

/-- **A call that they do not**: the asynchronous path opens the breaker, the synchronous path keeps
it half-open. -/
theorem callAlone_ne_of (h : Idle b) (hth : config.failureThreshold ≠ 1)
    (hfails : ProbeFails config b r) :
    (callAlone (callSync config name) b r).2.state = .halfOpen ∧
      (callAlone (callAsync config name) b r).2.state = .open := by
  obtain ⟨hhalf, exc, hexc, hmon⟩ := hfails
  have hopen : ¬(b.recovered config r.time).state = .open := by simp [hhalf]
  have hzero : (b.recovered config r.time).failureCount = 0 :=
    (idle_recovered h r.time).fresh (by simp [hhalf])
  have hmore : ¬config.failureThreshold ≤ 0 + 1 := by
    have := config.failureThreshold_pos
    omega
  rw [callAlone_sync, callAlone_async h.free, if_neg hopen, if_neg hopen, if_pos hhalf, hexc]
  refine ⟨?_, ?_⟩
  · simp only [afterCall, hmon, if_true, Breaker.failed, hzero, if_neg hmore]
    exact hhalf
  · simp only [afterProbe, hmon, if_true, Breaker.opened]

end

/-! ## Sequences of calls -/

theorem decisions_eq_iff {b : Breaker} (h : Idle b) (l : List (FuncReply V)) :
    decisions (callSync config name) b l = decisions (callAsync config name) b l ↔
      config.failureThreshold = 1 ∨ NoProbeFails config name b l := by
  induction l generalizing b with
  | nil => simp [decisions, NoProbeFails]
  | cons r l ih =>
    have hidle : Idle (callAlone (callAsync config name) b r).2 := idle_callAlone h
    have hnext := ih hidle
    by_cases hok : config.failureThreshold = 1 ∨ ¬ProbeFails config b r
    · simp only [decisions, callAlone_eq_of h hok, List.cons.injEq, true_and, hnext, NoProbeFails]
      tauto
    · obtain ⟨hth, hfails⟩ := not_or.mp hok
      obtain ⟨hsync, hasync⟩ := @callAlone_ne_of V config name b r h hth (not_not.mp hfails)
      simp only [decisions, List.cons.injEq, Decision.mk.injEq, hsync, hasync, NoProbeFails]
      tauto

/-- **When the two paths agree.** Through `call_sync` and through `call_async` every sequence of
calls is admitted alike and leaves the same state and counts after each call, if and only if one
failure opens the breaker or no probe of the sequence fails with a monitored exception. -/
theorem paths_agree_iff (V : Type) (config : CircuitBreakerConfig) (name : String)
    (l : List (FuncReply V)) :
    decisions (callSync config name) {} l = decisions (callAsync config name) {} l ↔
      config.failureThreshold = 1 ∨ NoProbeFails config name {} l :=
  decisions_eq_iff ⟨rfl, fun h => absurd rfl h⟩ l

/-- Two failures open the breaker for 30 seconds, one success closes it. -/
def lenient : CircuitBreakerConfig := { strict with
  failureThreshold := 2
  failureThreshold_pos := by decide }

/-- Two failures, a probe that fails, and a success one second later. -/
def failingProbe : List (FuncReply Unit) :=
  [⟨0, .error (.error ⟨"ConnectionError", ""⟩)⟩, ⟨1, .error (.error ⟨"ConnectionError", ""⟩)⟩,
    ⟨31, .error (.error ⟨"ConnectionError", ""⟩)⟩, ⟨32, .ok ()⟩]

/-- The last call is admitted and closes the breaker on the synchronous path, and is rejected on the
asynchronous path. -/
theorem paths_differ : (failingProbe.map (·.time)).Pairwise (· ≤ ·) ∧
    decisions (callSync lenient "payments") {} failingProbe ≠
      decisions (callAsync lenient "payments") {} failingProbe ∧
    decisions (callSync lenient "payments") {} failingProbe =
      [⟨true, .closed, 1, 0⟩, ⟨true, .open, 0, 0⟩, ⟨true, .halfOpen, 1, 0⟩,
        ⟨true, .closed, 0, 0⟩] ∧
    decisions (callAsync lenient "payments") {} failingProbe =
      [⟨true, .closed, 1, 0⟩, ⟨true, .open, 0, 0⟩, ⟨true, .open, 0, 0⟩,
        ⟨false, .open, 0, 0⟩] := by
  decide +kernel

end CircuitBreaker

end Varco
