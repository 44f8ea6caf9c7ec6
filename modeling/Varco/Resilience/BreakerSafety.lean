import Varco.Resilience.CircuitBreaker

/-!
# Safety of a circuit breaker

A call is in one of four phases between two suspensions: it has not started, it awaits the protected
function as a probe or as a call on a closed breaker, or it has ended. Every step of the loop moves
one call between phases (`moves_of_step`).

What is seen of a step is `Seen`: the breaker before and after it, whether the protected function is
invoked, and whether it has succeeded. A half-open period of what was seen begins with the step that
makes the breaker half-open. The breaker counts every success in that period, so it counts that of a
call that was admitted before the period too (`outsider_closes`).
-/

namespace Varco

open List

namespace CircuitBreaker

open EventLoop

variable {V ι : Type} [DecidableEq ι] {config : CircuitBreakerConfig} {name : String}

/-! ## What can be seen of a loop -/

/-- How a call awaits the protected function, if it does: as a probe or not. -/
def awaitsFunc : Prog (BreakerCmd V) BreakerCmd.Res (Except BreakerExc V) → Option Bool
  | .cmd (.func probe) _ => some probe
  | _ => none

def returns : Wake (FuncReply V) → Bool
  | .resume r => r.outcome.isOk
  | .cancel => false

/-- What is seen of a step: its task, the time and the breaker before and after it; whether the
protected function is invoked, as a probe or not; whether it has succeeded. -/
structure Seen (ι : Type) where
  task : ι
  clock : ℚ
  before : Breaker
  after : Breaker
  invoked : Option Bool
  succeeded : Bool
  deriving DecidableEq

/-- What is seen of the step from `P` to `P'`. -/
def observe (P : BreakerPool V ι) (e : BreakerEvent V ι) (P' : BreakerPool V ι) : Seen ι where
  task := e.task
  clock := P'.shared.clock
  before := P.shared.breaker
  after := P'.shared.breaker
  invoked := awaitsFunc (P'.prog e.task)
  succeeded := (awaitsFunc (P.prog e.task)).isSome && returns e.wake

def SeenStep (P : BreakerPool V ι) (t : Seen ι) (P' : BreakerPool V ι) : Prop :=
  ∃ e, Step Circuit.now Circuit.wake P e P' ∧ observe P e P' = t

def successes (l : List (Seen ι)) : List ι := (l.filter (·.succeeded)).map (·.task)

def probes (l : List (Seen ι)) : List ι := (l.filter (·.invoked = some true)).map (·.task)

/-- The breaker is half-open after `l`, and `p` is what was seen since it is. -/
def Period (l p : List (Seen ι)) : Prop :=
  ∃ l₁ t p', l = l₁ ++ p ∧ p = t :: p' ∧ t.before.state ≠ .halfOpen ∧ t.after.state = .halfOpen ∧
    ∀ u ∈ p', u.before.state = .halfOpen

def Rejecting (config : CircuitBreakerConfig) (clock : ℚ) (b : Breaker) : Prop :=
  b.state = .open ∧ ¬b.Elapsed config clock

/-- The protected function is not invoked while the breaker rejects. -/
def InvokesWhenAllowed (config : CircuitBreakerConfig) (l : List (Seen ι)) : Prop :=
  ∀ t ∈ l, t.invoked ≠ none → ¬Rejecting config t.clock t.after

def OneProbe (P : BreakerPool V ι) : Prop :=
  ∀ i j, awaitsFunc (P.prog i) = some true → awaitsFunc (P.prog j) = some true → i = j

/-- The breaker is closed only by `success_threshold` successful probes of the half-open period. -/
def ClosedByProbes (config : CircuitBreakerConfig) (l : List (Seen ι)) : Prop :=
  ∀ l₁ (t : Seen ι) l₂, l = l₁ ++ t :: l₂ → t.before.state = .halfOpen → t.after.state = .closed →
    ∃ p, Period (l₁ ++ [t]) p ∧ ∃ calls : List ι, calls.Nodup ∧
      calls.length = config.successThreshold ∧ ∀ i ∈ calls, i ∈ probes p ∧ i ∈ successes p

/-- A call that succeeds while the breaker is half-open was begun as a probe in this period. -/
def OnlyProbes (l : List (Seen ι)) (_ : BreakerPool V ι) (t : Seen ι) : Prop :=
  t.before.state = .halfOpen → t.succeeded = true → ∃ p, Period l p ∧ t.task ∈ probes p

/-! ## Phases -/

/-- Where a call is suspended, or what it has ended with. -/
inductive Phase (V : Type)
  | waiting
  | probing
  | calling
  | ended (r : Except BreakerExc V)

def Phase.prog (config : CircuitBreakerConfig) (name : String) :
    Phase V → Prog (BreakerCmd V) BreakerCmd.Res (Except BreakerExc V)
  | .waiting => (task config name).run
  | .probing => (releasing (probe config)).run
  | .calling => (callClosedAsync config).run
  | .ended r => .ret r

def InPhases (config : CircuitBreakerConfig) (name : String) (phase : ι → Phase V)
    (P : BreakerPool V ι) : Prop :=
  ∀ i, P.prog i = (phase i).prog config name

def ending : Wake (FuncReply V) → Except Exc V
  | .resume r => r.outcome
  | .cancel => .error .cancelled

def wokenAt (s : Circuit) : Wake (FuncReply V) → ℚ
  | .resume r => r.time
  | .cancel => s.clock

/-- How one call moves. -/
inductive Moves (config : CircuitBreakerConfig) (phase : ι → Phase V) (s : Circuit) :
    BreakerEvent V ι → Phase V → Circuit → Prop
  | aborts (i : ι) (h : phase i = .waiting) :
      Moves config phase s ⟨i, .cancel⟩ (.ended (.error (.raised .cancelled))) s
  | rejected (i : ι) (r : FuncReply V) (e : CircuitOpenError) (h : phase i = .waiting) :
      Moves config phase s ⟨i, .resume r⟩ (.ended (.error (.rejected e)))
        ⟨s.breaker.recovered config r.time, r.time⟩
  | probes (i : ι) (r : FuncReply V) (h : phase i = .waiting)
      (hadm : admission (s.breaker.recovered config r.time) = .probe) :
      Moves config phase s ⟨i, .resume r⟩ .probing
        ⟨{ s.breaker.recovered config r.time with locked := true }, r.time⟩
  | calls (i : ι) (r : FuncReply V) (h : phase i = .waiting)
      (hadm : admission (s.breaker.recovered config r.time) = .call) :
      Moves config phase s ⟨i, .resume r⟩ .calling ⟨s.breaker.recovered config r.time, r.time⟩
  | probed (i : ι) (w : Wake (FuncReply V)) (h : phase i = .probing) :
      Moves config phase s ⟨i, w⟩ (.ended (raising (ending w)))
        ⟨afterProbe config (wokenAt s w) (ending w) s.breaker, wokenAt s w⟩
  | called (i : ι) (w : Wake (FuncReply V)) (h : phase i = .calling) :
      Moves config phase s ⟨i, w⟩ (.ended (raising (ending w)))
        ⟨afterCall config (wokenAt s w) (ending w) s.breaker, wokenAt s w⟩

section

variable {phase : ι → Phase V} {s s' : Circuit} {P P' : BreakerPool V ι} {e : BreakerEvent V ι}

/-- A call that awaits the function is woken at a later time, or cancelled. -/
theorem wake_func {w : Wake (FuncReply V)} {probe : Bool} {r : Except Exc V}
    (h : Circuit.wake w (.func probe) s = some (r, s')) :
    r = ending w ∧ s' = ⟨s.breaker, wokenAt s w⟩ := by
  cases w with
  | cancel =>
    cases h
    exact ⟨rfl, rfl⟩
  | resume x =>
    simp only [Circuit.wake] at h
    split at h
    · cases h
      exact ⟨rfl, rfl⟩
    · cases h

/-- **What a step does**: one call moves. -/
theorem moves_of_step (hprog : InPhases config name phase P)
    (hst : Step Circuit.now Circuit.wake P e P') :
    ∃ ph, Moves config phase P.shared e ph P'.shared ∧
      InPhases config name (Function.update phase e.task ph) P' := by
  obtain ⟨c, k, r, s, hk, hwake, rfl⟩ := hst.inv
  obtain ⟨i, w⟩ := e
  -- the new phase of the call is what it is driven to
  have hmove : ∀ (ph : Phase V) (s' : Circuit),
      drive Circuit.now (k r) s = (ph.prog config name, s') →
      Moves config phase P.shared ⟨i, w⟩ ph s' →
      ∃ ph, Moves config phase P.shared ⟨i, w⟩ ph (drive Circuit.now (k r) s).2 ∧
        InPhases config name (Function.update phase i ph)
          ⟨(drive Circuit.now (k r) s).2,
            Function.update P.prog i (drive Circuit.now (k r) s).1⟩ := by
    intro ph s' hdrive hmoves
    rw [hdrive]
    refine ⟨_, hmoves, fun j => ?_⟩
    by_cases hj : j = i
    · subst hj
      simp
    · simpa [hj] using hprog j
  rw [hprog i] at hk
  cases hphase : phase i with
  | waiting =>
    rw [hphase] at hk
    cases hk
    cases w with
    | cancel =>
      cases hwake
      exact hmove (.ended _) _ rfl (.aborts i hphase)
    | resume x =>
      simp only [Circuit.wake] at hwake
      split at hwake
      case isFalse => cases hwake
      case isTrue =>
        cases hwake
        cases hadm : admission (P.shared.breaker.recovered config x.time) with
        | reject =>
          exact hmove (.ended _) _ (drive_callAsync_reject (s := ⟨_, x.time⟩) hadm)
            (.rejected i x _ hphase)
        | probe =>
          exact hmove .probing _ (drive_callAsync_probe (s := ⟨_, x.time⟩) hadm)
            (.probes i x hphase hadm)
        | call =>
          exact hmove .calling _ (drive_callAsync_call (s := ⟨_, x.time⟩) hadm)
            (.calls i x hphase hadm)
  | probing =>
    obtain ⟨k', hk', hdrive⟩ := @drive_probe V config
    rw [hphase, Phase.prog, hk'] at hk
    cases hk
    obtain ⟨rfl, rfl⟩ := wake_func hwake
    exact hmove (.ended _) _ (hdrive _ _) (.probed i w hphase)
  | calling =>
    obtain ⟨k', hk', hdrive⟩ := @drive_callClosedAsync V config
    rw [hphase, Phase.prog, hk'] at hk
    cases hk
    obtain ⟨rfl, rfl⟩ := wake_func hwake
    exact hmove (.ended _) _ (hdrive _ _) (.called i w hphase)
  | ended r' =>
    rw [hphase] at hk
    cases hk

end

/-! ## Counting -/

/-- The successes that a breaker has counted are fewer than it needs, and none outside a half-open
period. -/
structure Tallied (config : CircuitBreakerConfig) (b : Breaker) : Prop where
  bounded : b.successCount < config.successThreshold
  outside : b.state ≠ .halfOpen → b.successCount = 0

/-- What a step that saw a success or none does to the count. -/
structure Counts (config : CircuitBreakerConfig) (b b' : Breaker) (success : Bool) : Prop where
  tallied : Tallied config b'
  begins : b.state ≠ .halfOpen → b'.state = .halfOpen → success = false ∧ b'.successCount = 0
  goes_on : b.state = .halfOpen → b'.state = .halfOpen →
    b'.successCount = b.successCount + success.toNat
  closes : b.state = .halfOpen → b'.state = .closed →
    success = true ∧ b.successCount + 1 = config.successThreshold

section

variable {b : Breaker} {clock : ℚ}

omit [DecidableEq ι]

theorem Counts.lock {b' : Breaker} {success locked : Bool} (h : Counts config b b' success) :
    Counts config b { b' with locked } success :=
  ⟨⟨h.tallied.bounded, h.tallied.outside⟩, h.begins, h.goes_on, h.closes⟩

theorem counts_refl (hb : Tallied config b) : Counts config b b false where
  tallied := hb
  begins hne heq := absurd heq hne
  goes_on _ _ := rfl
  closes hhalf hclosed := by simp [hhalf] at hclosed

theorem counts_recovered (hb : Tallied config b) :
    Counts config b (b.recovered config clock) false := by
  unfold Breaker.recovered
  split
  case isFalse => exact counts_refl hb
  case isTrue hopen =>
    have hzero : b.successCount = 0 := hb.outside (by simp [hopen.1])
    refine ⟨⟨hb.bounded, fun hne => absurd rfl hne⟩, fun _ _ => ⟨rfl, hzero⟩, ?_, ?_⟩
    · intro hhalf
      simp [hopen.1] at hhalf
    · intro _ hclosed
      cases hclosed

theorem counts_opened : Counts config b (b.opened clock) false where
  tallied := ⟨config.successThreshold_pos, fun _ => rfl⟩
  begins _ h := by cases h
  goes_on _ h := by cases h
  closes _ h := by cases h

theorem counts_failed (hb : Tallied config b) :
    Counts config b (b.failed config clock) false := by
  unfold Breaker.failed
  split
  · exact counts_opened
  · exact ⟨⟨hb.bounded, hb.outside⟩, (counts_refl hb).begins, (counts_refl hb).goes_on,
      (counts_refl hb).closes⟩

theorem counts_succeeded (hb : Tallied config b) :
    Counts config b (b.succeeded config) true := by
  have hlt := hb.bounded
  unfold Breaker.succeeded
  split
  case isTrue hhalf =>
    split
    case isTrue hfull =>
      refine ⟨⟨config.successThreshold_pos, fun _ => rfl⟩, fun hne => absurd hhalf hne, ?_, ?_⟩
      · intro _ h
        cases h
      · intro _ _
        exact ⟨rfl, by omega⟩
    case isFalse hmore =>
      refine ⟨⟨not_le.mp hmore, fun hne => absurd hhalf hne⟩, fun hne => absurd hhalf hne, ?_, ?_⟩
      · intro _ _
        rfl
      · intro _ hclosed
        simp [hhalf] at hclosed
  case isFalse hne =>
    exact ⟨⟨hb.bounded, hb.outside⟩, fun _ h => absurd h hne, fun h => absurd h hne,
      fun h => absurd h hne⟩

theorem counts_afterCall (hb : Tallied config b) (r : Except Exc V) :
    Counts config b (afterCall config clock r b) r.isOk := by
  cases r with
  | ok a => exact counts_succeeded hb
  | error exc =>
    change Counts config b (if config.monitors exc then b.failed config clock else b) false
    split
    · exact counts_failed hb
    · exact counts_refl hb

theorem counts_afterProbe (hb : Tallied config b) (r : Except Exc V) :
    Counts config b (afterProbe config clock r b) r.isOk := by
  cases r with
  | ok a => exact (counts_succeeded hb).lock
  | error exc =>
    have hcounts : Counts config b (if config.monitors exc then b.opened clock else b) false := by
      split
      · exact counts_opened
      · exact counts_refl hb
    exact hcounts.lock

end

/-- How a call in a phase awaits the protected function, if it does. -/
def Phase.func : Phase V → Option Bool
  | .waiting => none
  | .probing => some true
  | .calling => some false
  | .ended _ => none

/-- The count is right, and the lock is held by the one probe in flight. -/
structure Sound (config : CircuitBreakerConfig) (phase : ι → Phase V) (s : Circuit) : Prop where
  tallied : Tallied config s.breaker
  locks : ∀ i, phase i = .probing → s.breaker.locked = true
  unique : ∀ i j, phase i = .probing → phase j = .probing → i = j

section

variable {phase : ι → Phase V} {s s' : Circuit} {P P' : BreakerPool V ι} {e : BreakerEvent V ι}
  {ph : Phase V} {b : Breaker} {clock : ℚ}

omit [DecidableEq ι]

theorem awaitsFunc_prog : awaitsFunc (ph.prog config name) = ph.func := by
  cases ph <;> rfl

theorem locked_recovered : (b.recovered config clock).locked = b.locked := by
  unfold Breaker.recovered
  split <;> rfl

theorem locked_failed : (b.failed config clock).locked = b.locked := by
  unfold Breaker.failed
  split <;> rfl

theorem locked_succeeded : (b.succeeded config).locked = b.locked := by
  unfold Breaker.succeeded
  split
  · split <;> rfl
  · rfl

theorem locked_afterCall (r : Except Exc V) :
    (afterCall config clock r b).locked = b.locked := by
  cases r with
  | ok a => exact locked_succeeded
  | error exc =>
    change (if config.monitors exc then b.failed config clock else b).locked = b.locked
    split
    · exact locked_failed
    · rfl

/-- Only a half-open breaker that is not locked lets a call probe. -/
theorem admission_probe (h : admission b = .probe) : b.state = .halfOpen ∧ b.locked = false := by
  unfold admission at h
  split at h
  · cases h
  · split at h
    · cases h
    case isFalse hstate hlocked => exact ⟨hstate, by simpa using hlocked⟩
  · cases h

theorem admission_call (h : admission b = .call) : b.state = .closed := by
  unfold admission at h
  split at h
  · cases h
  · split at h <;> cases h
  case h_3 hstate => exact hstate

variable [DecidableEq ι]

/-- A call that does not begin to probe leaves the others and the lock alone. -/
theorem Sound.update (h : Sound config phase s) (htally : Tallied config s'.breaker) {i : ι}
    (hph : ph ≠ .probing) (hlock : s'.breaker.locked = s.breaker.locked) :
    Sound config (Function.update phase i ph) s' := by
  have hold : ∀ j, Function.update phase i ph j = .probing → phase j = .probing := by
    intro j hj
    by_cases hji : j = i
    · subst hji
      exact absurd (by simpa using hj) hph
    · simpa [hji] using hj
  exact ⟨htally, fun j hj => hlock.trans (h.locks j (hold j hj)),
    fun j j' hj hj' => h.unique j j' (hold j hj) (hold j' hj')⟩

/-- **A move keeps the breaker sound.** -/
theorem Moves.sound (hm : Moves config phase s e ph s') (h : Sound config phase s) :
    Sound config (Function.update phase e.task ph) s' := by
  cases hm with
  | aborts i hphase => exact h.update h.tallied (by simp) rfl
  | rejected i r exc hphase =>
    exact h.update (counts_recovered h.tallied).tallied (by simp) locked_recovered
  | calls i r hphase hadm =>
    exact h.update (counts_recovered h.tallied).tallied (by simp) locked_recovered
  | called i w hphase =>
    exact h.update (counts_afterCall h.tallied _).tallied (by simp) (locked_afterCall _)
  | probes i r hphase hadm =>
    -- the lock was free, so there is no other probe
    have hfree : s.breaker.locked = false := locked_recovered.symm.trans (admission_probe hadm).2
    have hnone : ∀ j, phase j ≠ .probing := by
      intro j hj
      simp [h.locks j hj] at hfree
    have honly : ∀ j, Function.update phase i .probing j = .probing → j = i := by
      intro j hj
      by_contra hji
      exact hnone j (by simpa [hji] using hj)
    refine ⟨(counts_recovered h.tallied).lock.tallied, fun _ _ => rfl, ?_⟩
    intro j j' hj hj'
    rw [honly j hj, honly j' hj']
  | probed i w hphase =>
    have hnone : ∀ j, Function.update phase i (.ended (raising (ending w))) j ≠ .probing := by
      intro j hj
      by_cases hji : j = i
      · subst hji
        simp at hj
      · exact hji (h.unique j i (by simpa [hji] using hj) hphase)
    exact ⟨(counts_afterProbe h.tallied _).tallied, fun j hj => absurd hj (hnone j),
      fun j _ hj => absurd hj (hnone j)⟩

omit [DecidableEq ι]

theorem returns_eq (w : Wake (FuncReply V)) : returns w = (ending w).isOk := by
  cases w <;> rfl

variable (hm : Moves config phase s e ph s')

include hm

/-- A move counts what the protected function has ended with. -/
theorem Moves.counts (h : Sound config phase s) :
    Counts config s.breaker s'.breaker ((phase e.task).func.isSome && returns e.wake) := by
  cases hm with
  | aborts i hphase =>
    rw [hphase]
    exact counts_refl h.tallied
  | rejected i r exc hphase =>
    rw [hphase]
    exact counts_recovered h.tallied
  | probes i r hphase hadm =>
    rw [hphase]
    exact (counts_recovered h.tallied).lock
  | calls i r hphase hadm =>
    rw [hphase]
    exact counts_recovered h.tallied
  | probed i w hphase =>
    rw [hphase, returns_eq]
    exact counts_afterProbe h.tallied _
  | called i w hphase =>
    rw [hphase, returns_eq]
    exact counts_afterCall h.tallied _

/-- The protected function is invoked by a breaker that is not open. -/
theorem Moves.allowed (hph : ph.func ≠ none) : s'.breaker.state ≠ .open := by
  cases hm with
  | probes i r hphase hadm => simp [(admission_probe hadm).1]
  | calls i r hphase hadm => simp [admission_call hadm]
  | aborts i hphase => exact absurd rfl hph
  | rejected i r exc hphase => exact absurd rfl hph
  | probed i w hphase => exact absurd rfl hph
  | called i w hphase => exact absurd rfl hph

theorem Moves.alive (r : Except BreakerExc V) : phase e.task ≠ .ended r := by
  cases hm with
  | aborts i hphase => simp [hphase]
  | rejected i r exc hphase => simp [hphase]
  | probes i r hphase hadm => simp [hphase]
  | calls i r hphase hadm => simp [hphase]
  | probed i w hphase => simp [hphase]
  | called i w hphase => simp [hphase]

/-- A call that awaits the protected function ends with it. -/
theorem Moves.ended (hfunc : (phase e.task).func.isSome) : ∃ r, ph = .ended r := by
  cases hm with
  | probed i w hphase => exact ⟨_, rfl⟩
  | called i w hphase => exact ⟨_, rfl⟩
  | aborts i hphase => exact ⟨_, rfl⟩
  | rejected i r exc hphase => exact ⟨_, rfl⟩
  | probes i r hphase hadm | calls i r hphase hadm =>
    rw [hphase] at hfunc
    cases hfunc

end

section

variable {P P' : BreakerPool V ι} {t : Seen ι} {l p : List (Seen ι)} {clock : ℚ}

omit [DecidableEq ι] in
@[simp] theorem successes_append (l₁ l₂ : List (Seen ι)) :
    successes (l₁ ++ l₂) = successes l₁ ++ successes l₂ := by
  simp [successes]

omit [DecidableEq ι] in
@[simp] theorem probes_append (l₁ l₂ : List (Seen ι)) :
    probes (l₁ ++ l₂) = probes l₁ ++ probes l₂ := by
  simp [probes]

omit [DecidableEq ι] in
theorem successes_singleton (t : Seen ι) :
    successes [t] = if t.succeeded then [t.task] else [] := by
  cases h : t.succeeded <;> simp [successes, h]

omit [DecidableEq ι] in
theorem Period.begins (hbefore : t.before.state ≠ .halfOpen) (hafter : t.after.state = .halfOpen) :
    Period (l ++ [t]) [t] :=
  ⟨l, t, [], rfl, rfl, hbefore, hafter, by simp⟩

omit [DecidableEq ι] in
theorem Period.snoc (h : Period l p) (hbefore : t.before.state = .halfOpen) :
    Period (l ++ [t]) (p ++ [t]) := by
  obtain ⟨l₁, u, p', rfl, rfl, hu, hu', hp'⟩ := h
  refine ⟨l₁, u, p' ++ [t], by simp, by simp, hu, hu', ?_⟩
  intro v hv
  rcases mem_append.mp hv with hv | hv
  · exact hp' v hv
  · rw [mem_singleton.mp hv]
    exact hbefore

/-- **What a run keeps**: the phases, and that a call succeeds once and then has ended. -/
structure Kept (config : CircuitBreakerConfig) (name : String) (phase : ι → Phase V)
    (l : List (Seen ι)) (P : BreakerPool V ι) : Prop where
  prog : InPhases config name phase P
  sound : Sound config phase P.shared
  once : (successes l).Nodup
  ended : ∀ i ∈ successes l, ∃ r, phase i = .ended r
  allowed : InvokesWhenAllowed config l

/-- **A step keeps it**, and counts what it saw. -/
theorem Kept.step {phase : ι → Phase V} (h : Kept config name phase l P) (hst : SeenStep P t P') :
    (∃ phase', Kept config name phase' (l ++ [t]) P') ∧
      Counts config P.shared.breaker P'.shared.breaker t.succeeded := by
  obtain ⟨e, hst, rfl⟩ := hst
  obtain ⟨ph, hm, hprog'⟩ := moves_of_step h.prog hst
  have hinvoked : (observe P e P').invoked = ph.func := by
    change awaitsFunc (P'.prog e.task) = _
    rw [hprog' e.task, Function.update_self, awaitsFunc_prog]
  have hsucceeded :
      (observe P e P').succeeded = ((phase e.task).func.isSome && returns e.wake) := by
    change ((awaitsFunc (P.prog e.task)).isSome && _) = _
    rw [h.prog e.task, awaitsFunc_prog]
  have hne : ∀ i ∈ successes l, i ≠ e.task := by
    rintro i hi rfl
    obtain ⟨r, hr⟩ := h.ended _ hi
    exact hm.alive r hr
  refine ⟨⟨Function.update phase e.task ph, hprog', hm.sound h.sound, ?_, ?_, ?_⟩, ?_⟩
  · rw [successes_append, successes_singleton]
    split
    · refine nodup_append.mpr ⟨h.once, by simp, fun i hi j hj => ?_⟩
      rw [mem_singleton.mp hj]
      exact hne i hi
    · simpa using h.once
  · intro i hi
    rw [successes_append, successes_singleton] at hi
    rcases mem_append.mp hi with hi | hi
    · rw [Function.update_of_ne (hne i hi)]
      exact h.ended i hi
    · split at hi
      case isFalse => cases hi
      case isTrue hsucc =>
        rw [mem_singleton.mp hi]
        change ∃ r, Function.update phase e.task ph e.task = .ended r
        rw [Function.update_self]
        rw [hsucceeded, Bool.and_eq_true] at hsucc
        exact hm.ended hsucc.1
  · intro u hu hcall
    rcases mem_append.mp hu with hu | hu
    · exact h.allowed u hu hcall
    · rw [mem_singleton.mp hu] at hcall ⊢
      rw [hinvoked] at hcall
      exact fun hrejecting => hm.allowed hcall hrejecting.1
  · rw [hsucceeded]
    exact hm.counts h.sound

theorem kept_of_run (h : Run SeenStep (pool V config name clock) l P) :
    ∃ phase, Kept config name phase l P := by
  refine h.history (I := fun l P => ∃ phase, Kept config name phase l P) ?_ ?_
  · refine ⟨fun _ => .waiting, fun _ => rfl, ⟨⟨config.successThreshold_pos, fun _ => rfl⟩, ?_, ?_⟩,
      nodup_nil, ?_, ?_⟩
    · intro i hi
      cases hi
    · intro i _ hi
      cases hi
    · intro i hi
      cases hi
    · intro u hu
      cases hu
  · rintro l P t P' - - hst ⟨phase, hkept⟩
    exact (hkept.step hst).1

/-- The breaker is half-open in a period whose successes it has counted, which are those of probes
of the period. -/
def CountsPeriod (l : List (Seen ι)) (P : BreakerPool V ι) : Prop :=
  P.shared.breaker.state = .halfOpen →
    ∃ p, Period l p ∧ P.shared.breaker.successCount = (successes p).length ∧
      ∀ i ∈ successes p, i ∈ probes p

omit [DecidableEq ι] in
/-- What was seen since the breaker is half-open is determined. -/
theorem Period.unique {p' : List (Seen ι)} (h : Period l p) (h' : Period l p') : p' = p := by
  -- the first step of the one does not lie within the other
  have hle : ∀ {l₁ l₂ q q' : List (Seen ι)} {t u : Seen ι}, l₁ ++ t :: q = l₂ ++ u :: q' →
      u.before.state ≠ .halfOpen → (∀ v ∈ q, v.before.state = .halfOpen) →
      l₂.length ≤ l₁.length := by
    intro l₁ l₂ q q' t u heq hu hq
    rcases append_eq_append_iff.mp heq with ⟨a, rfl, ha⟩ | ⟨a, rfl, -⟩
    · cases a with
      | nil => simp
      | cons v a =>
        obtain ⟨-, rfl⟩ := List.cons.inj ha
        exact absurd (hq u (by simp)) hu
    · simp
  obtain ⟨l₁, t, q, rfl, rfl, ht, -, hq⟩ := h
  obtain ⟨l₂, u, q', heq, rfl, hu, -, hq'⟩ := h'
  have hlength := (hle heq.symm ht hq').antisymm (hle heq hu hq)
  exact (append_inj heq hlength).2.symm

/-- **The successes of a half-open period** in a run in which only its probes succeed. -/
theorem countsPeriod_of_guarded
    (h : Guarded SeenStep OnlyProbes (pool V config name clock) l P) : CountsPeriod l P := by
  refine h.invariant (I := CountsPeriod) (fun hhalf => by cases hhalf) ?_
  intro l P t P' hrun hok hst hcount hhalf'
  obtain ⟨phase, hkept⟩ := kept_of_run hrun.run
  have hcounts := (hkept.step hst).2
  obtain ⟨e, -, rfl⟩ := hst
  by_cases hhalf : P.shared.breaker.state = .halfOpen
  · obtain ⟨p, hp, hlength, hprobes⟩ := hcount hhalf
    refine ⟨p ++ [observe P e P'], hp.snoc hhalf, ?_, ?_⟩
    · rw [hcounts.goes_on hhalf hhalf', successes_append, length_append, hlength,
        successes_singleton]
      split
      case isTrue hsucc => simp [hsucc]
      case isFalse hfail => simp [hfail]
    · intro i hi
      rw [successes_append, successes_singleton] at hi
      rw [probes_append]
      refine mem_append_left _ ?_
      rcases mem_append.mp hi with hi | hi
      · exact hprobes i hi
      · split at hi
        case isFalse => cases hi
        case isTrue hsucc =>
          rw [mem_singleton.mp hi]
          obtain ⟨p', hp', hmem⟩ := hok hhalf hsucc
          rwa [hp.unique hp'] at hmem
  · obtain ⟨hnone, hzero⟩ := hcounts.begins hhalf hhalf'
    have hsuccesses : successes [observe P e P'] = [] := by
      rw [successes_singleton, if_neg (by simp [hnone])]
    refine ⟨[observe P e P'], .begins hhalf hhalf', ?_, ?_⟩
    · rw [hzero, hsuccesses]
      rfl
    · intro i hi
      rw [hsuccesses] at hi
      cases hi

/-- The breaker is closed by the probes of its half-open period, if only these succeed in it. -/
theorem closedByProbes_of_guarded
    (h : Guarded SeenStep OnlyProbes (pool V config name clock) l P) : ClosedByProbes config l := by
  intro l₁ t l₂ hl hhalf hclosed
  subst hl
  obtain ⟨P₁, P₂, h₁, hok, hst, h₂, -⟩ := h.at_label
  obtain ⟨phase, hkept⟩ := kept_of_run h₁.run
  obtain ⟨phase₂, hkept₂⟩ := kept_of_run h₂.run
  have hcounts := (hkept.step hst).2
  obtain ⟨e, -, rfl⟩ := hst
  obtain ⟨hsucc, hfull⟩ := hcounts.closes hhalf hclosed
  obtain ⟨p, hp, hlength, hprobes⟩ := countsPeriod_of_guarded h₁ hhalf
  obtain ⟨p', hp', hmem⟩ := hok hhalf hsucc
  obtain rfl := hp.unique hp'
  have hsuccesses : successes (p' ++ [observe P₁ e P₂]) = successes p' ++ [e.task] := by
    rw [successes_append, successes_singleton, if_pos hsucc]
    rfl
  refine ⟨p' ++ [observe P₁ e P₂], hp.snoc hhalf, successes (p' ++ [observe P₁ e P₂]), ?_, ?_, ?_⟩
  · obtain ⟨l₀, u, q, rfl, -⟩ := hp
    have honce := hkept₂.once
    rw [append_assoc, successes_append] at honce
    exact (nodup_append.mp honce).2.1
  · rw [hsuccesses, length_append, ← hlength]
    exact hfull
  · intro i hi
    refine ⟨?_, hi⟩
    rw [probes_append]
    refine mem_append_left _ ?_
    rw [hsuccesses] at hi
    rcases mem_append.mp hi with hi | hi
    · exact hprobes i hi
    · rw [mem_singleton.mp hi]
      exact hmem

/-- **Safety of a circuit breaker.** In every run of any number of calls, the protected function is
not invoked while the breaker rejects and at most one probe is in flight. If every call that
succeeds while the breaker is half-open was begun as a probe of this half-open period, then it is
closed only by `success_threshold` successful probes of the period. -/
theorem breaker_safe (V ι : Type) [DecidableEq ι] (config : CircuitBreakerConfig) (name : String)
    (clock : ℚ) (l : List (Seen ι)) (P : BreakerPool V ι)
    (h : Run SeenStep (pool V config name clock) l P) :
    InvokesWhenAllowed config l ∧ OneProbe P ∧
      (Guarded SeenStep OnlyProbes (pool V config name clock) l P → ClosedByProbes config l) := by
  obtain ⟨phase, hkept⟩ := kept_of_run h
  refine ⟨hkept.allowed, ?_, closedByProbes_of_guarded⟩
  have hprobing : ∀ i, awaitsFunc (P.prog i) = some true → phase i = .probing := by
    intro i hi
    rw [hkept.prog i, awaitsFunc_prog] at hi
    cases hphase : phase i with
    | probing => rfl
    | waiting => simp [hphase, Phase.func] at hi
    | calling => simp [hphase, Phase.func] at hi
    | ended r => simp [hphase, Phase.func] at hi
  intro i j hi hj
  exact hkept.sound.unique i j (hprobing i hi) (hprobing j hj)

/-! ## Runs on paper -/

/-- What is seen when the tasks of a list are woken one after the other. -/
def watch (P : BreakerPool V ι) :
    List (BreakerEvent V ι) → Option (List (Seen ι) × BreakerPool V ι)
  | [] => some ([], P)
  | e :: es => (advance Circuit.now Circuit.wake P e).bind fun P' =>
    (watch P' es).map fun w => (observe P e P' :: w.1, w.2)

theorem run_of_watch (es : List (BreakerEvent V ι)) (h : (watch P es).map Prod.fst = some l) :
    ∃ P', Run SeenStep P l P' := by
  induction es generalizing P l with
  | nil =>
    cases h
    exact ⟨P, .nil P⟩
  | cons e es ih =>
    obtain ⟨w, hw, rfl⟩ := Option.map_eq_some_iff.mp h
    obtain ⟨P₁, h₁, hw⟩ := Option.bind_eq_some_iff.mp hw
    obtain ⟨w₁, hw₁, rfl⟩ := Option.map_eq_some_iff.mp hw
    obtain ⟨P', hrun⟩ := ih (Option.map_eq_some_iff.mpr ⟨w₁, hw₁, rfl⟩)
    exact ⟨P', .cons ⟨e, h₁, rfl⟩ hrun⟩

/-- One failure opens the breaker for 30 seconds, one success closes it. -/
def strict : CircuitBreakerConfig where
  failureThreshold := 1
  recoveryTimeout := ⟨30, "30.0"⟩
  successThreshold := 1
  monitoredOn _ := true
  failureThreshold_pos := Nat.one_pos
  recoveryTimeout_nonneg := by decide +kernel
  successThreshold_pos := Nat.one_pos

/-- A call is woken at a time; its function ends with a value, or raises. -/
def wakes (i : ℕ) (time : ℚ) (ok : Bool) : BreakerEvent Unit ℕ :=
  ⟨i, .resume ⟨time, if ok then .ok () else .error (.error ⟨"ConnectionError", ""⟩)⟩⟩

def openedAtOne : Breaker := { state := .open, openedAt := 1 }

def probedAtOne : Breaker := { openedAtOne with state := .halfOpen, locked := true }

/-- What is seen when the call 0 fails, and the call 1 probes after the timeout and succeeds. -/
def probeRun : List (Seen ℕ) :=
  [⟨0, 0, {}, {}, some false, false⟩, ⟨0, 1, {}, openedAtOne, none, false⟩,
    ⟨1, 31, openedAtOne, probedAtOne, some true, false⟩]

/-- The breaker is closed by the probe. -/
theorem breaker_safe_probeRun : ∃ P : BreakerPool Unit ℕ,
    Run SeenStep (pool Unit strict "payments" 0)
      (probeRun ++ [⟨1, 32, probedAtOne, { openedAt := 1 }, none, true⟩]) P ∧
    ClosedByProbes strict (probeRun ++ [⟨1, 32, probedAtOne, { openedAt := 1 }, none, true⟩]) := by
  obtain ⟨P, hrun⟩ := run_of_watch (P := pool Unit strict "payments" 0)
    [wakes 0 0 true, wakes 0 1 false, wakes 1 31 true, wakes 1 32 true]
    (l := probeRun ++ [⟨1, 32, probedAtOne, { openedAt := 1 }, none, true⟩]) (by decide +kernel)
  refine ⟨P, hrun, (breaker_safe Unit ℕ strict "payments" 0 _ P hrun).2.2 ?_⟩
  obtain ⟨P₀, hrun₀, hst⟩ := hrun.snoc_inv
  have hquiet : ∀ t ∈ probeRun, t.succeeded = false := by decide
  have hguarded : Guarded SeenStep OnlyProbes (pool Unit strict "payments" 0) probeRun P₀ := by
    refine Guarded.of_run hrun₀ fun l₁ t l₂ _ hl _ _ hsucc => ?_
    have hmem : t ∈ probeRun := by simp [hl]
    simp [hquiet t hmem] at hsucc
  refine .snoc hguarded (fun _ _ => ⟨[probeRun[2]], ?_, by decide⟩) hst
  exact Period.begins (l := probeRun.take 2) (by decide) rfl

/-- What is seen when the call 1 fails while the call 0 is in flight, and the call 0 then succeeds
while the call 2 probes. -/
def outsiderRun : List (Seen ℕ) :=
  [⟨0, 0, {}, {}, some false, false⟩, ⟨1, 0, {}, {}, some false, false⟩,
    ⟨1, 1, {}, openedAtOne, none, false⟩, ⟨2, 31, openedAtOne, probedAtOne, some true, false⟩,
    ⟨0, 32, probedAtOne, { openedAt := 1, locked := true }, none, true⟩]

/-- A call that was admitted before the breaker was opened closes it, while the probe is in flight
and no probe has succeeded. -/
theorem outsider_closes : ∃ P : BreakerPool Unit ℕ,
    Run SeenStep (pool Unit strict "payments" 0) outsiderRun P ∧
      ¬ClosedByProbes strict outsiderRun := by
  obtain ⟨P, hrun⟩ := run_of_watch (P := pool Unit strict "payments" 0)
    [wakes 0 0 true, wakes 1 0 true, wakes 1 1 false, wakes 2 31 true, wakes 0 32 true]
    (l := outsiderRun) (by decide +kernel)
  refine ⟨P, hrun, fun hclosed => ?_⟩
  obtain ⟨p, ⟨l₁, -, -, hl, -⟩, calls, -, hlength, hcalls⟩ :=
    hclosed (outsiderRun.take 4) _ [] rfl rfl rfl
  have hsub : p ⊆ outsiderRun := by
    intro t ht
    have hmem : t ∈ l₁ ++ p := mem_append_right _ ht
    rwa [← hl] at hmem
  obtain ⟨i, hi⟩ := exists_mem_of_length_pos (by rw [hlength]; exact Nat.one_pos)
  obtain ⟨hprobe, hsucc⟩ := hcalls i hi
  have htwo : i ∈ [2] := map_subset _ (filter_subset _ hsub) hprobe
  have hzero : i ∈ [0] := map_subset _ (filter_subset _ hsub) hsucc
  rw [mem_singleton] at htwo hzero
  omega

end

end CircuitBreaker

end Varco
