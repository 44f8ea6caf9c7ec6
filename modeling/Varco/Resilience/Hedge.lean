import Mathlib.Tactic.Linarith
import Varco.Foundations.Timed

/-!
# Hedged calls

`_hedged_call` of `varco_core.resilience.hedge`: the function is called once, and once more whenever
`delay` has passed and no call has ended, up to `max_hedges` times. The first call that has ended
decides, whatever it ended with; the others are cancelled, and waited for.

The calls and the coroutine that waits for them are a timed system (`Hedging.system`). Calls that
end together, or with the timer, may be seen in any order: `done` is a set, and the coroutine
resumes after the callback that woke it. What a cancelled call still does is left open, as is a
cancellation of the caller.

`hedged_iff` is when the hedging is worth its name: no call that raises may be the first to end,
unless it is the original call before the first delay has passed.
-/

namespace Varco

open Option List

/-- `HedgeConfig`, as `__post_init__` lets it through. -/
structure HedgeConfig where
  delay : ℚ
  maxHedges : ℕ
  delay_pos : 0 < delay
  maxHedges_pos : 1 ≤ maxHedges

/-- What the successive calls of the function do when left to run: how long they take, if they end
at all, and what they return or raise. -/
structure HedgedCalls (α ε : Type) where
  time : ℕ → Option ℚ
  outcome : ℕ → Except ε α
  time_nonneg : ∀ k t, time k = some t → 0 ≤ t

/-- How far a call has come. -/
inductive HedgeTask.State
  | running
  /-- Ended by itself. -/
  | finished
  /-- Cancelled, and not ended. -/
  | cancelling
  /-- Ended after it was cancelled. -/
  | stopped
  deriving DecidableEq

/-- A call: the moment at which it ends when left to run, what it then ends with, and its state. -/
structure HedgeTask (α ε : Type) where
  ends : Option ℚ
  outcome : Except ε α
  state : HedgeTask.State

/-- How `_hedged_call` ends. -/
inductive HedgeResult (α ε : Type)
  | returned (a : α)
  | raised (e : ε)
  | cancelled

/-- Where `_hedged_call` is. -/
inductive HedgePhase (α ε : Type)
  /-- In `asyncio.wait`, since the given moment. -/
  | waiting (since : ℚ)
  /-- In the `finally` block, with what the `try` block ended in. -/
  | closing (result : HedgeResult α ε)
  | left (result : HedgeResult α ε)

/-- A hedged call under way: `pending_tasks` and `hedges_issued`. -/
structure Hedging (α ε : Type) where
  now : ℚ
  tasks : List (HedgeTask α ε)
  hedgesIssued : ℕ
  phase : HedgePhase α ε

/-- What happens. -/
inductive HedgeEvent
  /-- Call `k` ends by itself. -/
  | finish (k : ℕ)
  /-- `_hedged_call` resumes, and call `k` is the first one in `done`. -/
  | resume (k : ℕ)
  /-- `_hedged_call` resumes with `done` empty. -/
  | hedge
  /-- `_hedged_call` is cancelled. -/
  | cancel
  /-- Call `k` ends after it was cancelled. -/
  | stop (k : ℕ)
  /-- `asyncio.gather` returns. -/
  | leave

variable {α ε : Type}

/-- The task of call `k`, created at `now`. -/
def HedgedCalls.attempt (calls : HedgedCalls α ε) (k : ℕ) (now : ℚ) : HedgeTask α ε where
  ends := (calls.time k).map (now + ·)
  outcome := calls.outcome k
  state := .running

/-- `task.done()`. -/
def HedgeTask.done (task : HedgeTask α ε) : Bool :=
  task.state = .finished ∨ task.state = .stopped

/-- `if not task.done(): task.cancel()`. -/
def HedgeTask.cancel (task : HedgeTask α ε) : HedgeTask α ε :=
  if task.state = .running then { task with state := .cancelling } else task

/-- `completed_task.result()`. -/
def HedgeTask.result (task : HedgeTask α ε) : HedgeResult α ε :=
  match task.outcome with
  | .ok a => .returned a
  | .error e => .raised e

def HedgeResult.isCancelled : HedgeResult α ε → Bool
  | .cancelled => true
  | _ => false

namespace Hedging

def start (calls : HedgedCalls α ε) : Hedging α ε where
  now := 0
  tasks := [calls.attempt 0 0]
  hedgesIssued := 0
  phase := .waiting 0

/-- When `asyncio.wait` times out, if it was entered at `since`. -/
def deadline (config : HedgeConfig) (s : Hedging α ε) (since : ℚ) : Option ℚ :=
  if s.hedgesIssued < config.maxHedges then some (since + config.delay) else none

/-- Leave the `try` block: the calls that have not ended are cancelled. -/
def close (s : Hedging α ε) (result : HedgeResult α ε) : Hedging α ε :=
  { s with tasks := s.tasks.map HedgeTask.cancel, phase := .closing result }

def issue (calls : HedgedCalls α ε) (s : Hedging α ε) : Hedging α ε :=
  { s with
    tasks := s.tasks ++ [calls.attempt s.tasks.length s.now]
    hedgesIssued := s.hedgesIssued + 1
    phase := .waiting s.now }

/-- The task `k` in a new state. -/
def setTask (s : Hedging α ε) (k : ℕ) (task : HedgeTask α ε) (state : HedgeTask.State) :
    Hedging α ε :=
  { s with tasks := s.tasks.set k { task with state := state } }

def act (config : HedgeConfig) (calls : HedgedCalls α ε) (s : Hedging α ε) :
    HedgeEvent → Option (Hedging α ε)
  | .finish k =>
    match s.phase, s.tasks[k]? with
    | .waiting _, some task =>
      if task.state = .running ∧ task.ends = some s.now then some (s.setTask k task .finished)
      else none
    | _, _ => none
  | .resume k =>
    match s.phase, s.tasks[k]? with
    | .waiting _, some task => if task.done then some (s.close task.result) else none
    | _, _ => none
  | .hedge =>
    match s.phase with
    | .waiting since =>
      match s.deadline config since with
      | some t => if t ≤ s.now ∧ s.tasks.all (!·.done) then some (s.issue calls) else none
      | none => none
    | _ => none
  | .cancel =>
    match s.phase with
    | .waiting _ => some (s.close .cancelled)
    | .closing result =>
      if result.isCancelled then none else some { s with phase := .closing .cancelled }
    | .left _ => none
  | .stop k =>
    match s.phase, s.tasks[k]? with
    | .closing _, some task =>
      if task.state = .cancelling then some (s.setTask k task .stopped) else none
    | _, _ => none
  | .leave =>
    match s.phase with
    | .closing result =>
      if s.tasks.all (·.done) then some { s with phase := .left result } else none
    | _ => none

/-- The moments at which a wait goes on: a call ends, or has ended, or the timer fires. -/
def due (config : HedgeConfig) (s : Hedging α ε) : List ℚ :=
  match s.phase with
  | .waiting since => (s.deadline config since).toList ++ s.tasks.filterMap HedgeTask.ends
  | _ => []

def system (config : HedgeConfig) (calls : HedgedCalls α ε) : Timed (Hedging α ε) HedgeEvent ℚ where
  clock := Hedging.now
  wait t s := { s with now := t }
  due := due config
  act s a s' := s.act config calls a = some s'
  clock_wait _ _ := rfl
  due_wait _ _ := rfl

/-! ## What an event does -/

variable {config : HedgeConfig} {calls : HedgedCalls α ε} {s s' : Hedging α ε} {a : HedgeEvent}

/-- What an event needs, and the state after it. -/
inductive Move (config : HedgeConfig) (calls : HedgedCalls α ε) (s : Hedging α ε) :
    HedgeEvent → Hedging α ε → Prop
  | finish {k : ℕ} {since : ℚ} {task : HedgeTask α ε} (hphase : s.phase = .waiting since)
      (htask : s.tasks[k]? = some task) (hrun : task.state = .running)
      (hends : task.ends = some s.now) :
      Move config calls s (.finish k) (s.setTask k task .finished)
  | resume {k : ℕ} {since : ℚ} {task : HedgeTask α ε} (hphase : s.phase = .waiting since)
      (htask : s.tasks[k]? = some task) (hdone : task.done = true) :
      Move config calls s (.resume k) (s.close task.result)
  | hedge {since t : ℚ} (hphase : s.phase = .waiting since)
      (hdeadline : s.deadline config since = some t) (hle : t ≤ s.now)
      (hnone : ∀ task ∈ s.tasks, task.done = false) : Move config calls s .hedge (s.issue calls)
  | cancel {since : ℚ} (hphase : s.phase = .waiting since) :
      Move config calls s .cancel (s.close .cancelled)
  | cancelAgain {result : HedgeResult α ε} (hphase : s.phase = .closing result)
      (hresult : result.isCancelled = false) :
      Move config calls s .cancel { s with phase := .closing .cancelled }
  | stop {k : ℕ} {result : HedgeResult α ε} {task : HedgeTask α ε}
      (hphase : s.phase = .closing result) (htask : s.tasks[k]? = some task)
      (hstate : task.state = .cancelling) :
      Move config calls s (.stop k) (s.setTask k task .stopped)
  | leave {result : HedgeResult α ε} (hphase : s.phase = .closing result)
      (hall : ∀ task ∈ s.tasks, task.done = true) :
      Move config calls s .leave { s with phase := .left result }

theorem act_eq_some (h : s.act config calls a = some s') : Move config calls s a s' := by
  cases a with
  | finish k =>
    simp only [act] at h
    split at h
    · rename_i since task hphase htask
      split_ifs at h with hcond
      cases h
      exact .finish hphase htask hcond.1 hcond.2
    · cases h
  | resume k =>
    simp only [act] at h
    split at h
    · rename_i since task hphase htask
      split_ifs at h with hcond
      cases h
      exact .resume hphase htask hcond
    · cases h
  | hedge =>
    simp only [act] at h
    split at h
    · rename_i since hphase
      split at h
      · rename_i t hdeadline
        split_ifs at h with hcond
        cases h
        refine .hedge hphase hdeadline hcond.1 fun task htask => ?_
        simpa using all_eq_true.mp hcond.2 task htask
      · cases h
    · cases h
  | cancel =>
    simp only [act] at h
    split at h
    · rename_i since hphase
      cases h
      exact .cancel hphase
    · rename_i result hphase
      split_ifs at h with hcond
      cases h
      exact .cancelAgain hphase (Bool.eq_false_iff.mpr hcond)
    · cases h
  | stop k =>
    simp only [act] at h
    split at h
    · rename_i result task hphase htask
      split_ifs at h with hcond
      cases h
      exact .stop hphase htask hcond
    · cases h
  | leave =>
    simp only [act] at h
    split at h
    · rename_i result hphase
      split_ifs at h with hcond
      cases h
      exact .leave hphase (all_eq_true.mp hcond)
    · cases h

theorem Move.act_eq (h : Move config calls s a s') : s.act config calls a = some s' := by
  cases h with
  | finish hphase htask hrun hends => simp [act, hphase, htask, hrun, hends]
  | resume hphase htask hdone => simp [act, hphase, htask, hdone]
  | hedge hphase hdeadline hle hnone =>
    have hall : s.tasks.all (!·.done) = true :=
      all_eq_true.mpr fun task htask => by simp [hnone task htask]
    simp [act, hphase, hdeadline, hle, hall]
  | cancel hphase => simp [act, hphase]
  | cancelAgain hphase hresult => simp [act, hphase, hresult]
  | stop hphase htask hstate => simp [act, hphase, htask, hstate]
  | leave hphase hall =>
    have hall : s.tasks.all (·.done) = true := all_eq_true.mpr hall
    simp [act, hphase, hall]

/-! ## Every run ends -/

/-- How much is left to do: the calls to end, the hedges to issue, and the phases. -/
def rank (config : HedgeConfig) (s : Hedging α ε) : ℕ :=
  match s.phase with
  | .waiting _ => s.tasks.countP (!·.done) + 2 * (config.maxHedges - s.hedgesIssued) + 3
  | .closing result => s.tasks.countP (!·.done) + (if result.isCancelled then 0 else 1) + 1
  | .left _ => 0

@[simp] theorem done_cancel (task : HedgeTask α ε) : task.cancel.done = task.done := by
  unfold HedgeTask.cancel
  split_ifs with h
  · simp [HedgeTask.done, h]
  · rfl

theorem countP_close (s : Hedging α ε) (result : HedgeResult α ε) :
    (s.close result).tasks.countP (!·.done) = s.tasks.countP (!·.done) := by
  rw [close, countP_map]
  congr 1
  funext task
  simp

theorem countP_setTask {k : ℕ} {task : HedgeTask α ε} (state : HedgeTask.State)
    (htask : s.tasks[k]? = some task) (hbefore : task.done = false)
    (hafter : ({ task with state := state } : HedgeTask α ε).done = true) :
    (s.setTask k task state).tasks.countP (!·.done) + 1 = s.tasks.countP (!·.done) := by
  obtain ⟨hk, rfl⟩ := List.getElem?_eq_some_iff.mp htask
  have hpos : 0 < s.tasks.countP (!·.done) :=
    countP_pos_iff.mpr ⟨_, getElem_mem hk, by simp [hbefore]⟩
  rw [setTask, countP_set hk]
  simp only [hbefore, hafter, Bool.not_true, Bool.not_false, Bool.false_eq_true, if_false, if_true]
  omega

theorem Move.rank_lt (h : Move config calls s a s') : s'.rank config < s.rank config := by
  cases h with
  | @finish k since task hphase htask hrun hends =>
    have hcount := countP_setTask .finished htask (by simp [HedgeTask.done, hrun])
      (by simp [HedgeTask.done])
    have hphase' : (s.setTask k task .finished).phase = .waiting since := hphase
    simp only [rank, hphase, hphase']
    change _ + 2 * (config.maxHedges - s.hedgesIssued) + 3 < _
    omega
  | @resume k since task hphase htask hdone =>
    have hcount := countP_close s task.result
    have hone : (if task.result.isCancelled then 0 else 1) ≤ 1 := by split_ifs <;> simp
    have hphase' : (s.close task.result).phase = .closing task.result := rfl
    simp only [rank, hphase, hphase']
    omega
  | @hedge since t hphase hdeadline hle hnone =>
    have hlt : s.hedgesIssued < config.maxHedges := by
      unfold deadline at hdeadline
      split_ifs at hdeadline with hlt
      exact hlt
    have hphase' : (s.issue calls).phase = .waiting s.now := rfl
    have hnew : (calls.attempt s.tasks.length s.now).done = false := rfl
    simp only [rank, hphase, hphase']
    simp only [issue, countP_append, countP_singleton, hnew, Bool.not_false, if_true]
    omega
  | @cancel since hphase =>
    have hcount := countP_close s .cancelled
    have hphase' : (s.close .cancelled).phase = .closing .cancelled := rfl
    have hcancelled : (HedgeResult.cancelled : HedgeResult α ε).isCancelled = true := rfl
    simp only [rank, hphase, hphase', hcancelled, if_true]
    omega
  | @cancelAgain result hphase hresult =>
    have hcancelled : (HedgeResult.cancelled : HedgeResult α ε).isCancelled = true := rfl
    simp only [rank, hphase, hresult, hcancelled, if_true, Bool.false_eq_true, if_false]
    omega
  | @stop k result task hphase htask hstate =>
    have hcount := countP_setTask .stopped htask (by simp [HedgeTask.done, hstate])
      (by simp [HedgeTask.done])
    have hphase' : (s.setTask k task .stopped).phase = .closing result := hphase
    simp only [rank, hphase, hphase']
    omega
  | @leave result hphase hall =>
    simp only [rank, hphase]
    omega

/-- **Hedging ends**, for the calls that end: no run is longer than this. -/
theorem length_le {l : List (Option HedgeEvent)}
    (h : Run (system config calls).Step (start calls) l s) :
    l.length ≤ 4 * config.maxHedges + 9 := by
  have hle := Timed.length_le (rank config) (fun s a s' ha => (act_eq_some ha).rank_lt)
    (fun t s => rfl) h
  have hstart : rank config (start calls) = 1 + 2 * config.maxHedges + 3 := rfl
  omega

end Hedging

/-! ## Which call is first -/

/-- When call `k` ends, if it is issued and left to run: the calls are issued every `delay`. -/
def HedgedCalls.ends (calls : HedgedCalls α ε) (config : HedgeConfig) (k : ℕ) : Option ℚ :=
  (calls.time k).map (k * config.delay + ·)

/-- Call `k` ends at `t`, and no call ends before. -/
structure HedgedCalls.First (calls : HedgedCalls α ε) (config : HedgeConfig) (k : ℕ) (t : ℚ) :
    Prop where
  le : k ≤ config.maxHedges
  ends : calls.ends config k = some t
  first : ∀ j ≤ config.maxHedges, ∀ u, calls.ends config j = some u → t ≤ u

variable {k : ℕ}

theorem HedgedCalls.le_ends {calls : HedgedCalls α ε} {config : HedgeConfig} {t : ℚ}
    (h : calls.ends config k = some t) : k * config.delay ≤ t := by
  obtain ⟨d, hd, rfl⟩ := map_eq_some_iff.mp h
  have hnonneg := calls.time_nonneg k d hd
  linarith

namespace Hedging

variable {config : HedgeConfig} {calls : HedgedCalls α ε} {s s' : Hedging α ε} {a : HedgeEvent}

/-- What the `try` block ended in: a cancellation, or what a first call ended with. -/
def Decided (config : HedgeConfig) (calls : HedgedCalls α ε) (s : Hedging α ε)
    (result : HedgeResult α ε) : Prop :=
  result = .cancelled ∨ ∃ k t task, s.tasks[k]? = some task ∧ task.state = .finished ∧
    result = task.result ∧ calls.First config k t ∧ s.hedgesIssued * config.delay ≤ t

/-- What holds along every run. -/
structure Paced (config : HedgeConfig) (calls : HedgedCalls α ε) (s : Hedging α ε) : Prop where
  task : ∀ k task, s.tasks[k]? = some task →
    task.ends = calls.ends config k ∧ task.outcome = calls.outcome k
  length : s.tasks.length = s.hedgesIssued + 1
  issued : s.hedgesIssued ≤ config.maxHedges
  waiting : ∀ since, s.phase = .waiting since →
    since = s.hedgesIssued * config.delay ∧ since ≤ s.now ∧
      ∀ task ∈ s.tasks, task.state = .running ∨
        task.state = .finished ∧ ∃ t, task.ends = some t ∧ t ≤ s.now
  closing : ∀ result, s.phase = .closing result →
    Decided config calls s result ∧ ∀ task ∈ s.tasks, task.state ≠ .running
  left : ∀ result, s.phase = .left result →
    Decided config calls s result ∧ ∀ task ∈ s.tasks, task.done = true

theorem mem_due_of_deadline {since t : ℚ} (hphase : s.phase = .waiting since)
    (h : s.deadline config since = some t) : t ∈ s.due config := by
  simp [due, hphase, h]

variable {task : HedgeTask α ε}

theorem mem_due_of_ends {since t : ℚ} (hphase : s.phase = .waiting since)
    (htask : task ∈ s.tasks) (h : task.ends = some t) : t ∈ s.due config := by
  simp only [due, hphase, mem_append, mem_filterMap]
  exact Or.inr ⟨task, htask, h⟩

/-- **A call that has ended is a first one**: none of the others ends before, issued or not. -/
theorem Paced.first {since : ℚ} (h : Paced config calls s)
    (hp : (system config calls).Punctual s) (hphase : s.phase = .waiting since)
    (htask : s.tasks[k]? = some task) (hdone : task.done = true) :
    task.state = .finished ∧ calls.First config k s.now := by
  obtain ⟨hsince, -, hstates⟩ := h.waiting since hphase
  have hmem : task ∈ s.tasks := mem_of_getElem? htask
  obtain ⟨hfinished, t, ht, hle⟩ :
      task.state = .finished ∧ ∃ t, task.ends = some t ∧ t ≤ s.now := by
    rcases hstates task hmem with hrun | hfinished
    · simp [HedgeTask.done, hrun] at hdone
    · exact hfinished
  -- what is due is not past, so the call ends now
  have hnow : t = s.now := le_antisymm hle (hp t (mem_due_of_ends hphase hmem ht))
  obtain ⟨hk, -⟩ := List.getElem?_eq_some_iff.mp htask
  have hlength := h.length
  have hissued := h.issued
  refine ⟨hfinished, by omega, by rw [← (h.task k task htask).1, ht, hnow], ?_⟩
  intro j hj u hu
  by_cases hlt : j < s.tasks.length
  · obtain ⟨hends, -⟩ := h.task j s.tasks[j] (List.getElem?_eq_getElem hlt)
    exact hp u (mem_due_of_ends hphase (getElem_mem hlt) (hends.trans hu))
  · -- a call that is not issued starts at the deadline or later
    have hmore : s.hedgesIssued < config.maxHedges := by omega
    have hdeadline : s.deadline config since = some (since + config.delay) := if_pos hmore
    have hnow := hp _ (mem_due_of_deadline hphase hdeadline)
    have hcast : ((s.hedgesIssued + 1 : ℕ) : ℚ) ≤ j := by exact_mod_cast (by omega)
    have hstart : ((s.hedgesIssued + 1 : ℕ) : ℚ) * config.delay ≤ j * config.delay :=
      mul_le_mul_of_nonneg_right hcast (le_of_lt config.delay_pos)
    have hends := HedgedCalls.le_ends hu
    change s.now ≤ _ at hnow
    push_cast at hstart
    rw [hsince] at hnow
    linarith

theorem getElem?_setTask {j : ℕ} {task' : HedgeTask α ε} {state : HedgeTask.State}
    (htask : s.tasks[k]? = some task) (h : (s.setTask k task state).tasks[j]? = some task') :
    j = k ∧ task' = { task with state := state } ∨ j ≠ k ∧ s.tasks[j]? = some task' := by
  obtain ⟨hk, -⟩ := List.getElem?_eq_some_iff.mp htask
  by_cases hjk : k = j
  · subst hjk
    rw [setTask, List.getElem?_set_self hk] at h
    exact Or.inl ⟨rfl, (Option.some.inj h).symm⟩
  · rw [setTask, List.getElem?_set_ne hjk] at h
    exact Or.inr ⟨fun he => hjk he.symm, h⟩

theorem mem_setTask {task' : HedgeTask α ε} {state : HedgeTask.State}
    (htask : s.tasks[k]? = some task) (h : task' ∈ (s.setTask k task state).tasks) :
    task' = { task with state := state } ∨ task' ∈ s.tasks := by
  obtain ⟨j, hj⟩ := mem_iff_getElem?.mp h
  rcases getElem?_setTask htask hj with ⟨-, rfl⟩ | ⟨-, hold⟩
  · exact Or.inl rfl
  · exact Or.inr (mem_of_getElem? hold)

theorem Paced.task_setTask {state : HedgeTask.State}
    (h : Paced config calls s) (htask : s.tasks[k]? = some task) (j : ℕ) (task' : HedgeTask α ε)
    (hj : (s.setTask k task state).tasks[j]? = some task') :
    task'.ends = calls.ends config j ∧ task'.outcome = calls.outcome j := by
  rcases getElem?_setTask htask hj with ⟨rfl, rfl⟩ | ⟨-, hold⟩
  · exact h.task j task htask
  · exact h.task j task' hold

theorem length_setTask (k : ℕ) (task : HedgeTask α ε) (state : HedgeTask.State) :
    (s.setTask k task state).tasks.length = s.tasks.length := length_set

theorem cancel_ends (task : HedgeTask α ε) :
    task.cancel.ends = task.ends ∧ task.cancel.outcome = task.outcome := by
  unfold HedgeTask.cancel
  split_ifs <;> exact ⟨rfl, rfl⟩

theorem cancel_of_done (h : task.done = true) : task.cancel = task := by
  unfold HedgeTask.cancel
  split_ifs with hrun
  · simp [HedgeTask.done, hrun] at h
  · rfl

theorem cancel_not_running (task : HedgeTask α ε) : task.cancel.state ≠ .running := by
  unfold HedgeTask.cancel
  split_ifs with hrun
  · simp
  · exact hrun

/-- Leaving the `try` block with a result that is decided. -/
theorem Paced.close {result : HedgeResult α ε} (h : Paced config calls s)
    (hdecided : Decided config calls (s.close result) result) :
    Paced config calls (s.close result) where
  task k task htask := by
    have hmap : (s.tasks.map HedgeTask.cancel)[k]? = some task := htask
    rw [List.getElem?_map] at hmap
    obtain ⟨old, hold, rfl⟩ := map_eq_some_iff.mp hmap
    rw [(cancel_ends old).1, (cancel_ends old).2]
    exact h.task k old hold
  length := (length_map ..).trans h.length
  issued := h.issued
  waiting := by rintro _ ⟨⟩
  closing result' hphase := by
    cases hphase
    refine ⟨hdecided, fun task htask => ?_⟩
    obtain ⟨old, -, rfl⟩ := mem_map.mp htask
    exact cancel_not_running old
  left := by rintro _ ⟨⟩

theorem punctual_of_not_waiting (h : s.due config = []) : (system config calls).Punctual s := by
  intro u hu
  have hu : u ∈ s.due config := hu
  rw [h] at hu
  exact (not_mem_nil hu).elim

/-- **What one event keeps.** -/
theorem Paced.step (h : Paced config calls s) (hp : (system config calls).Punctual s)
    (hmove : Move config calls s a s') :
    Paced config calls s' ∧ (system config calls).Punctual s' := by
  cases hmove with
  | @finish k since task hphase htask hrun hends =>
    obtain ⟨hsince, hle, hstates⟩ := h.waiting since hphase
    have hphase' : (s.setTask k task .finished).phase = .waiting since := hphase
    refine ⟨⟨h.task_setTask htask, (length_setTask ..).trans h.length, h.issued, ?_, ?_, ?_⟩, ?_⟩
    · intro since' hsince'
      cases hphase.symm.trans hsince'
      refine ⟨hsince, hle, fun task' htask' => ?_⟩
      rcases mem_setTask htask htask' with rfl | hold
      · exact Or.inr ⟨rfl, s.now, hends, le_refl _⟩
      · exact hstates task' hold
    · intro result hresult
      cases hphase.symm.trans hresult
    · intro result hresult
      cases hphase.symm.trans hresult
    · intro u hu
      have hu : u ∈ (s.setTask k task .finished).due config := hu
      simp only [due, hphase', mem_append, mem_filterMap] at hu
      rcases hu with hu | ⟨task', htask', hu⟩
      · exact hp u (mem_due_of_deadline hphase (mem_toList.mp hu))
      · rcases mem_setTask htask htask' with rfl | hold
        · exact hp u (mem_due_of_ends hphase (mem_of_getElem? htask) hu)
        · exact hp u (mem_due_of_ends hphase hold hu)
  | @resume k since task hphase htask hdone =>
    obtain ⟨hfinished, hfirst⟩ := h.first hp hphase htask hdone
    obtain ⟨hsince, hle, -⟩ := h.waiting since hphase
    refine ⟨h.close (Or.inr ⟨k, s.now, task, ?_, hfinished, rfl, hfirst, ?_⟩),
      punctual_of_not_waiting rfl⟩
    · rw [Hedging.close, List.getElem?_map, htask, map_some, cancel_of_done hdone]
    · change s.hedgesIssued * config.delay ≤ s.now
      rw [← hsince]
      exact hle
  | @hedge since t hphase hdeadline hle hnone =>
    obtain ⟨hsince, -, hstates⟩ := h.waiting since hphase
    have hmore : s.hedgesIssued < config.maxHedges := by
      unfold deadline at hdeadline
      split_ifs at hdeadline with hmore
      exact hmore
    have ht : since + config.delay = t := by
      rw [deadline, if_pos hmore] at hdeadline
      exact Option.some.inj hdeadline
    -- the timer is not missed, so it fires on time
    have hnow : s.now = (s.hedgesIssued + 1 : ℕ) * config.delay := by
      have hlate := hp t (mem_due_of_deadline hphase hdeadline)
      change s.now ≤ t at hlate
      push_cast
      rw [hsince] at ht
      linarith
    have hlength := h.length
    refine ⟨⟨fun k task htask => ?_, ?_, hmore, fun since' hsince' => ?_, by rintro _ ⟨⟩,
      by rintro _ ⟨⟩⟩, fun u hu => ?_⟩
    · have htask : (s.tasks ++ [calls.attempt s.tasks.length s.now])[k]? = some task := htask
      rcases Nat.lt_or_ge k s.tasks.length with hk | hk
      · rw [List.getElem?_append_left hk] at htask
        exact h.task k task htask
      · rw [List.getElem?_append_right hk] at htask
        obtain ⟨hk', -⟩ := List.getElem?_eq_some_iff.mp htask
        obtain rfl : k = s.tasks.length := by
          rw [length_singleton] at hk'
          omega
        rw [Nat.sub_self] at htask
        obtain rfl := Option.some.inj htask
        refine ⟨?_, rfl⟩
        rw [HedgedCalls.ends, hlength, ← hnow, ← hlength]
        rfl
    · simp [issue, hlength]
    · cases hsince'
      refine ⟨hnow, le_refl _, fun task htask => ?_⟩
      rcases mem_append.mp htask with htask | htask
      · exact hstates task htask
      · rw [mem_singleton.mp htask]
        exact Or.inl rfl
    · have hu : u ∈ (s.issue calls).due config := hu
      have hphase' : (s.issue calls).phase = .waiting s.now := rfl
      change s.now ≤ u
      simp only [due, hphase', mem_append, mem_filterMap] at hu
      rcases hu with hu | ⟨task, htask, hu⟩
      · have hu := mem_toList.mp hu
        have hpos := config.delay_pos
        unfold deadline at hu
        split_ifs at hu
        · obtain rfl := Option.some.inj hu
          linarith
      · rcases mem_append.mp htask with htask | htask
        · exact hp u (mem_due_of_ends hphase htask hu)
        · rw [mem_singleton.mp htask] at hu
          obtain ⟨d, hd, rfl⟩ := map_eq_some_iff.mp hu
          have hnonneg := calls.time_nonneg _ d hd
          linarith
  | @cancel since hphase =>
    exact ⟨h.close (Or.inl rfl), punctual_of_not_waiting rfl⟩
  | @cancelAgain result hphase hresult =>
    refine ⟨⟨h.task, h.length, h.issued, by rintro _ ⟨⟩, fun r hr => ?_, by rintro _ ⟨⟩⟩,
      punctual_of_not_waiting rfl⟩
    cases hr
    exact ⟨Or.inl rfl, (h.closing result hphase).2⟩
  | @stop k result task hphase htask hstate =>
    obtain ⟨hdecided, hrunning⟩ := h.closing result hphase
    have hdue : (s.setTask k task .stopped).due config = [] := by
      have hphase' : (s.setTask k task .stopped).phase = .closing result := hphase
      simp [due, hphase']
    refine ⟨⟨h.task_setTask htask, (length_setTask ..).trans h.length, h.issued, ?_, ?_, ?_⟩,
      punctual_of_not_waiting hdue⟩
    · intro since hsince
      cases hphase.symm.trans hsince
    · intro r hr
      cases hphase.symm.trans hr
      refine ⟨?_, fun task' htask' => ?_⟩
      · rcases hdecided with rfl | ⟨j, t, winner, hwinner, hfinished, hrest⟩
        · exact Or.inl rfl
        · refine Or.inr ⟨j, t, winner, ?_, hfinished, hrest⟩
          have hjk : k ≠ j := by
            rintro rfl
            cases hwinner.symm.trans htask
            cases hstate.symm.trans hfinished
          exact (List.getElem?_set_ne hjk).trans hwinner
      · rcases mem_setTask htask htask' with rfl | hold
        · simp
        · exact hrunning task' hold
    · intro r hr
      cases hphase.symm.trans hr
  | @leave result hphase hall =>
    obtain ⟨hdecided, -⟩ := h.closing result hphase
    refine ⟨⟨h.task, h.length, h.issued, by rintro _ ⟨⟩, by rintro _ ⟨⟩, fun r hr => ?_⟩,
      punctual_of_not_waiting rfl⟩
    cases hr
    exact ⟨hdecided, hall⟩

theorem paced_start : Paced config calls (start calls) where
  task k task htask := by
    have htask : [calls.attempt 0 0][k]? = some task := htask
    cases k with
    | zero =>
      obtain rfl := Option.some.inj htask
      refine ⟨?_, rfl⟩
      rw [HedgedCalls.ends, Nat.cast_zero, zero_mul]
      rfl
    | succ k => cases htask
  length := rfl
  issued := Nat.zero_le _
  waiting since hphase := by
    cases hphase
    refine ⟨?_, le_refl _, fun task htask => ?_⟩
    · change (0 : ℚ) = ((0 : ℕ) : ℚ) * _
      rw [Nat.cast_zero, zero_mul]
    · rw [mem_singleton.mp htask]
      exact Or.inl rfl
  closing := by rintro _ ⟨⟩
  left := by rintro _ ⟨⟩

theorem punctual_start : (system config calls).Punctual (start calls) := by
  intro u hu
  have hu : u ∈ (start calls).due config := hu
  change (0 : ℚ) ≤ u
  have hphase : (start calls).phase = .waiting 0 := rfl
  simp only [due, hphase, mem_append, mem_filterMap] at hu
  rcases hu with hu | ⟨task, htask, hu⟩
  · have hu := mem_toList.mp hu
    have hpos := config.delay_pos
    unfold deadline at hu
    split_ifs at hu
    obtain rfl := Option.some.inj hu
    linarith
  · rw [mem_singleton.mp htask] at hu
    obtain ⟨d, hd, rfl⟩ := map_eq_some_iff.mp hu
    have hnonneg := calls.time_nonneg _ d hd
    linarith

/-- **The invariant holds along every run.** -/
theorem paced_of_run {l : List (Option HedgeEvent)}
    (h : Run (system config calls).Step (start calls) l s) :
    Paced config calls s ∧ (system config calls).Punctual s := by
  refine Timed.invariant h paced_start punctual_start ?_ ?_
  · intro s a s' hp hI hact
    exact hI.step hp (act_eq_some hact)
  · intro s t hI hlater _
    refine ⟨hI.task, hI.length, hI.issued, fun since hs => ?_, hI.closing, hI.left⟩
    obtain ⟨hsince, hle, hstates⟩ := hI.waiting since hs
    have hlater : s.now ≤ t := le_of_lt hlater
    refine ⟨hsince, le_trans hle hlater, fun task htask => ?_⟩
    exact (hstates task htask).imp_right fun ⟨hf, u, hu, hut⟩ => ⟨hf, u, hu, le_trans hut hlater⟩

/-- **As long as a call can end, something happens**, until the hedged call is left. -/
theorem left_of_stuck (h : Paced config calls s) (hp : (system config calls).Punctual s)
    (hstuck : (system config calls).Stuck s) (htask : task ∈ s.tasks)
    (hends : task.ends ≠ none) : ∃ result, s.phase = .left result := by
  have hno : ∀ a s', ¬Move config calls s a s' := fun a s' hmove =>
    hstuck (some a) s' (.act hmove.act_eq)
  cases hphase : s.phase with
  | left result => exact ⟨result, rfl⟩
  | closing result =>
    -- a call that has not ended was cancelled, and ends
    by_cases hall : ∀ task ∈ s.tasks, task.done = true
    · exact absurd (.leave hphase hall) (hno _ _)
    · obtain ⟨other, hother⟩ := not_forall.mp hall
      obtain ⟨hmem, hdone⟩ := Classical.not_imp.mp hother
      obtain ⟨k, hk⟩ := mem_iff_getElem?.mp hmem
      have hrun := (h.closing result hphase).2 other hmem
      have hstate : other.state = .cancelling := by
        cases hs : other.state with
        | running => exact absurd hs hrun
        | finished => simp [HedgeTask.done, hs] at hdone
        | cancelling => rfl
        | stopped => simp [HedgeTask.done, hs] at hdone
      exact absurd (.stop hphase hk hstate) (hno _ _)
  | waiting since =>
    exfalso
    obtain ⟨-, -, hstates⟩ := h.waiting since hphase
    have hnone : ∀ other ∈ s.tasks, other.done = false := by
      intro other hmem
      obtain ⟨k, hk⟩ := mem_iff_getElem?.mp hmem
      by_contra hdone
      exact hno _ _ (.resume hphase hk (by simpa using hdone))
    obtain ⟨t, ht⟩ := ne_none_iff_exists'.mp hends
    have hdue : s.due config ≠ [] := ne_nil_of_mem (mem_due_of_ends hphase htask ht)
    by_cases hlater : ∀ u ∈ s.due config, s.now < u
    · obtain ⟨u, -, hstep⟩ := Timed.exists_wait (S := system config calls) hdue hlater
      exact hstuck _ _ hstep
    · obtain ⟨u, hu⟩ := not_forall.mp hlater
      obtain ⟨hmem, hle⟩ := Classical.not_imp.mp hu
      have hle : u ≤ s.now := not_lt.mp hle
      have hnow : u = s.now := le_antisymm hle (hp u hmem)
      simp only [due, hphase, mem_append, mem_filterMap] at hmem
      rcases hmem with hdeadline | ⟨other, hother, hu⟩
      · exact hno _ _ (.hedge hphase (mem_toList.mp hdeadline) hle hnone)
      · obtain ⟨k, hk⟩ := mem_iff_getElem?.mp hother
        rcases hstates other hother with hrun | ⟨hfinished, -⟩
        · exact hno _ _ (.finish hphase hk hrun (hu.trans (congrArg some hnow)))
        · have hdone := hnone other hother
          simp [HedgeTask.done, hfinished] at hdone

end Hedging

/-! ## How hedging goes -/

def HedgeTask.Raised (task : HedgeTask α ε) : Prop :=
  task.state = .finished ∧ ∃ e, task.outcome = .error e

/-- Call `k` returns `a` when left to run. -/
def HedgedCalls.Returns (calls : HedgedCalls α ε) (k : ℕ) (a : α) : Prop :=
  (∃ t, calls.time k = some t) ∧ calls.outcome k = .ok a

/-- What is promised of a hedged call, in a state of a run: the number of calls; that it returns
what a successful call returns if there is one among those issued; that it raises only if all of
them raised; and that none of them is left running. -/
structure Hedges (config : HedgeConfig) (calls : HedgedCalls α ε) (s : Hedging α ε) : Prop where
  issued : s.tasks.length ≤ 1 + config.maxHedges
  returns : (Hedging.system config calls).Stuck s → (∃ k < s.tasks.length, ∃ a, calls.Returns k a) →
    s.phase = .left .cancelled ∨
      ∃ k < s.tasks.length, ∃ a, calls.Returns k a ∧ s.phase = .left (.returned a)
  raises : ∀ e, s.phase = .left (.raised e) → ∀ task ∈ s.tasks, task.Raised
  ended : ∀ result, s.phase = .left result → ∀ task ∈ s.tasks, task.done = true

/-- Hedging returns a success whenever one exists: every run is of bounded length, and goes as
promised. -/
def HedgedCall (config : HedgeConfig) (calls : HedgedCalls α ε) : Prop :=
  (∃ n, ∀ l s, Run (Hedging.system config calls).Step (Hedging.start calls) l s → l.length ≤ n) ∧
    ∀ l s, Run (Hedging.system config calls).Step (Hedging.start calls) l s → Hedges config calls s

/-- No call that raises is a first one to end, unless it ends before the first delay has passed. -/
def FirstSucceeds (config : HedgeConfig) (calls : HedgedCalls α ε) : Prop :=
  ∀ k t e, calls.First config k t → calls.outcome k = .error e → t < config.delay

namespace Hedging

variable {config : HedgeConfig} {calls : HedgedCalls α ε} {s s' : Hedging α ε} {a : HedgeEvent}

/-- A first call that raises before the first delay is the only one. -/
theorem length_eq_one (h : Paced config calls s) {t : ℚ} (hlt : t < config.delay)
    (hissued : s.hedgesIssued * config.delay ≤ t) : s.tasks.length = 1 := by
  have hzero : s.hedgesIssued = 0 := by
    by_contra hne
    have hone : (1 : ℚ) ≤ s.hedgesIssued := by exact_mod_cast Nat.one_le_iff_ne_zero.mpr hne
    have hle := mul_le_mul_of_nonneg_right hone (le_of_lt config.delay_pos)
    linarith
  rw [h.length, hzero]

/-- **The condition is enough.** -/
theorem hedges_of_firstSucceeds (hfirst : FirstSucceeds config calls) (h : Paced config calls s)
    (hp : (system config calls).Punctual s) : Hedges config calls s where
  issued := by
    have hlength := h.length
    have hissued := h.issued
    omega
  returns hstuck := by
    rintro ⟨k, hk, a, ⟨d, hd⟩, ha⟩
    obtain ⟨hends, hout⟩ := h.task k s.tasks[k] (List.getElem?_eq_getElem hk)
    have hne : s.tasks[k].ends ≠ none := by
      rw [hends, HedgedCalls.ends, hd]
      exact some_ne_none _
    obtain ⟨result, hleft⟩ := left_of_stuck h hp hstuck (getElem_mem hk) hne
    rcases (h.left result hleft).1 with rfl | ⟨j, t, task, htask, -, rfl, hjfirst, hissued⟩
    · exact Or.inl hleft
    · obtain ⟨-, hjout⟩ := h.task j task htask
      obtain ⟨hj, -⟩ := List.getElem?_eq_some_iff.mp htask
      cases hres : calls.outcome j with
      | ok b =>
        refine Or.inr ⟨j, hj, b, ⟨?_, hres⟩, ?_⟩
        · obtain ⟨d', hd', -⟩ := map_eq_some_iff.mp hjfirst.ends
          exact ⟨d', hd'⟩
        · rw [hleft, HedgeTask.result, hjout, hres]
      | error e =>
        -- then the first call is the only one, and it does not succeed
        have hone := length_eq_one h (hfirst j t e hjfirst hres) hissued
        obtain rfl : j = k := by omega
        cases hres.symm.trans ha
  raises e hleft := by
    obtain ⟨hdecided, -⟩ := h.left _ hleft
    rcases hdecided with hres | ⟨j, t, task, htask, hfinished, hres, hjfirst, hissued⟩
    · cases hres
    · obtain ⟨-, hjout⟩ := h.task j task htask
      have hraised : task.outcome = .error e := by
        unfold HedgeTask.result at hres
        split at hres
        · cases hres
        · cases hres
          assumption
      have hone := length_eq_one h (hfirst j t e hjfirst (hjout.symm.trans hraised)) hissued
      intro other hother
      obtain ⟨i, hi⟩ := mem_iff_getElem?.mp hother
      obtain ⟨hi', -⟩ := List.getElem?_eq_some_iff.mp hi
      obtain ⟨hj, -⟩ := List.getElem?_eq_some_iff.mp htask
      obtain rfl : i = j := by omega
      cases hi.symm.trans htask
      exact ⟨hfinished, e, hraised⟩
  ended result hleft := (h.left result hleft).2

theorem result_of_error {task : HedgeTask α ε} {e : ε} (h : task.outcome = .error e) :
    task.result = .raised e := by
  rw [HedgeTask.result, h]

/-- The state in which the hedge `n` has just been issued, and no call has ended. -/
def issuing (config : HedgeConfig) (calls : HedgedCalls α ε) (n : ℕ) : Hedging α ε where
  now := n * config.delay
  tasks := (List.range (n + 1)).map fun k => calls.attempt k (k * config.delay)
  hedgesIssued := n
  phase := .waiting (n * config.delay)

theorem getElem?_issuing (config : HedgeConfig) (calls : HedgedCalls α ε) {n : ℕ} (hk : k ≤ n) :
    (issuing config calls n).tasks[k]? = some (calls.attempt k (k * config.delay)) := by
  rw [issuing, List.getElem?_map, List.getElem?_range (by omega)]
  rfl

/-- What is due then: the next hedge, and the ends of the calls. -/
theorem mem_due_issuing {n : ℕ} {u : ℚ} (hu : u ∈ (issuing config calls n).due config) :
    n < config.maxHedges ∧ u = n * config.delay + config.delay ∨
      ∃ j ≤ n, calls.ends config j = some u := by
  have hphase : (issuing config calls n).phase = .waiting (n * config.delay) := rfl
  simp only [due, hphase, mem_append, mem_filterMap] at hu
  rcases hu with hu | ⟨task, htask, hu⟩
  · have hu := mem_toList.mp hu
    unfold deadline at hu
    split_ifs at hu with hmore
    exact Or.inl ⟨hmore, (Option.some.inj hu).symm⟩
  · obtain ⟨j, hj, rfl⟩ := mem_map.mp htask
    have hj := mem_range.mp hj
    exact Or.inr ⟨j, by omega, hu⟩

/-- **Hedges are issued on time** as long as no call ends: the timer may be seen first. -/
theorem run_issuing (calls : HedgedCalls α ε) {n : ℕ} (hn : n ≤ config.maxHedges)
    (hends : ∀ j ≤ config.maxHedges, ∀ u, calls.ends config j = some u → n * config.delay ≤ u) :
    ∃ l, Run (system config calls).Step (start calls) l (issuing config calls n) := by
  induction n with
  | zero =>
    have hstart : start calls = issuing config calls 0 := by simp [start, issuing]
    exact ⟨[], hstart ▸ .nil _⟩
  | succ n ih =>
    have hpos := config.delay_pos
    push_cast at hends
    obtain ⟨l, hl⟩ := ih (by omega) fun j hj u hu => by
      have hlate := hends j hj u hu
      linarith
    have hphase : (issuing config calls n).phase = .waiting (n * config.delay) := rfl
    have hdeadline : (issuing config calls n).deadline config (n * config.delay) =
        some (n * config.delay + config.delay) := if_pos hn
    have hwait : (system config calls).Step (issuing config calls n) none
        { issuing config calls n with now := n * config.delay + config.delay } := by
      refine .wait (mem_due_of_deadline hphase hdeadline) ?_ fun u hu => ?_
      · change (n * config.delay : ℚ) < _
        linarith
      · rcases mem_due_issuing hu with ⟨-, rfl⟩ | ⟨j, hj, hu⟩
        · exact le_refl _
        · have hlate := hends j (by omega) u hu
          linarith
    have hhedge : Move config calls
        { issuing config calls n with now := n * config.delay + config.delay } .hedge
        (issuing config calls (n + 1)) := by
      have hstate : issue calls
          { issuing config calls n with now := n * config.delay + config.delay } =
          issuing config calls (n + 1) := by
        have hnow : (n * config.delay + config.delay : ℚ) = (n + 1 : ℕ) * config.delay := by
          push_cast
          linarith
        simp only [issue, issuing, range_succ, map_append, map_cons, map_nil,
          length_append, length_map, length_range, length_singleton, hnow]
      rw [← hstate]
      refine .hedge hphase hdeadline (le_refl _) fun task htask => ?_
      obtain ⟨j, -, rfl⟩ := mem_map.mp htask
      rfl
    exact ⟨_, (hl.append (.single hwait)).append (.single (.act hhedge.act_eq))⟩

def Cut (task : HedgeTask α ε) : Prop := task.state = .cancelling ∨ task.state = .stopped

/-- **The `finally` block ends** with the result it began with, if nobody cancels it, and the calls
that it cancelled did not end by themselves. -/
theorem run_leave (config : HedgeConfig) (calls : HedgedCalls α ε)
    {result : HedgeResult α ε} (hphase : s.phase = .closing result)
    (hrunning : ∀ task ∈ s.tasks, task.state ≠ .running) (hcut : ∃ task ∈ s.tasks, Cut task) :
    ∃ l s', Run (system config calls).Step s l s' ∧ s'.phase = .left result ∧
      ∃ task ∈ s'.tasks, Cut task := by
  induction hn : s.tasks.countP (!·.done) using Nat.strongRecOn generalizing s with
  | ind n ih =>
    by_cases hall : ∀ task ∈ s.tasks, task.done = true
    · have hleave : Move config calls s .leave _ := .leave hphase hall
      exact ⟨_, _, .single (.act hleave.act_eq), rfl, hcut⟩
    · -- one of the cancelled calls ends
      obtain ⟨other, hother⟩ := not_forall.mp hall
      obtain ⟨hmem, hdone⟩ := Classical.not_imp.mp hother
      obtain ⟨k, hk⟩ := mem_iff_getElem?.mp hmem
      have hstate : other.state = .cancelling := by
        cases hs : other.state with
        | running => exact absurd hs (hrunning other hmem)
        | finished => simp [HedgeTask.done, hs] at hdone
        | cancelling => rfl
        | stopped => simp [HedgeTask.done, hs] at hdone
      have hstop : Move config calls s (.stop k) _ := .stop hphase hk hstate
      have hcount := countP_setTask .stopped hk (by simpa using hdone)
        (by simp [HedgeTask.done])
      obtain ⟨hlt, -⟩ := List.getElem?_eq_some_iff.mp hk
      obtain ⟨l, s', hl, hleft, hcut'⟩ := ih _ (by omega) (s := s.setTask k other .stopped) hphase
        (fun task htask => by
          rcases mem_setTask hk htask with rfl | hold
          · simp
          · exact hrunning task hold)
        ⟨_, mem_of_getElem? (List.getElem?_set_self hlt), Or.inr rfl⟩ rfl
      exact ⟨_, s', .cons (.act hstop.act_eq) hl, hleft, hcut'⟩

/-- **The condition is needed**: a call that raises, and may be the first to end when another one is
under way, decides. -/
theorem not_hedgedCall {t : ℚ} {e : ε} (hfirst : calls.First config k t)
    (hraises : calls.outcome k = .error e) (hlate : config.delay ≤ t) :
    ∃ l s, Run (system config calls).Step (start calls) l s ∧ s.phase = .left (.raised e) ∧
      ∃ task ∈ s.tasks, Cut task := by
  -- the last hedge that is issued by then
  obtain ⟨n, hn, hone, hle, hnext⟩ : ∃ n ≤ config.maxHedges, 1 ≤ n ∧ n * config.delay ≤ t ∧
      (n < config.maxHedges → t < n * config.delay + config.delay) := by
    refine ⟨Nat.findGreatest (fun n => n * config.delay ≤ t) config.maxHedges,
      Nat.findGreatest_le _, ?_, ?_, fun hlt => ?_⟩
    · exact Nat.le_findGreatest config.maxHedges_pos (by rwa [Nat.cast_one, one_mul])
    · refine Nat.findGreatest_spec (P := fun n : ℕ => n * config.delay ≤ t) (Nat.zero_le _) ?_
      have hpos := config.delay_pos
      rw [Nat.cast_zero, zero_mul]
      linarith
    · have hnot := Nat.findGreatest_is_greatest (Nat.lt_succ_self _) hlt
      push_cast at hnot
      have hlt := not_le.mp hnot
      linarith
  have hk : k ≤ n := by
    by_contra hlt
    have hmore := hnext (by have hkmax := hfirst.le; omega)
    have hcast : ((n + 1 : ℕ) : ℚ) ≤ k := by exact_mod_cast (by omega)
    have hstart := mul_le_mul_of_nonneg_right hcast (le_of_lt config.delay_pos)
    have hends := HedgedCalls.le_ends hfirst.ends
    push_cast at hstart
    linarith
  obtain ⟨l, hl⟩ := run_issuing calls hn fun j hj u hu =>
    le_trans hle (hfirst.first j hj u hu)
  have hphase : (issuing config calls n).phase = .waiting (n * config.delay) := rfl
  have htask := getElem?_issuing config calls hk
  -- time passes to the end of the call
  have hwait : ∃ l', Run (system config calls).Step (issuing config calls n) l'
      { issuing config calls n with now := t } := by
    rcases eq_or_lt_of_le hle with heq | hlt
    · exact ⟨[], heq ▸ .nil _⟩
    · refine ⟨_, .single (.wait (mem_due_of_ends hphase (mem_of_getElem? htask) hfirst.ends)
        hlt fun u hu => ?_)⟩
      rcases mem_due_issuing hu with ⟨hmore, rfl⟩ | ⟨j, hj, hu⟩
      · exact le_of_lt (hnext hmore)
      · exact hfirst.first j (by omega) u hu
  obtain ⟨l', hl'⟩ := hwait
  have hfinish : Move config calls { issuing config calls n with now := t } (.finish k)
      (setTask { issuing config calls n with now := t } k _ .finished) :=
    .finish hphase htask rfl hfirst.ends
  have htask' : (setTask { issuing config calls n with now := t } k
      (calls.attempt k (k * config.delay)) .finished).tasks[k]? =
      some { calls.attempt k (k * config.delay) with state := .finished } := by
    obtain ⟨hlt, -⟩ := List.getElem?_eq_some_iff.mp htask
    exact List.getElem?_set_self hlt
  have hresume : Move config calls (setTask { issuing config calls n with now := t } k
      (calls.attempt k (k * config.delay)) .finished) (.resume k) _ :=
    .resume hphase htask' rfl
  rw [result_of_error hraises] at hresume
  -- another call is under way
  obtain ⟨j, hj, hjk⟩ : ∃ j ≤ n, j ≠ k := by
    by_cases hzero : k = 0
    · exact ⟨1, hone, by omega⟩
    · exact ⟨0, Nat.zero_le _, fun h => hzero h.symm⟩
  have hother : (setTask { issuing config calls n with now := t } k
      (calls.attempt k (k * config.delay)) .finished).tasks[j]? =
      some (calls.attempt j (j * config.delay)) :=
    (List.getElem?_set_ne (Ne.symm hjk)).trans (getElem?_issuing config calls hj)
  obtain ⟨l'', s', hl'', hleft, hcut⟩ := run_leave config calls
    (s := close (setTask { issuing config calls n with now := t } k
      (calls.attempt k (k * config.delay)) .finished) (.raised e)) rfl
    (fun task htask => by
      obtain ⟨old, -, rfl⟩ := mem_map.mp htask
      exact cancel_not_running old)
    ⟨_, mem_map_of_mem (mem_of_getElem? hother), Or.inl rfl⟩
  refine ⟨_, s', (hl.append hl').append (.cons (.act hfinish.act_eq)
    (.cons (.act hresume.act_eq) hl'')), hleft, hcut⟩

end Hedging

/-- **Hedging returns a success whenever one exists, and raises only when every call raised, exactly
when** no call that raises may be the first to end, unless it is the original call before the first
delay has passed. -/
theorem hedgedCall_iff (config : HedgeConfig) (calls : HedgedCalls α ε) :
    HedgedCall config calls ↔ FirstSucceeds config calls := by
  constructor
  · intro h k t e hfirst hraises
    by_contra hlate
    obtain ⟨l, s, hl, hleft, task, htask, hcut⟩ :=
      Hedging.not_hedgedCall hfirst hraises (not_lt.mp hlate)
    obtain ⟨hfinished, -⟩ := (h.2 l s hl).raises e hleft task htask
    rcases hcut with hcut | hcut <;> cases hfinished.symm.trans hcut
  · intro hfirst
    refine ⟨⟨_, fun l s hl => Hedging.length_le hl⟩, fun l s hl => ?_⟩
    obtain ⟨hpaced, hpunctual⟩ := Hedging.paced_of_run hl
    exact Hedging.hedges_of_firstSucceeds hfirst hpaced hpunctual

/-! ## A hedge that would have succeeded -/

def slowTime (k : ℕ) : Option ℚ := if k = 0 then some 2 else some 5

theorem slowTime_nonneg (k : ℕ) (t : ℚ) (h : slowTime k = some t) : 0 ≤ t := by
  unfold slowTime at h
  split_ifs at h <;> cases h <;> norm_num

/-- The original call raises after two seconds; the others return after five. -/
def slowFailure : HedgedCalls ℕ ℕ :=
  ⟨slowTime, fun k => if k = 0 then .error 0 else .ok k, slowTime_nonneg⟩

theorem one_second_pos : (0 : ℚ) < 1 := by norm_num

def hedgeOnce : HedgeConfig := ⟨1, 1, one_second_pos, Nat.le_refl 1⟩

/-- **The hedge would succeed**, and the hedged call raises. -/
theorem slow_failure_wins : ¬HedgedCall hedgeOnce slowFailure := by
  intro h
  have hfirst : slowFailure.First hedgeOnce 0 2 := by
    refine ⟨Nat.zero_le _, by simp [HedgedCalls.ends, slowFailure, slowTime], fun j hj u hu => ?_⟩
    obtain ⟨d, hd, rfl⟩ := map_eq_some_iff.mp hu
    have hd : (if j = 0 then some 2 else some 5) = some d := hd
    have hstart : (0 : ℚ) ≤ j * hedgeOnce.delay :=
      mul_nonneg (Nat.cast_nonneg j) (le_of_lt hedgeOnce.delay_pos)
    split_ifs at hd <;> cases hd <;> linarith
  obtain ⟨l, s, hl, hleft, task, htask, hcut⟩ :=
    Hedging.not_hedgedCall hfirst rfl (by norm_num [hedgeOnce])
  obtain ⟨hfinished, -⟩ := (h.2 l s hl).raises 0 hleft task htask
  rcases hcut with hcut | hcut <;> cases hfinished.symm.trans hcut

end Varco
