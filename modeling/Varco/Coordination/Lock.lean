import Mathlib.Algebra.Order.Ring.Rat
import Varco.Foundations.Run
import Varco.Foundations.Text

/-!
# Distributed locks

`LockHandle`, `AbstractDistributedLock.acquire` and `InMemoryLock` of `varco_core.lock`, for any
number of tasks of one event loop. A task runs until an await of it suspends, and can be cancelled
there. An `asyncio.Lock` that is free and that nobody waits for is acquired without suspending.

The guard of the table is never kept while a task is suspended, and a lock of a key is only acquired
where it is free. So `try_acquire` and `release` are never suspended, and what they do is not
interrupted (`Invariant.phases`): a key is held by exactly the handle that was handed out for it and
on which `release()` was not called.
-/

namespace Varco

open Function

/-- An `asyncio.Lock`, and the tasks that wait for it, in order. -/
structure AsyncioLock (ι : Type) where
  locked : Bool := false
  waiters : List ι := []

namespace AsyncioLock

variable {ι : Type}

/-- `acquire()` does not suspend. -/
def free (lock : AsyncioLock ι) : Bool := !lock.locked && lock.waiters.isEmpty

def acquired (lock : AsyncioLock ι) : AsyncioLock ι := { lock with locked := true }

def release (lock : AsyncioLock ι) : AsyncioLock ι := { lock with locked := false }

def wait (lock : AsyncioLock ι) (i : ι) : AsyncioLock ι :=
  { lock with waiters := lock.waiters ++ [i] }

def leave [DecidableEq ι] (lock : AsyncioLock ι) (i : ι) : AsyncioLock ι :=
  { lock with waiters := lock.waiters.erase i }

def turn [DecidableEq ι] (lock : AsyncioLock ι) (i : ι) : Bool :=
  !lock.locked && lock.waiters.head? = some i

end AsyncioLock

/-- `LockHandle`, which is known by its token: the key, and `_released`. -/
structure LockHandle where
  key : String
  released : Bool := false

def lockNotAcquiredError (key : String) (timeout : PyFloat) : PyException where
  typeName := "LockNotAcquiredError"
  message := "Could not acquire distributed lock for key=" ++ pyRepr key ++ " within timeout=" ++
    timeout.repr ++ "s. Another process may be holding the lock — retry later or increase the " ++
    "timeout."

/-- The checks of `try_acquire`. -/
def checkLock (key : String) (ttl : PyFloat) : Except PyException Unit :=
  if key = "" then .error (.valueError "Lock key must be a non-empty string.")
  else if ttl.val ≤ 0 then
    .error (.valueError ("Lock TTL must be positive; got ttl=" ++ ttl.repr ++ "."))
  else .ok ()

/-- The checks of `acquire`. -/
def checkAcquire (key : String) (ttl timeout : PyFloat) : Except PyException Unit := do
  checkLock key ttl
  if timeout.val < 0 then
    .error (.valueError ("Lock timeout must be non-negative; got timeout=" ++ timeout.repr ++ "."))
  else .ok ()

/-- What a call of a lock has ended with. -/
inductive LockResult
  | handle (handle : Option UUID)
  | released
  | raised (exc : Exc)
  deriving DecidableEq

namespace InMemoryLock

/-! ## Tasks -/

/-- A call of a task. -/
inductive Call
  | tryAcquire (key : String) (ttl : PyFloat)
  | acquire (key : String) (ttl timeout : PyFloat)
  | release (handle : UUID)

/-- The loop of `acquire`: its timeout, and the deadline. -/
structure Loop where
  timeout : PyFloat
  deadline : ℚ

/-- What is done under the guard: `try_acquire`, maybe in the loop of `acquire`, or `release`. -/
inductive Work
  | tryAcquire (key : String) (loop : Option Loop)
  | release (key : String) (token : UUID)

/-- Where a task is suspended. -/
inductive Phase
  /-- Not in a call. -/
  | idle
  /-- It waits for the guard of the table. -/
  | guard (work : Work)
  /-- It keeps the guard, and waits for the lock of the key. -/
  | perKey (key : String) (loop : Option Loop)
  /-- It sleeps between two attempts. -/
  | sleeping (key : String) (loop : Loop)

/-- The table of the locks with their tokens, its guard, the handles that were handed out, and the
tasks with what their calls have ended with. -/
structure State (ι : Type) where
  locks : String → Option (AsyncioLock ι × Option UUID) := fun _ => none
  dictLock : AsyncioLock ι := {}
  handles : UUID → Option LockHandle := fun _ => none
  phase : ι → Phase := fun _ => .idle
  results : List (ι × LockResult) := []

variable {ι : Type} [DecidableEq ι]

def State.finish (s : State ι) (i : ι) (result : LockResult) : State ι :=
  { s with phase := update s.phase i .idle, results := s.results ++ [(i, result)] }

def State.suspend (s : State ι) (i : ι) (phase : Phase) : State ι :=
  { s with phase := update s.phase i phase }

omit [DecidableEq ι] in
def State.leaveGuard (s : State ι) : State ι := { s with dictLock := s.dictLock.release }

/-- `try_acquire` has ended, for its caller or for the loop of `acquire`. -/
def tried (s : State ι) (i : ι) (time : ℚ) (key : String) (loop : Option Loop) :
    Option UUID → State ι
  | some token => s.finish i (.handle (some token))
  | none =>
    match loop with
    | none => s.finish i (.handle none)
    | some l =>
      if l.deadline - time ≤ 0 then
        s.finish i (.raised (.error (lockNotAcquiredError key l.timeout)))
      else s.suspend i (.sleeping key l)

/-- The lock of the key was acquired: it gets a token, and a handle is handed out. -/
def granted (s : State ι) (i : ι) (time : ℚ) (key : String) (loop : Option Loop)
    (lock : AsyncioLock ι) (token : UUID) : State ι :=
  let s := { s with
    locks := update s.locks key (some (lock.acquired, some token))
    handles := update s.handles token (some { key }) }
  tried s.leaveGuard i time key loop (some token)

/-- `try_acquire` under the guard. -/
def tryAcquire (s : State ι) (i : ι) (time : ℚ) (key : String) (loop : Option Loop)
    (token : UUID) : State ι :=
  let (lock, current) := (s.locks key).getD ({}, none)
  let s := { s with locks := update s.locks key (some (lock, current)) }
  if lock.locked then tried s.leaveGuard i time key loop none
  else if lock.free then granted s i time key loop lock token
  else
    { s.suspend i (.perKey key loop) with
      locks := update s.locks key (some (lock.wait i, current)) }

/-- `release` under the guard. -/
def release (s : State ι) (i : ι) (key : String) (token : UUID) : State ι :=
  match s.locks key with
  | none => s.leaveGuard.finish i .released
  | some (lock, current) =>
    if current ≠ some token then s.leaveGuard.finish i .released
    else
      let s := { s with locks := update s.locks key (some (lock.release, none)) }
      s.leaveGuard.finish i .released

def work (s : State ι) (i : ι) (time : ℚ) (token : UUID) : Work → State ι
  | .tryAcquire key loop => tryAcquire s i time key loop token
  | .release key old => release s i key old

/-- `async with self._get_dict_lock()`. -/
def enter (s : State ι) (i : ι) (time : ℚ) (token : UUID) (w : Work) : State ι :=
  if s.dictLock.free then work { s with dictLock := s.dictLock.acquired } i time token w
  else { s.suspend i (.guard w) with dictLock := s.dictLock.wait i }

def call (s : State ι) (i : ι) (time : ℚ) (token : UUID) : Call → Option (State ι)
  | .tryAcquire key ttl =>
    match checkLock key ttl with
    | .error e => some (s.finish i (.raised (.error e)))
    | .ok () => some (enter s i time token (.tryAcquire key none))
  | .acquire key ttl timeout =>
    match checkAcquire key ttl timeout with
    | .error e => some (s.finish i (.raised (.error e)))
    | .ok () =>
      some (enter s i time token (.tryAcquire key (some ⟨timeout, time + timeout.val⟩)))
  | .release handle =>
    match s.handles handle with
    | none => none
    | some h =>
      if h.released then some (s.finish i .released)
      else
        let s := { s with
          handles := update s.handles handle (some { h with released := true }) }
        some (enter s i time token (.release h.key handle))

/-- What a task does next: a call, to go on where it is suspended, or to be cancelled there. -/
inductive Input
  | call (call : Call)
  | resume
  | cancel

/-- A task goes on at `time`, until it is suspended again. `token` is the `uuid4` that it draws, if
it draws one, which is a new one. -/
def advance (s : State ι) (i : ι) (time : ℚ) (token : UUID) (input : Input) : Option (State ι) :=
  if (s.handles token).isSome then none
  else
    match input, s.phase i with
    | .call c, .idle => call s i time token c
    | .resume, .guard w =>
      if s.dictLock.turn i then
        some (work { s with dictLock := (s.dictLock.leave i).acquired } i time token w)
      else none
    | .resume, .perKey key loop =>
      match s.locks key with
      | some (lock, _) =>
        if lock.turn i then some (granted s i time key loop (lock.leave i) token) else none
      | none => none
    | .resume, .sleeping key loop => some (enter s i time token (.tryAcquire key (some loop)))
    | .cancel, .guard _ =>
      some ({ s with dictLock := s.dictLock.leave i }.finish i (.raised .cancelled))
    | .cancel, .perKey key _ =>
      let lock := (s.locks key).map fun (lock, current) => (lock.leave i, current)
      let s := { s with locks := update s.locks key lock }
      some (s.leaveGuard.finish i (.raised .cancelled))
    | .cancel, .sleeping _ _ => some (s.finish i (.raised .cancelled))
    | _, _ => none

/-- A task goes on. -/
structure Move (ι : Type) where
  task : ι
  time : ℚ
  token : UUID
  input : Input

def Step (s : State ι) (a : Move ι) (s' : State ι) : Prop :=
  advance s a.task a.time a.token a.input = some s'

def State.holder (s : State ι) (key : String) : Option UUID := (s.locks key).bind (·.2)

/-- The table and the handles: nobody waits for the lock of a key, which is locked as long as a
handle holds it, and the holders are the handles that are not released. -/
structure Table (locks : String → Option (AsyncioLock ι × Option UUID))
    (handles : UUID → Option LockHandle) : Prop where
  free : ∀ key lock current, locks key = some (lock, current) →
    lock = { locked := current.isSome }
  held : ∀ key lock token, locks key = some (lock, some token) →
    handles token = some { key }
  holds : ∀ key token, handles token = some { key } → ∃ lock, locks key = some (lock, some token)

/-- What holds whenever all tasks are suspended: none of them in `try_acquire` or `release`. -/
structure Invariant (s : State ι) : Prop where
  table : Table s.locks s.handles
  guard : s.dictLock = {}
  phases : ∀ i, s.phase i = .idle ∨ ∃ key loop, s.phase i = .sleeping key loop

variable {s s' : State ι} {i : ι} {time : ℚ} {key : String} {token : UUID}
  {handles : UUID → Option LockHandle}

omit [DecidableEq ι] in
theorem Table.holder_cases (h : Table s.locks handles)
    (key : String) : s.holder key = none ∧ (s.locks key).getD ({}, none) = ({}, none) ∨
      ∃ token lock, s.holder key = some token ∧ s.locks key = some (lock, some token) ∧
        lock.locked = true := by
  unfold State.holder
  cases hlock : s.locks key with
  | none => exact Or.inl ⟨rfl, rfl⟩
  | some x =>
    obtain ⟨lock, _ | token⟩ := x
    · refine Or.inl ⟨rfl, ?_⟩
      rw [h.free key lock none hlock]
      rfl
    · refine Or.inr ⟨token, lock, rfl, rfl, ?_⟩
      rw [h.free key lock _ hlock]
      rfl

theorem Invariant.suspend (h : Invariant s) {phase : Phase}
    (hphase : phase = .idle ∨ ∃ key loop, phase = .sleeping key loop) :
    Invariant (s.suspend i phase) where
  table := h.table
  guard := h.guard
  phases j := by
    change update s.phase i phase j = _ ∨ _
    by_cases hj : j = i
    · refine hphase.imp (fun heq => ?_) fun ⟨key, loop, heq⟩ => ⟨key, loop, ?_⟩
      · rw [hj, update_self, heq]
      · exact heq ▸ hj ▸ update_self ..
    · refine (h.phases j).imp (fun heq => ?_) fun ⟨key, loop, heq⟩ => ⟨key, loop, ?_⟩
      · rwa [update_of_ne hj]
      · exact (update_of_ne hj ..).trans heq

theorem Invariant.finish (h : Invariant s) (result : LockResult) : Invariant (s.finish i result) :=
  have hidle : Invariant (s.suspend i .idle) := h.suspend (Or.inl rfl)
  ⟨hidle.table, hidle.guard, hidle.phases⟩

variable {loop : Option Loop}

theorem Invariant.tried (h : Invariant s) (handle : Option UUID) :
    Invariant (tried s i time key loop handle) := by
  unfold InMemoryLock.tried
  split
  · exact h.finish _
  · split
    · exact h.finish _
    · split_ifs
      · exact h.finish _
      · exact h.suspend (Or.inr ⟨_, _, rfl⟩)

omit [DecidableEq ι] in
/-- A new handle gets the lock of a key that nobody holds. -/
theorem Table.grant {locks : String → Option (AsyncioLock ι × Option UUID)}
    (h : Table locks handles)
    (hfree : ∀ token, handles token ≠ some { key }) (hnew : handles token = none) :
    Table (update locks key (some ({ locked := true }, some token)))
      (update handles token (some { key })) where
  free key' lock current hlock := by
    by_cases hkey : key' = key
    · rw [hkey, update_self] at hlock
      cases hlock
      rfl
    · rw [update_of_ne hkey] at hlock
      exact h.free key' lock current hlock
  held key' lock token' hlock := by
    by_cases hkey : key' = key
    · rw [hkey, update_self] at hlock
      cases hlock
      rw [hkey, update_self]
    · rw [update_of_ne hkey] at hlock
      have hheld := h.held key' lock token' hlock
      rwa [update_of_ne fun heq => by rw [heq, hnew] at hheld; cases hheld]
  holds key' token' htoken := by
    by_cases hnew' : token' = token
    · rw [hnew', update_self] at htoken
      cases htoken
      rw [hnew']
      exact ⟨_, update_self ..⟩
    · rw [update_of_ne hnew'] at htoken
      have hkey : key' ≠ key := fun hkey => hfree token' (hkey ▸ htoken)
      rw [update_of_ne hkey]
      exact h.holds key' token' htoken

omit [DecidableEq ι] in
/-- The handle that holds the lock of a key is released, and the lock with it. -/
theorem Table.release {locks : String → Option (AsyncioLock ι × Option UUID)}
    (h : Table locks handles)
    (hhandle : handles token = some { key }) :
    Table (update locks key (some ({}, none)))
      (update handles token (some { key, released := true })) where
  free key' lock current hlock := by
    by_cases hkey : key' = key
    · rw [hkey, update_self] at hlock
      cases hlock
      rfl
    · rw [update_of_ne hkey] at hlock
      exact h.free key' lock current hlock
  held key' lock token' hlock := by
    by_cases hkey : key' = key
    · rw [hkey, update_self] at hlock
      cases hlock
    · rw [update_of_ne hkey] at hlock
      have hheld := h.held key' lock token' hlock
      have hne : token' ≠ token := by
        rintro rfl
        rw [hhandle] at hheld
        cases hheld
        exact hkey rfl
      rwa [update_of_ne hne]
  holds key' token' htoken := by
    by_cases heq : token' = token
    · rw [heq, update_self] at htoken
      cases htoken
    · rw [update_of_ne heq] at htoken
      obtain ⟨lock, hlock⟩ := h.holds key' token' htoken
      by_cases hkey : key' = key
      · -- the lock of a key has one holder
        obtain ⟨lock', hlock'⟩ := h.holds key token hhandle
        rw [hkey, hlock'] at hlock
        cases hlock
        exact absurd rfl heq
      · rw [update_of_ne hkey]
        exact ⟨lock, hlock⟩

omit [DecidableEq ι] in
theorem Table.not_held (h : Table s.locks handles)
    (hholder : s.holder key = none) : ∀ token, handles token ≠ some { key } := by
  intro token htoken
  obtain ⟨lock, hlock⟩ := h.holds key token htoken
  unfold State.holder at hholder
  rw [hlock] at hholder
  cases hholder

/-- The state has changed in the locks and the handles. -/
structure Became (s s' : State ι) (holder : String → Option UUID)
    (handles : UUID → Option LockHandle) : Prop where
  invariant : Invariant s'
  holder : s'.holder = holder
  handles : s'.handles = handles
  results : s.results ⊆ s'.results

/-- The guard is free, and what is done under it begins at once. -/
theorem enter_eq (hguard : s.dictLock = {}) (w : Work) :
    enter s i time token w = work { s with dictLock := { locked := true } } i time token w := by
  obtain ⟨locks, dictLock, handles, phase, results⟩ := s
  obtain rfl : dictLock = {} := hguard
  rfl

omit [DecidableEq ι] in
theorem leaveGuard_eq (hguard : s.dictLock = {}) :
    State.leaveGuard { s with dictLock := { locked := true } } = s := by
  obtain ⟨locks, dictLock, handles, phase, results⟩ := s
  obtain rfl : dictLock = {} := hguard
  rfl

theorem tried_fields (handle : Option UUID) :
    (tried s i time key loop handle).locks = s.locks ∧
      (tried s i time key loop handle).handles = s.handles ∧
      s.results ⊆ (tried s i time key loop handle).results := by
  unfold tried
  split
  · exact ⟨rfl, rfl, List.subset_append_left ..⟩
  · split
    · exact ⟨rfl, rfl, List.subset_append_left ..⟩
    · split_ifs
      · exact ⟨rfl, rfl, List.subset_append_left ..⟩
      · exact ⟨rfl, rfl, List.Subset.refl _⟩

/-- **`try_acquire` of a key that is held** hands nothing out. -/
theorem enter_tryAcquire_held (h : Invariant s) {holder : UUID}
    (hholder : s.holder key = some holder) :
    Became s (enter s i time token (.tryAcquire key loop)) s.holder s.handles := by
  rcases h.table.holder_cases key with ⟨hnone, -⟩ | ⟨token', lock, -, hlock, hlocked⟩
  · rw [hnone] at hholder
    cases hholder
  · have henter : enter s i time token (.tryAcquire key loop) = tried s i time key loop none := by
      have hsame : update s.locks key (some (lock, some token')) = s.locks :=
        update_eq_self_iff.mpr hlock.symm
      rw [enter_eq h.guard]
      change InMemoryLock.tryAcquire _ i time key loop token = _
      unfold InMemoryLock.tryAcquire
      simp only [hlock, Option.getD_some, hlocked, if_true, hsame]
      rw [leaveGuard_eq h.guard]
    rw [henter]
    obtain ⟨hlocks, hhandles, hresults⟩ := @tried_fields _ _ s i time key loop none
    exact ⟨h.tried none, by unfold State.holder; rw [hlocks], hhandles, hresults⟩

/-- **`try_acquire` of a key that nobody holds** hands out a handle that holds it. -/
theorem enter_tryAcquire_free (h : Invariant s) (i : ι) (time : ℚ) (loop : Option Loop)
    (hnew : s.handles token = none) (hholder : s.holder key = none) :
    Became s (enter s i time token (.tryAcquire key loop))
        (update s.holder key (some token))
        (update s.handles token (some { key })) ∧
      (enter s i time token (.tryAcquire key loop)).results =
        s.results ++ [(i, LockResult.handle (some token))] := by
  rcases h.table.holder_cases key with ⟨-, hlock⟩ | ⟨token', lock, hheld, -⟩
  · let s₁ : State ι := { s with
      locks := update s.locks key (some ({ locked := true }, some token))
      handles := update s.handles token (some { key }) }
    have henter : enter s i time token (.tryAcquire key loop) =
        s₁.finish i (.handle (some token)) := by
      have hguard : s₁.dictLock = {} := h.guard
      rw [enter_eq h.guard]
      change InMemoryLock.tryAcquire _ i time key loop token = _
      unfold InMemoryLock.tryAcquire granted
      simp only [hlock, update_idem]
      rw [← leaveGuard_eq hguard]
      rfl
    have hinvariant : Invariant s₁ :=
      ⟨h.table.grant (h.table.not_held hholder) hnew, h.guard, h.phases⟩
    rw [henter]
    refine ⟨⟨hinvariant.finish _, ?_, rfl, List.subset_append_left ..⟩, rfl⟩
    exact comp_update (fun lock : Option (AsyncioLock ι × Option UUID) => lock.bind (·.2)) ..
  · rw [hheld] at hholder
    cases hholder

/-- **`release` of a handle** that was not released frees its key. -/
theorem enter_release (h : Invariant s) (i : ι) (time : ℚ) (token : UUID) {handle : UUID}
    (hhandle : s.handles handle = some { key }) :
    Became s (enter { s with
        handles := update s.handles handle (some { key, released := true }) } i time token
        (.release key handle))
      (update s.holder key none)
      (update s.handles handle (some { key, released := true })) := by
  obtain ⟨lock, hlock⟩ := h.table.holds key handle hhandle
  have hfree := h.table.free key lock _ hlock
  let s₁ : State ι := { s with
    locks := update s.locks key (some ({}, none))
    handles := update s.handles handle (some { key, released := true }) }
  have henter : enter { s with
      handles := update s.handles handle (some { key, released := true }) } i time token
      (.release key handle) = s₁.finish i .released := by
    have hguard₀ : State.dictLock { s with
      handles := update s.handles handle (some { key, released := true }) } = {} := h.guard
    have hguard : s₁.dictLock = {} := h.guard
    refine (enter_eq hguard₀ _).trans ?_
    change InMemoryLock.release _ i key handle = _
    unfold InMemoryLock.release
    simp only [hlock, ne_eq, not_true_eq_false, if_false]
    rw [hfree, ← leaveGuard_eq hguard]
    rfl
  have hinvariant : Invariant s₁ := ⟨h.table.release hhandle, h.guard, h.phases⟩
  rw [henter]
  refine ⟨hinvariant.finish _, ?_, rfl, List.subset_append_left ..⟩
  exact comp_update (fun lock : Option (AsyncioLock ι × Option UUID) => lock.bind (·.2)) ..

/-- What a step does to the holders: nothing, or a key that was free gets a new handle, or the
handle that is released gives its key back. -/
inductive Effect (s s' : State ι) (i : ι) (token : UUID) (input : Input) : Prop
  | same (hholder : s'.holder = s.holder) (hhandles : s'.handles = s.handles)
  | granted (key : String) (hfree : s.holder key = none)
      (hholder : s'.holder = update s.holder key (some token))
      (hhandles : s'.handles = update s.handles token (some { key }))
      (hresult : (i, .handle (some token)) ∈ s'.results)
  | released (handle : UUID) (key : String) (hinput : input = .call (.release handle))
      (hheld : s.holder key = some handle) (hholder : s'.holder = update s.holder key none)
      (hhandles : s'.handles = update s.handles handle (some { key, released := true }))

omit [DecidableEq ι] in
theorem Table.holder_of_handle (h : Table s.locks handles)
    (htoken : handles token = some { key }) : s.holder key = some token := by
  obtain ⟨lock, hlock⟩ := h.holds key token htoken
  unfold State.holder
  rw [hlock]
  rfl

omit [DecidableEq ι] in
theorem Table.handle_of_holder (h : Table s.locks handles)
    (hholder : s.holder key = some token) : handles token = some { key } := by
  obtain ⟨⟨lock, current⟩, hlock, hcurrent⟩ := Option.bind_eq_some_iff.mp hholder
  obtain rfl : current = some token := hcurrent
  exact h.held key lock token hlock

theorem enter_tryAcquire (h : Invariant s) (hnew : s.handles token = none)
    (input : Input) : Invariant (enter s i time token (.tryAcquire key loop)) ∧
      s.results ⊆ (enter s i time token (.tryAcquire key loop)).results ∧
      Effect s (enter s i time token (.tryAcquire key loop)) i token input := by
  cases hholder : s.holder key with
  | none =>
    obtain ⟨hbecame, hresults⟩ :=
      enter_tryAcquire_free h i time loop hnew hholder
    have hresult : (i, .handle (some token)) ∈
        (enter s i time token (.tryAcquire key loop)).results :=
      hresults ▸ List.mem_append_right _ List.mem_cons_self
    exact ⟨hbecame.invariant, hbecame.results,
      .granted key hholder hbecame.holder hbecame.handles hresult⟩
  | some holder =>
    have hbecame : Became s (enter s i time token (.tryAcquire key loop)) s.holder s.handles :=
      enter_tryAcquire_held h hholder
    exact ⟨hbecame.invariant, hbecame.results, .same hbecame.holder hbecame.handles⟩

theorem Invariant.call {c : Call} (h : Invariant s) (hnew : s.handles token = none)
    (hcall : call s i time token c = some s') :
    Invariant s' ∧ s.results ⊆ s'.results ∧ Effect s s' i token (.call c) := by
  cases c with
  | tryAcquire key ttl =>
    simp only [InMemoryLock.call] at hcall
    split at hcall
    · cases hcall
      exact ⟨h.finish _, List.subset_append_left .., .same rfl rfl⟩
    · cases hcall
      exact enter_tryAcquire h hnew _
  | acquire key ttl timeout =>
    simp only [InMemoryLock.call] at hcall
    split at hcall
    · cases hcall
      exact ⟨h.finish _, List.subset_append_left .., .same rfl rfl⟩
    · cases hcall
      exact enter_tryAcquire h hnew _
  | release handle =>
    simp only [InMemoryLock.call] at hcall
    split at hcall
    · cases hcall
    · next hd hhandle =>
      obtain ⟨key, _ | _⟩ := hd
      · cases hcall
        have hbecame := enter_release h i time token hhandle
        exact ⟨hbecame.invariant, hbecame.results,
          .released handle key rfl (h.table.holder_of_handle hhandle)
          hbecame.holder hbecame.handles⟩
      · cases hcall
        exact ⟨h.finish _, List.subset_append_left .., .same rfl rfl⟩

/-- **One step** keeps the invariant. -/
theorem Invariant.step {a : Move ι} (h : Invariant s) (hstep : Step s a s') :
    Invariant s' ∧ s.results ⊆ s'.results ∧ Effect s s' a.task a.token a.input := by
  obtain ⟨i, time, token, input⟩ := a
  change advance s i time token input = some s' at hstep
  unfold advance at hstep
  by_cases hused : (s.handles token).isSome
  · rw [if_pos hused] at hstep
    cases hstep
  rw [if_neg hused] at hstep
  have hnew : s.handles token = none := Option.not_isSome_iff_eq_none.mp hused
  rcases h.phases i with hidle | ⟨key, loop, hsleeping⟩
  · rw [hidle] at hstep
    cases input with
    | call c => exact h.call hnew hstep
    | resume => cases hstep
    | cancel => cases hstep
  · rw [hsleeping] at hstep
    cases input with
    | call c => cases hstep
    | resume =>
      cases hstep
      exact enter_tryAcquire h hnew _
    | cancel =>
      cases hstep
      exact ⟨h.finish _, List.subset_append_left .., .same rfl rfl⟩

/-- What holds in all states of a run: the handles were handed out to tasks, too. -/
structure Reached (s : State ι) : Prop where
  invariant : Invariant s
  handed : ∀ token, (s.handles token).isSome → ∃ i, (i, .handle (some token)) ∈ s.results

theorem Reached.step {a : Move ι} (h : Reached s) (hstep : Step s a s') : Reached s' := by
  obtain ⟨hinvariant, hresults, heffect⟩ := h.invariant.step hstep
  have hkept : ∀ token, (s.handles token).isSome → ∃ i, (i, .handle (some token)) ∈ s'.results := by
    intro token htoken
    obtain ⟨i, hi⟩ := h.handed token htoken
    exact ⟨i, hresults hi⟩
  refine ⟨hinvariant, fun token htoken => ?_⟩
  cases heffect with
  | same hholder hhandles =>
    rw [hhandles] at htoken
    exact hkept token htoken
  | granted key hfree hholder hhandles hresult =>
    by_cases heq : token = a.token
    · exact ⟨a.task, heq ▸ hresult⟩
    · rw [hhandles, update_of_ne heq] at htoken
      exact hkept token htoken
  | released handle key hinput hheld hholder hhandles =>
    by_cases heq : token = handle
    · have hhandle : s.handles handle = some { key } := h.invariant.table.handle_of_holder hheld
      refine hkept token ?_
      rw [heq, hhandle]
      rfl
    · rw [hhandles, update_of_ne heq] at htoken
      exact hkept token htoken

theorem reached {l : List (Move ι)} (hrun : Run Step {} l s) : Reached s := by
  refine hrun.invariant (fun t a t' _ hstep ht => ht.step hstep) ⟨⟨⟨?_, ?_, ?_⟩, rfl, ?_⟩, ?_⟩
  · intro key lock current hlock
    cases hlock
  · intro key lock token hlock
    cases hlock
  · intro key token htoken
    cases htoken
  · exact fun i => Or.inl rfl
  · intro token htoken
    cases htoken

def State.held (s : State ι) (key : String) : Prop := ∃ x ∈ s.locks key, x.1.locked = true

/-- The handle was handed out, and `release()` was not called on it. -/
def State.handedOut (s : State ι) (key : String) (token : UUID) : Prop :=
  s.handles token = some { key } ∧ ∃ i, (i, .handle (some token)) ∈ s.results

/-- **The lock of a key excludes, and is never orphaned.** -/
structure Law (s : State ι) : Prop where
  /-- At most one handle of a key is not released. -/
  exclusion : ∀ key token₁ token₂, s.handles token₁ = some { key } →
    s.handles token₂ = some { key } → token₁ = token₂
  /-- A step takes the lock of a key from its holder only by the release of that handle. -/
  kept : ∀ a s' key token, Step s a s' → s.holder key = some token →
    s'.holder key ≠ some token → a.input = .call (.release token)
  /-- Who holds the lock of a key is a handle that was handed out. -/
  held : ∀ key, s.held key → ∃ token, s.holder key = some token ∧ s.handedOut key token
  /-- When `release()` was called on all handles of a key, an attempt to acquire it succeeds. -/
  free : ∀ i key ttl time token, s.phase i = .idle → key ≠ "" → 0 < ttl.val →
    s.handles token = none → (∀ token, s.handles token ≠ some { key }) →
      ∃ s', Step s ⟨i, time, token, .call (.tryAcquire key ttl)⟩ s' ∧
        s'.results = s.results ++ [(i, .handle (some token))]

theorem Reached.law (h : Reached s) : Law s where
  exclusion key token₁ token₂ h₁ h₂ := by
    have hholder₁ := h.invariant.table.holder_of_handle h₁
    have hholder₂ := h.invariant.table.holder_of_handle h₂
    rw [hholder₁] at hholder₂
    exact Option.some.inj hholder₂
  kept a s' key token hstep hheld hnot := by
    obtain ⟨-, -, heffect⟩ := h.invariant.step hstep
    cases heffect with
    | same hholder hhandles =>
      rw [hholder] at hnot
      exact absurd hheld hnot
    | granted key' hfree hholder hhandles hresult =>
      by_cases hkey : key = key'
      · rw [hkey, hfree] at hheld
        cases hheld
      · rw [hholder, update_of_ne hkey] at hnot
        exact absurd hheld hnot
    | released handle key' hinput hheld' hholder hhandles =>
      by_cases hkey : key = key'
      · rw [hkey, hheld'] at hheld
        rw [hinput, Option.some.inj hheld]
      · rw [hholder, update_of_ne hkey] at hnot
        exact absurd hheld hnot
  held key hheld := by
    obtain ⟨⟨lock, current⟩, hlock, hlocked⟩ := hheld
    rcases h.invariant.table.holder_cases key with ⟨hnone, hfree⟩ | ⟨token, -, hholder, -⟩
    · rw [Option.mem_def.mp hlock] at hfree
      cases hfree
      cases hlocked
    · have hhandle := h.invariant.table.handle_of_holder hholder
      refine ⟨token, hholder, hhandle, h.handed token ?_⟩
      rw [hhandle]
      rfl
  free i key ttl time token hidle hkey httl hnew hreleased := by
    have hholder : s.holder key = none := by
      cases hholder : s.holder key with
      | none => rfl
      | some holder =>
        exact absurd (h.invariant.table.handle_of_holder hholder) (hreleased holder)
    obtain ⟨-, hresults⟩ := enter_tryAcquire_free h.invariant i time none hnew hholder
    refine ⟨_, ?_, hresults⟩
    have hcheck : checkLock key ttl = .ok () := by
      unfold checkLock
      rw [if_neg hkey, if_neg (not_le.mpr httl)]
    change advance s i time token _ = _
    unfold advance
    rw [hnew, hidle]
    simp only [Option.isSome_none, Bool.false_eq_true, if_false, InMemoryLock.call, hcheck]

end InMemoryLock

end Varco
