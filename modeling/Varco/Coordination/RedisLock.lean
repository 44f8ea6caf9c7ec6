import Mathlib.Data.Rat.Floor
import Varco.Coordination.Lock
import Varco.Foundations.Expiring
import Varco.Foundations.Rendering

/-!
# Locks in Redis

`RedisLock` of `varco_redis.lock`, for any number of calls in any number of processes that share a
server. A call of `try_acquire` is known by the token that it draws; `acquire` makes such calls
until one of them gets a handle. Between a call and its command, and between the command and its
answer, any time may go by, and the call may fail or be cancelled.

The time to live is sent in whole milliseconds, `int(ttl * 1000)`, which may be less than `ttl`. So
the key of a handle is kept for it as long as it is younger than that (`Invariant.young`), and not
as long as it is younger than its `ttl`.
-/

namespace Varco

namespace RedisLock

/-- A handle, and when the server has set its key. -/
structure Handle where
  key : String
  ttl : PyFloat
  acquired : ℚ
  deriving DecidableEq

/-- Where a token is: in a call of `try_acquire`, or in a handle. -/
inductive Phase
  /-- It was not drawn. -/
  | new
  /-- The `SET` is on its way. -/
  | setting (key : String) (ttl : PyFloat)
  /-- The server has answered. -/
  | answered (handle : Option Handle)
  /-- A handle was handed out. -/
  | handed (handle : Handle)
  /-- `release()` was called on the handle, and the script is on its way. -/
  | releasing (handle : Handle)
  /-- `release()` has ended. -/
  | released
  /-- The call has ended without a handle. -/
  | ended
  deriving DecidableEq

/-- The server with its clock, the tokens, and what the calls have ended with. -/
structure State where
  time : ℚ := 0
  server : Expiring String String ℚ := .empty
  phase : UUID → Phase := fun _ => .new
  results : List (UUID × LockResult) := []

def State.become (s : State) (token : UUID) (phase : Phase) : State :=
  { s with phase := Function.update s.phase token phase }

def State.finish (s : State) (token : UUID) (phase : Phase) (result : LockResult) : State :=
  { s.become token phase with results := s.results ++ [(token, result)] }

/-- `int(ttl * 1000)`, where `rounded` is what floating point makes of a product. -/
def ttlMs (rounded : ℚ → ℚ) (ttl : PyFloat) : ℤ := ⌊rounded (ttl.val * 1000)⌋

def redisKey (keyPrefix key : String) : String := keyPrefix ++ key

/-- What happens next. -/
inductive Move
  | tick (d : ℚ)
  | tryAcquire (token : UUID) (key : String) (ttl : PyFloat)
  /-- The server executes the `SET`. -/
  | set (token : UUID)
  | answer (token : UUID)
  /-- The command is not executed, or its answer does not arrive, or the call is cancelled. -/
  | lose (token : UUID) (exc : Exc)
  | release (token : UUID)
  /-- The server executes the script. -/
  | eval (token : UUID)

variable (rounded : ℚ → ℚ) (keyPrefix : String)

/-- `SET … NX PX`, which the server refuses unless the time to live is positive. -/
def executeSet (s : State) (token : UUID) (key : String) (ttl : PyFloat) : State :=
  if ttlMs rounded ttl ≤ 0 then s.become token .ended
  else
    let (done, server) := s.server.setNx s.time (redisKey keyPrefix key) token.str
      (s.time + ttlMs rounded ttl / 1000)
    { s.become token (.answered (if done then some ⟨key, ttl, s.time⟩ else none)) with server }

/-- `_RELEASE_SCRIPT` -/
def executeRelease (s : State) (token : UUID) (handle : Handle) : State :=
  let key := redisKey keyPrefix handle.key
  let server := if s.server.get s.time key = some token.str then s.server.del key else s.server
  { s.finish token .released .released with server }

def advance (s : State) : Move → Option State
  | .tick d => if 0 ≤ d then some { s with time := s.time + d } else none
  | .tryAcquire token key ttl =>
    match s.phase token, checkLock key ttl with
    | .new, .ok () => some (s.become token (.setting key ttl))
    | .new, .error e => some (s.finish token .ended (.raised (.error e)))
    | _, _ => none
  | .set token =>
    match s.phase token with
    | .setting key ttl => some (executeSet rounded keyPrefix s token key ttl)
    | _ => none
  | .answer token =>
    match s.phase token with
    | .answered none => some (s.finish token .ended (.handle none))
    | .answered (some handle) => some (s.finish token (.handed handle) (.handle (some token)))
    | _ => none
  | .lose token exc =>
    match s.phase token, exc with
    | .setting _ _, _ | .answered _, _ => some (s.finish token .ended (.raised exc))
    | .releasing _, .cancelled => some (s.finish token .released (.raised .cancelled))
    -- logged, and not raised
    | .releasing _, .error _ => some (s.finish token .released .released)
    | _, _ => none
  | .release token =>
    match s.phase token with
    | .handed handle => some (s.become token (.releasing handle))
    | .releasing handle => some (s.finish token (.releasing handle) .released)
    | .released => some (s.finish token .released .released)
    | _ => none
  | .eval token =>
    match s.phase token with
    | .releasing handle => some (executeRelease keyPrefix s token handle)
    | _ => none

def Step (s : State) (a : Move) (s' : State) : Prop := advance rounded keyPrefix s a = some s'

/-- The handle whose key the server has set, and on which `release()` was not called. -/
def Phase.unreleased : Phase → Option Handle
  | .answered handle => handle
  | .handed handle => some handle
  | _ => none

def Handle.expiry (handle : Handle) : ℚ := handle.acquired + ttlMs rounded handle.ttl / 1000

/-- A handle that is young is the one that the server has for its key. -/
structure Invariant (s : State) : Prop where
  young : ∀ token handle, (s.phase token).unreleased = some handle →
    s.time < handle.expiry rounded →
    s.server.live s.time (redisKey keyPrefix handle.key) =
      some (token.str, some (handle.expiry rounded))

variable {rounded keyPrefix} {s s' : State} {token token' : UUID} {handle : Handle} {phase : Phase}

theorem become_self : (s.become token phase).phase token = phase :=
  Function.update_self ..

theorem become_of_ne (hne : token' ≠ token) :
    (s.become token phase).phase token' = s.phase token' :=
  Function.update_of_ne hne ..

theorem unreleased_become (hphase : phase.unreleased = none)
    (h : ((s.become token phase).phase token').unreleased = some handle) :
    token' ≠ token ∧ (s.phase token').unreleased = some handle := by
  have hne : token' ≠ token := by
    rintro rfl
    rw [become_self, hphase] at h
    cases h
  rw [become_of_ne hne] at h
  exact ⟨hne, h⟩

section

variable (h : Invariant rounded keyPrefix s)

include h

/-- A token gets into a phase without a handle, or keeps the handle that it has. -/
theorem Invariant.become
    (hphase : phase.unreleased = none ∨ phase.unreleased = (s.phase token).unreleased) :
    Invariant rounded keyPrefix (s.become token phase) where
  young token' handle hunreleased hyoung := by
    refine h.young token' handle ?_ hyoung
    rcases hphase with hnone | hsame
    · exact (unreleased_become hnone hunreleased).2
    · by_cases htoken : token' = token
      · rw [htoken, become_self, hsame] at hunreleased
        rw [htoken, hunreleased]
      · rwa [become_of_ne htoken] at hunreleased

theorem Invariant.finish (result : LockResult)
    (hphase : phase.unreleased = none ∨ phase.unreleased = (s.phase token).unreleased) :
    Invariant rounded keyPrefix (s.finish token phase result) :=
  have hbecome : Invariant rounded keyPrefix (s.become token phase) := h.become hphase
  ⟨hbecome.young⟩

theorem Invariant.executeSet {key : String} {ttl : PyFloat} :
    Invariant rounded keyPrefix (executeSet rounded keyPrefix s token key ttl) := by
  unfold RedisLock.executeSet
  split_ifs with hms
  · exact h.become (Or.inl rfl)
  · unfold Expiring.setNx
    cases hlive : s.server.live s.time (redisKey keyPrefix key) with
    | some entry =>
      have hbecome : Invariant rounded keyPrefix (s.become token (.answered none)) :=
        h.become (Or.inl rfl)
      exact ⟨hbecome.young⟩
    | none =>
      refine ⟨fun token' handle hunreleased hyoung => ?_⟩
      change ((s.become token _).phase token').unreleased = _ at hunreleased
      by_cases htoken : token' = token
      · -- the server has just set the key of this handle
        rw [htoken, become_self] at hunreleased
        cases hunreleased
        rw [htoken]
        exact Expiring.live_put_self (decide_eq_true hyoung.le)
      · rw [become_of_ne htoken] at hunreleased
        have hheld := h.young token' handle hunreleased hyoung
        have hkey : redisKey keyPrefix handle.key ≠ redisKey keyPrefix key := by
          intro hkey
          rw [hkey, hlive] at hheld
          cases hheld
        exact (Expiring.live_put_ne hkey).trans hheld

theorem Invariant.executeRelease :
    Invariant rounded keyPrefix (executeRelease keyPrefix s token handle) where
  young token' handle' hunreleased hyoung := by
    change ((s.become token .released).phase token').unreleased = _ at hunreleased
    obtain ⟨hne, hunreleased'⟩ := unreleased_become rfl hunreleased
    have hheld := h.young token' handle' hunreleased' hyoung
    unfold RedisLock.executeRelease
    change Expiring.live (if _ then _ else _) s.time _ = _
    split_ifs with hget
    · have hkey : redisKey keyPrefix handle'.key ≠ redisKey keyPrefix handle.key := by
        intro hkey
        unfold Expiring.get at hget
        rw [← hkey, hheld] at hget
        exact hne (UUID.str_inj (Option.some.inj hget))
      exact (Expiring.live_del_ne hkey).trans hheld
    · exact hheld

theorem Invariant.tick {d : ℚ} (hd : 0 ≤ d) :
    Invariant rounded keyPrefix { s with time := s.time + d } where
  young token handle hunreleased hyoung := by
    have hle : s.time ≤ s.time + d := le_add_of_nonneg_right hd
    have hheld := h.young token handle hunreleased (lt_of_le_of_lt hle hyoung)
    change s.server.live (s.time + d) _ = _
    rw [Expiring.live_of_le hle, hheld]
    exact Option.filter_some_pos (decide_eq_true hyoung.le)

/-- **One step** keeps the invariant. -/
theorem Invariant.step {a : Move} (hstep : Step rounded keyPrefix s a s') :
    Invariant rounded keyPrefix s' := by
  unfold Step at hstep
  cases a with
  | tick d =>
    simp only [advance] at hstep
    split_ifs at hstep with hd
    cases hstep
    exact h.tick hd
  | tryAcquire token key ttl =>
    simp only [advance] at hstep
    split at hstep
    · cases hstep
      exact h.become (Or.inl rfl)
    · cases hstep
      exact h.finish _ (Or.inl rfl)
    · cases hstep
  | set token =>
    simp only [advance] at hstep
    split at hstep
    · cases hstep
      exact h.executeSet
    · cases hstep
  | answer token =>
    simp only [advance] at hstep
    split at hstep
    · cases hstep
      exact h.finish _ (Or.inl rfl)
    · next handle hphase =>
      cases hstep
      exact h.finish _ (Or.inr (hphase ▸ rfl))
    · cases hstep
  | lose token exc =>
    simp only [advance] at hstep
    split at hstep <;> cases hstep
    all_goals exact h.finish _ (Or.inl rfl)
  | release token =>
    simp only [advance] at hstep
    split at hstep
    · cases hstep
      exact h.become (Or.inl rfl)
    · cases hstep
      exact h.finish _ (Or.inl rfl)
    · cases hstep
      exact h.finish _ (Or.inl rfl)
    · cases hstep
  | eval token =>
    simp only [advance] at hstep
    split at hstep
    · cases hstep
      exact h.executeRelease
    · cases hstep

end

/-- **Among handles that are younger than the time to live of their key**, the lock of a key
excludes. -/
structure Law (rounded : ℚ → ℚ) (keyPrefix : String) (s : State) : Prop where
  /-- At most one handle of a key is young and not released. -/
  exclusion : ∀ token₁ token₂ handle₁ handle₂, handle₁.key = handle₂.key →
    (s.phase token₁).unreleased = some handle₁ → s.time < handle₁.expiry rounded →
    (s.phase token₂).unreleased = some handle₂ → s.time < handle₂.expiry rounded →
      token₁ = token₂
  /-- A step takes a key from its holder only by the release of that handle. -/
  kept : ∀ a s' key token, Step rounded keyPrefix s a s' →
    s.server.get s.time key = some token.str → s'.server.get s.time key ≠ some token.str →
      a = .eval token

theorem Invariant.exclusion (h : Invariant rounded keyPrefix s) {handle₁ handle₂ : Handle}
    {token₁ token₂ : UUID} (hkey : handle₁.key = handle₂.key)
    (h₁ : (s.phase token₁).unreleased = some handle₁) (hyoung₁ : s.time < handle₁.expiry rounded)
    (h₂ : (s.phase token₂).unreleased = some handle₂) (hyoung₂ : s.time < handle₂.expiry rounded) :
    token₁ = token₂ := by
  have hheld₁ := h.young token₁ handle₁ h₁ hyoung₁
  have hheld₂ := h.young token₂ handle₂ h₂ hyoung₂
  rw [hkey, hheld₂] at hheld₁
  simp only [Option.some.injEq, Prod.mk.injEq] at hheld₁
  exact UUID.str_inj hheld₁.1.symm

/-- A `SET` leaves the keys that are there. -/
theorem executeSet_get {key key' value : String} {ttl : PyFloat}
    (hheld : s.server.get s.time key' = some value) :
    (executeSet rounded keyPrefix s token key ttl).server.get s.time key' = some value := by
  unfold executeSet
  split_ifs with hms
  · exact hheld
  · unfold Expiring.setNx
    cases hlive : s.server.live s.time (redisKey keyPrefix key) with
    | some entry => exact hheld
    | none =>
      have hkey : key' ≠ redisKey keyPrefix key := by
        intro hkey
        unfold Expiring.get at hheld
        rw [hkey, hlive] at hheld
        cases hheld
      exact (congrArg _ (Expiring.live_put_ne hkey)).trans hheld

theorem executeRelease_get {key : String} (hheld : s.server.get s.time key = some token'.str)
    (hne : token' ≠ token) :
    (executeRelease keyPrefix s token handle).server.get s.time key = some token'.str := by
  unfold executeRelease
  change Expiring.get (if _ then _ else _) s.time _ = _
  split_ifs with hget
  · have hkey : key ≠ redisKey keyPrefix handle.key := by
      rintro rfl
      rw [hget] at hheld
      exact hne (UUID.str_inj (Option.some.inj hheld)).symm
    exact (congrArg _ (Expiring.live_del_ne hkey)).trans hheld
  · exact hheld

/-- Whatever is not executed by the server leaves its keys. -/
theorem server_step {a : Move} (hstep : Step rounded keyPrefix s a s')
    (hset : ∀ token, a ≠ .set token) (heval : ∀ token, a ≠ .eval token) :
    s'.server = s.server := by
  unfold Step at hstep
  cases a with
  | set token => exact absurd rfl (hset token)
  | eval token => exact absurd rfl (heval token)
  | tick d =>
    simp only [advance] at hstep
    split_ifs at hstep
    cases hstep
    rfl
  | tryAcquire token key ttl =>
    simp only [advance] at hstep
    split at hstep <;> cases hstep <;> rfl
  | answer token =>
    simp only [advance] at hstep
    split at hstep <;> cases hstep <;> rfl
  | lose token exc =>
    simp only [advance] at hstep
    split at hstep <;> cases hstep <;> rfl
  | release token =>
    simp only [advance] at hstep
    split at hstep <;> cases hstep <;> rfl

theorem kept {a : Move} {key : String} (hstep : Step rounded keyPrefix s a s')
    (hheld : s.server.get s.time key = some token.str)
    (hnot : s'.server.get s.time key ≠ some token.str) : a = .eval token := by
  by_cases hset : ∃ token', a = .set token'
  · obtain ⟨token', rfl⟩ := hset
    unfold Step at hstep
    simp only [advance] at hstep
    split at hstep <;> cases hstep
    exact absurd (executeSet_get hheld) hnot
  by_cases heval : ∃ token', a = .eval token'
  · obtain ⟨token', rfl⟩ := heval
    unfold Step at hstep
    simp only [advance] at hstep
    split at hstep <;> cases hstep
    by_cases hne : token = token'
    · rw [hne]
    · exact absurd (executeRelease_get hheld hne) hnot
  · have hserver := server_step hstep (fun t ht => hset ⟨t, ht⟩) fun t ht => heval ⟨t, ht⟩
    rw [hserver] at hnot
    exact absurd hheld hnot

theorem law {l : List Move} (hrun : Run (Step rounded keyPrefix) {} l s) :
    Law rounded keyPrefix s := by
  have hinvariant : Invariant rounded keyPrefix s :=
    hrun.invariant (fun t a t' _ hstep ht => ht.step hstep) ⟨fun token handle hunreleased => by
      cases hunreleased⟩
  exact ⟨fun _ _ _ _ hkey h₁ hyoung₁ h₂ hyoung₂ =>
    hinvariant.exclusion hkey h₁ hyoung₁ h₂ hyoung₂, fun _ _ _ _ => kept⟩

end RedisLock

/-- **Distributed locks exclude, and are never orphaned**: whatever tasks of an event loop do with
an `InMemoryLock`, and whatever calls of `RedisLock` do, where the age of a handle counts up to the
whole milliseconds that its key lives. -/
theorem locks_exclude {ι : Type} [DecidableEq ι] {l : List (InMemoryLock.Move ι)}
    {s : InMemoryLock.State ι} (hrun : Run InMemoryLock.Step {} l s) {rounded : ℚ → ℚ}
    {keyPrefix : String} {l' : List RedisLock.Move} {s' : RedisLock.State}
    (hrun' : Run (RedisLock.Step rounded keyPrefix) {} l' s') :
    InMemoryLock.Law s ∧ RedisLock.Law rounded keyPrefix s' :=
  ⟨(InMemoryLock.reached hrun).law, RedisLock.law hrun'⟩

/-- A task waits for the lock that another one has, and gets it when the handle is released; and a
handle in Redis is handed out. -/
theorem locks_exclude_invoice : ∃ (s : InMemoryLock.State Bool) (s' : RedisLock.State),
    s.results = [(false, .handle (some 1)), (false, .released), (true, .handle (some 4))] ∧
      s'.results = [(1, .handle (some 1))] ∧
      InMemoryLock.Law s ∧ RedisLock.Law id "lock:" s' := by
  let moves : List (InMemoryLock.Move Bool) :=
    [⟨false, 0, 1, .call (.tryAcquire "invoice" ⟨30, "30"⟩)⟩,
      ⟨true, 1, 2, .call (.acquire "invoice" ⟨30, "30"⟩ ⟨5, "5"⟩)⟩,
      ⟨false, 2, 3, .call (.release 1)⟩, ⟨true, 3, 4, .resume⟩]
  let moves' : List RedisLock.Move := [.tryAcquire 1 "invoice" ⟨30, "30"⟩, .set 1, .answer 1]
  have hresults : (moves.foldlM (fun s a => InMemoryLock.advance s a.task a.time a.token a.input)
      {}).map (·.results) =
        some [(false, .handle (some 1)), (false, .released), (true, .handle (some 4))] := by
    decide +kernel
  have hresults' : (moves'.foldlM (RedisLock.advance id "lock:") {}).map (·.results) =
      some [(1, .handle (some 1))] := by
    decide +kernel
  obtain ⟨s, hrun, hs⟩ := Option.map_eq_some_iff.mp hresults
  obtain ⟨s', hrun', hs'⟩ := Option.map_eq_some_iff.mp hresults'
  exact ⟨s, s', hs, hs', locks_exclude (Run.of_foldlM hrun) (Run.of_foldlM hrun')⟩

/-- **A handle in Redis that is younger than its `ttl` does not exclude**: for `ttl=1.00048828125`
the key is set for a second, and then a second handle of the key is handed out. -/
theorem second_handle : ¬∀ (rounded : ℚ → ℚ) (keyPrefix : String) (l : List RedisLock.Move)
    (s : RedisLock.State), Run (RedisLock.Step rounded keyPrefix) {} l s →
      ∀ token₁ token₂ handle₁ handle₂, handle₁.key = handle₂.key →
        s.phase token₁ = .handed handle₁ → s.time - handle₁.acquired < handle₁.ttl.val →
        s.phase token₂ = .handed handle₂ → s.time - handle₂.acquired < handle₂.ttl.val →
          token₁ = token₂ := by
  intro h
  let ttl : PyFloat := ⟨2049 / 2048, "1.00048828125"⟩
  let handle₁ : RedisLock.Handle := ⟨"invoice", ttl, 9 / 10000⟩
  let handle₂ : RedisLock.Handle := ⟨"invoice", ttl, 1001 / 1000⟩
  let moves : List RedisLock.Move :=
    [.tick (9 / 10000), .tryAcquire 1 "invoice" ttl, .set 1, .answer 1,
      .tick (10001 / 10000), .tryAcquire 2 "invoice" ttl, .set 2, .answer 2]
  have hstate : (moves.foldlM (RedisLock.advance id "lock:") {}).map
      (fun s => (s.phase 1, s.phase 2, s.time)) =
        some (.handed handle₁, .handed handle₂, 1001 / 1000) := by
    decide +kernel
  obtain ⟨s, hrun, hs⟩ := Option.map_eq_some_iff.mp hstate
  simp only [Prod.mk.injEq] at hs
  obtain ⟨hphase₁, hphase₂, htime⟩ := hs
  have heq := h id "lock:" moves s (Run.of_foldlM hrun) 1 2 handle₁ handle₂ rfl hphase₁
    (by rw [htime]; decide +kernel) hphase₂ (by rw [htime]; decide +kernel)
  exact absurd heq (by decide)

end Varco
