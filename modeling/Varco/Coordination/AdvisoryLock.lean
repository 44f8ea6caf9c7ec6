import Mathlib.Algebra.Group.Nat.Defs
import Varco.Foundations.Python
import Varco.Foundations.Run
import Varco.Foundations.SessionLocks

/-!
# Advisory locks and the connection pool

`SAAdvisoryLock` and `SAXactAdvisoryLock` of `varco_sa.advisory_lock`, with `LockHandle.release` of
`varco_core.lock`, for any number of tasks that use the sessions of one database server. Each
statement may fail, and each task may be cancelled, before or after the server has executed what was
sent to it. `conn.close()` rolls back and puts the session into the pool; the locks of the session
stay, those of the transaction do not.

No two handles for a key are out at the same time. But a key is locked without a handle as soon as
one of the calls around the lock goes wrong after it was taken, or before it is given back
(`Settled`).
-/

namespace Varco

open Function

namespace SAAdvisoryLock

def maxInt64 : ℕ := 0x7FFFFFFFFFFFFFFF

/-- `_key_to_int64`: the first 8 bytes of the MD5 digest, which is a parameter, big-endian and
masked. -/
def keyToInt64 (md5 : String → BitVec 128) (key : String) : ℕ :=
  (md5 key).toNat / 2 ^ 64 &&& maxInt64

/-- Locks of a session (`SAAdvisoryLock`) or of a transaction (`SAXactAdvisoryLock`). -/
inductive Level
  | session
  | xact
  deriving DecidableEq

/-- What becomes of a call: it returns, it raises, or its task is cancelled. -/
inductive Outcome
  | answered
  | failed
  | cancelled
  deriving DecidableEq

section

variable {T S : Type}

/-- Where a task is: before its next call, with the session of its connection. -/
inductive Phase (S : Type)
  | idle
  | connecting (key : ℕ)
  | locking (key : ℕ) (c : S)
  | rollingBack (c : S)
  | closing (c : S)
  | unlocking (token : UUID) (key : ℕ) (c : S)
  | releasing (token : UUID) (key : ℕ) (c : S)

def Phase.session : Phase S → Option S
  | .idle | .connecting _ => none
  | .locking _ c | .rollingBack c | .closing c | .unlocking _ _ c | .releasing _ _ c => some c

/-- The locks of the server, the sessions in the pool, the tasks, the dicts `_held` of all
processes, and which handles have `_released` set. -/
structure State (T S : Type) where
  locks : SessionLocks ℕ S := fun _ => none
  inPool : S → Bool := fun _ => true
  tasks : T → Phase S := fun _ => .idle
  held : UUID → Option (ℕ × S) := fun _ => none
  released : UUID → Bool := fun _ => false

/-- What happens next. `executed` says whether the server has executed what was sent; `token` is the
`uuid4()` of a new handle. -/
inductive Move (T S : Type)
  | tryAcquire (t : T) (key : String)
  | connect (t : T) (c : Option S)
  | lock (t : T) (executed : Bool) (outcome : Outcome) (token : UUID)
  | rollback (t : T) (executed : Bool) (outcome : Outcome)
  | close (t : T) (executed : Bool)
  | release (t : T) (token : UUID)
  | unlock (t : T) (executed : Bool)

variable [DecidableEq T] [DecidableEq S]

def State.goto (s : State T S) (t : T) (phase : Phase S) : State T S :=
  { s with tasks := update s.tasks t phase }

/-- The end of a transaction: `ROLLBACK`, or `COMMIT`. -/
def endTransaction (level : Level) (locks : SessionLocks ℕ S) (c : S) : SessionLocks ℕ S :=
  match level with
  | .session => locks
  | .xact => locks.clear c

/-- `conn.close()`, if it is executed. -/
def State.close (level : Level) (s : State T S) (t : T) (c : S) : State T S :=
  { s.goto t .idle with
    locks := endTransaction level s.locks c
    inPool := update s.inPool c true }

/-- What ends the lock of a handle: `pg_advisory_unlock`, or `txn.commit()`. -/
def unlockStatement (level : Level) (locks : SessionLocks ℕ S) (c : S) (key : ℕ) :
    SessionLocks ℕ S :=
  match level with
  | .session => locks.unlock c key
  | .xact => locks.clear c

/-- The end of `try_acquire`, with the result of the statement: a handle is handed out. -/
def State.finish (level : Level) (s : State T S) (t : T) (key : ℕ) (c : S) (acquired : Bool)
    (token : UUID) : State T S :=
  if acquired then { s.goto t .idle with held := update s.held token (some (key, c)) }
  else
    match level with
    | .session => s.goto t (.closing c)
    | .xact => s.goto t (.rollingBack c)

/-- One step, if it can be taken. A key that is refused, and a connection that fails, end the call.
-/
def State.act (level : Level) (md5 : String → BitVec 128) (s : State T S) :
    Move T S → Option (State T S)
  | .tryAcquire t key =>
    match s.tasks t with
    | .idle => some (if key = "" then s else s.goto t (.connecting (keyToInt64 md5 key)))
    | _ => none
  | .connect t c =>
    match s.tasks t, c with
    | .connecting _, none => some (s.goto t .idle)
    | .connecting key, some c =>
      if s.inPool c then
        some { s.goto t (.locking key c) with inPool := update s.inPool c false }
      else none
    | _, _ => none
  | .lock t executed outcome token =>
    match s.tasks t with
    | .locking key c =>
      let (acquired, locks) := if executed then s.locks.tryLock c key else (false, s.locks)
      let s := { s with locks := locks }
      match outcome with
      | .answered =>
        if executed ∧ s.held token = none ∧ s.released token = false then
          some (s.finish level t key c acquired token)
        else none
      | .failed => some (s.goto t (.closing c))
      | .cancelled => some (s.goto t .idle)
    | _ => none
  | .rollback t executed outcome =>
    match s.tasks t with
    | .rollingBack c =>
      let s := { s with locks := if executed then endTransaction level s.locks c else s.locks }
      match outcome with
      | .answered => if executed then some (s.goto t (.closing c)) else none
      | .failed | .cancelled => some (s.goto t .idle)
    | _ => none
  | .close t executed =>
    match s.tasks t with
    | .closing c | .releasing _ _ c =>
      some (if executed then s.close level t c else s.goto t .idle)
    | _ => none
  | .release t token =>
    match s.tasks t with
    | .idle =>
      if s.released token then some s
      else
        let s := { s with released := update s.released token true }
        match s.held token with
        | none => some s
        | some (key, c) =>
          some { s.goto t (.unlocking token key c) with held := update s.held token none }
    | _ => none
  | .unlock t executed =>
    match s.tasks t with
    | .unlocking token key c =>
      some { s.goto t (.releasing token key c) with
        locks := if executed then unlockStatement level s.locks c key else s.locks }
    | _ => none

def OneHandle (s : State T S) : Prop :=
  ∀ token token' key c c', s.held token = some (key, c) → s.held token' = some (key, c') →
    token = token'

/-- A handle for a key is handed out, and its `release()` has not come to an end. -/
def Live (s : State T S) (key : ℕ) : Prop :=
  (∃ token c, s.held token = some (key, c)) ∨
    ∃ t token c, s.tasks t = .unlocking token key c ∨ s.tasks t = .releasing token key c

/-- **No lock is left behind**: a session that holds a lock is not in the pool, and there is a
handle for its key. -/
def NothingLeft (s : State T S) : Prop :=
  ∀ key c, s.locks.Holds c key → s.inPool c = false ∧ Live s key

/-- What goes well: a statement that takes the lock is answered; the unlock of a session is
executed; and a connection whose session holds a lock is closed. -/
def Settled (level : Level) (_ : List (Move T S)) (s : State T S) : Move T S → Prop
  | .lock t executed outcome _ => ∀ key c, s.tasks t = .locking key c → executed = true →
    (s.locks.tryLock c key).1 = true → outcome = .answered
  | .unlock _ executed => level = .session → executed = true
  | .close t executed => level = .xact → ∀ c key, (s.tasks t).session = some c →
    s.locks.Holds c key → executed = true
  | _ => True

/-! ## Who has which session -/

def owned (s : State T S) : UUID ⊕ T → Option S
  | .inl token => (s.held token).map (·.2)
  | .inr t => (s.tasks t).session

variable {level : Level} {md5 : String → BitVec 128} {s s' : State T S} {a : Move T S} {t : T}
  {token : UUID} {key key' n : ℕ} {c c' : S} {phase : Phase S}

omit [DecidableEq T] [DecidableEq S] in
theorem owned_handle (h : s.held token = some (key, c)) : owned s (.inl token) = some c := by
  change (s.held token).map (·.2) = some c
  rw [h]
  rfl

omit [DecidableEq S] in
theorem owned_goto : owned (s.goto t phase) = update (owned s) (.inr t) phase.session := by
  funext o
  cases o with
  | inl token => rfl
  | inr t' =>
    change (update s.tasks t phase t').session = _
    by_cases ht : t' = t
    · subst ht
      rw [update_self, update_self]
    · rw [update_of_ne ht, update_of_ne (fun h => ht (Sum.inr.inj h))]
      rfl

omit [DecidableEq S] in
theorem owned_goto_same (h : (s.tasks t).session = phase.session) :
    owned (s.goto t phase) = owned s := by
  rw [owned_goto, ← h]
  exact update_eq_self ..

omit [DecidableEq S] in
theorem owned_held {x : Option (ℕ × S)} :
    owned { s with held := update s.held token x } =
      update (owned s) (.inl token) (x.map (·.2)) := by
  funext o
  cases o with
  | inl token' =>
    change (update s.held token x token').map (·.2) = _
    by_cases ht : token' = token
    · subst ht
      rw [update_self, update_self]
    · rw [update_of_ne ht, update_of_ne (fun h => ht (Sum.inl.inj h))]
      rfl
  | inr t => rfl

/-! ## What holds in every run -/

/-- Nobody shares a session, and the session of a handle holds its lock. -/
structure Invariant (s : State T S) : Prop where
  pinned : Pinned (owned s) s.inPool
  holds : ∀ token key c, s.held token = some (key, c) → s.locks.Holds c key

section

variable (h : Invariant s)

include h

omit [DecidableEq T] [DecidableEq S] in
theorem Invariant.apart (ht : (s.tasks t).session = some c)
    (hheld : s.held token = some (key, c')) : c' ≠ c := by
  rintro rfl
  cases h.pinned.unique (.inl token) (.inr t) c' (owned_handle hheld) ht

omit [DecidableEq T] [DecidableEq S] in
theorem Invariant.oneHandle : OneHandle s := by
  intro token token' key c c' hc hc'
  obtain rfl := (h.holds token key c hc).unique (h.holds token' key c' hc')
  exact Sum.inl.inj (h.pinned.unique _ _ c (owned_handle hc) (owned_handle hc'))

omit [DecidableEq T] [DecidableEq S] in
theorem Invariant.locks {locks : SessionLocks ℕ S}
    (hlocks : ∀ token key c, s.held token = some (key, c) → s.locks.Holds c key →
      locks.Holds c key) :
    Invariant { s with locks := locks } :=
  ⟨h.pinned, fun token key c hheld => hlocks token key c hheld (h.holds token key c hheld)⟩

omit [DecidableEq T] in
theorem Invariant.tryLock (c : S) (key : ℕ) :
    Invariant { s with locks := (s.locks.tryLock c key).2 } :=
  h.locks fun _ _ _ _ hholds => hholds.tryLock c key

omit [DecidableEq T] in
theorem Invariant.endTransaction (ht : (s.tasks t).session = some c) :
    Invariant { s with locks := endTransaction level s.locks c } := by
  refine h.locks fun token key c' hheld hholds => ?_
  cases level with
  | session => exact hholds
  | xact => exact SessionLocks.holds_clear hholds (h.apart ht hheld)

omit [DecidableEq T] in
theorem Invariant.unlockStatement (ht : (s.tasks t).session = some c) :
    Invariant { s with locks := unlockStatement level s.locks c key } := by
  refine h.locks fun token key' c' hheld hholds => ?_
  cases level with
  | session => exact hholds.unlock (h.apart ht hheld) key
  | xact => exact SessionLocks.holds_clear hholds (h.apart ht hheld)

omit [DecidableEq S] in
/-- A task goes on with the same session, or without any. -/
theorem Invariant.goto (hsession : phase.session = (s.tasks t).session ∨ phase.session = none) :
    Invariant (s.goto t phase) := by
  refine ⟨?_, h.holds⟩
  change Pinned (owned (s.goto t phase)) s.inPool
  rcases hsession with hsame | hnone
  · rw [owned_goto_same hsame.symm]
    exact h.pinned
  · rw [owned_goto, hnone]
    exact h.pinned.drop _

theorem Invariant.close (ht : (s.tasks t).session = some c) : Invariant (s.close level t c) := by
  have hend : Invariant { s with locks := SAAdvisoryLock.endTransaction level s.locks c } :=
    h.endTransaction ht
  refine ⟨?_, hend.holds⟩
  change Pinned (owned (s.goto t .idle)) (update s.inPool c true)
  rw [owned_goto]
  exact h.pinned.giveBack ht

omit [DecidableEq S] in
/-- **The session passes to the handle.** -/
theorem Invariant.handOut (ht : (s.tasks t).session = some c) (hholds : s.locks.Holds c key) :
    Invariant { s.goto t .idle with held := update s.held token (some (key, c)) } := by
  constructor
  · change Pinned (owned { s.goto t .idle with
      held := update (s.goto t .idle).held token (some (key, c)) }) s.inPool
    rw [owned_held, owned_goto]
    have howned : owned s (.inr t) = some c := ht
    exact h.pinned.pass howned (.inl token)
  · intro token' key' c' hheld
    change update s.held token (some (key, c)) token' = some (key', c') at hheld
    by_cases htoken : token' = token
    · rw [htoken, update_self] at hheld
      cases hheld
      exact hholds
    · rw [update_of_ne htoken] at hheld
      exact h.holds token' key' c' hheld

omit [DecidableEq S] in
/-- The session passes from the handle to the task that releases it. -/
theorem Invariant.takeBack (hheld : s.held token = some (key, c)) :
    Invariant { s.goto t (.unlocking token key c) with
      held := update s.held token none } := by
  constructor
  · have hpass := h.pinned.pass (owned_handle hheld) (.inr t)
    have hsame : owned { s.goto t (.unlocking token key c) with
        held := update (s.goto t (.unlocking token key c)).held token none } =
        update (update (owned s) (.inl token) none) (.inr t) (some c) := by
      rw [owned_held, owned_goto]
      exact update_comm (Sum.inr_ne_inl (a := token) (b := t)) _ _ _
    exact hsame ▸ hpass
  · intro token' key' c' hheld'
    change update s.held token none token' = some (key', c') at hheld'
    by_cases htoken : token' = token
    · rw [htoken, update_self] at hheld'
      cases hheld'
    · rw [update_of_ne htoken] at hheld'
      exact h.holds token' key' c' hheld'

omit [DecidableEq S] in
theorem Invariant.finish (ht : s.tasks t = .locking key c) {acquired : Bool}
    (hholds : acquired = true → s.locks.Holds c key) :
    Invariant (s.finish level t key c acquired token) := by
  have hsession : (s.tasks t).session = some c := by rw [ht]; rfl
  cases acquired with
  | true => exact h.handOut hsession (hholds rfl)
  | false =>
    cases level with
    | session | xact => exact h.goto (Or.inl hsession.symm)

theorem Invariant.act (hact : s.act level md5 a = some s') : Invariant s' := by
  cases a with
  | tryAcquire t key =>
    simp only [State.act] at hact
    split at hact
    · cases hact
      split_ifs
      · exact h
      · exact h.goto (Or.inr rfl)
    · cases hact
  | connect t c =>
    simp only [State.act] at hact
    split at hact
    · cases hact
      exact h.goto (Or.inr rfl)
    · rename_i key c ht
      split_ifs at hact with hc
      cases hact
      refine ⟨?_, h.holds⟩
      change Pinned (owned (s.goto t (.locking key c))) (update s.inPool c false)
      rw [owned_goto]
      exact h.pinned.take hc _
    · cases hact
  | lock t executed outcome token =>
    simp only [State.act] at hact
    split at hact
    · rename_i key c ht
      have hsession : (s.tasks t).session = some c := by rw [ht]; rfl
      have hnew : Invariant { s with
          locks := (if executed then s.locks.tryLock c key else (false, s.locks)).2 } := by
        cases executed with
        | true => exact h.tryLock c key
        | false => exact h
      cases outcome with
      | answered =>
        dsimp only at hact
        split at hact
        · rename_i hexecuted
          obtain ⟨rfl, -, -⟩ := hexecuted
          cases hact
          exact (h.tryLock c key).finish ht SessionLocks.holds_tryLock
        · cases hact
      | failed =>
        cases hact
        exact hnew.goto (Or.inl hsession.symm)
      | cancelled =>
        cases hact
        exact hnew.goto (Or.inr rfl)
    · cases hact
  | rollback t executed outcome =>
    simp only [State.act] at hact
    split at hact
    · rename_i c ht
      have hsession : (s.tasks t).session = some c := by rw [ht]; rfl
      have hnew : Invariant { s with
          locks := if executed then SAAdvisoryLock.endTransaction level s.locks c
            else s.locks } := by
        cases executed with
        | true => exact h.endTransaction hsession
        | false => exact h
      cases outcome with
      | answered =>
        split_ifs at hact
        cases hact
        exact (h.endTransaction hsession).goto (Or.inl hsession.symm)
      | failed | cancelled =>
        cases hact
        exact hnew.goto (Or.inr rfl)
    · cases hact
  | close t executed =>
    simp only [State.act] at hact
    split at hact
    · rename_i c ht
      have hsession : (s.tasks t).session = some c := by rw [ht]; rfl
      cases hact
      split_ifs
      · exact h.close hsession
      · exact h.goto (Or.inr rfl)
    · rename_i token key c ht
      have hsession : (s.tasks t).session = some c := by rw [ht]; rfl
      cases hact
      split_ifs
      · exact h.close hsession
      · exact h.goto (Or.inr rfl)
    · cases hact
  | release t token =>
    simp only [State.act] at hact
    split at hact
    · split_ifs at hact
      · cases hact
        exact h
      · split at hact
        · cases hact
          exact ⟨h.pinned, h.holds⟩
        · rename_i key c hheld
          cases hact
          obtain ⟨hpinned, hholds⟩ := h.takeBack (t := t) hheld
          exact ⟨hpinned, hholds⟩
    · cases hact
  | unlock t executed =>
    simp only [State.act] at hact
    split at hact
    · rename_i token key c ht
      have hsession : (s.tasks t).session = some c := by rw [ht]; rfl
      have hnew : Invariant { s with
          locks := if executed then SAAdvisoryLock.unlockStatement level s.locks c key
            else s.locks } := by
        cases executed with
        | true => exact h.unlockStatement hsession
        | false => exact h
      cases hact
      have hgoto : Invariant (State.goto { s with
          locks := if executed then SAAdvisoryLock.unlockStatement level s.locks c key
            else s.locks } t (.releasing token key c)) := hnew.goto (Or.inl hsession.symm)
      exact hgoto
    · cases hact

end

omit [DecidableEq T] [DecidableEq S] in
theorem invariant_init : Invariant ({} : State T S) :=
  have hnone : ∀ o : UUID ⊕ T, owned ({} : State T S) o = none := by
    intro o
    cases o <;> rfl
  ⟨⟨fun o _ c ho => (nomatch (hnone o).symm.trans ho),
    fun o _ ho => (nomatch (hnone o).symm.trans ho)⟩, fun _ _ _ h => nomatch h⟩

/-! ## What holds when all goes well -/

def Phase.Returns (level : Level) (key : ℕ) (c : S) : Phase S → Prop
  | .unlocking _ key' c' => key' = key ∧ c' = c
  | .releasing _ key' c' => level = .xact ∧ key' = key ∧ c' = c
  | _ => False

/-- Every lock was taken once, and is that of a handle, or is being given back. -/
def Accounted (level : Level) (s : State T S) : Prop :=
  ∀ key c n, s.locks key = some (c, n) → n = 0 ∧
    ((∃ token, s.held token = some (key, c)) ∨ ∃ t, (s.tasks t).Returns level key c)

omit [DecidableEq S] in
theorem Phase.Returns.session (h : phase.Returns level key c) : phase.session = some c := by
  cases phase with
  | unlocking => exact congrArg some h.2
  | releasing => exact congrArg some h.2.2
  | idle | connecting | locking | rollingBack | closing => exact h.elim

omit [DecidableEq T] [DecidableEq S] in
theorem Accounted.nothingLeft (h : Accounted level s) (hinv : Invariant s) : NothingLeft s := by
  rintro key c ⟨n, hn⟩
  rcases (h key c n hn).2 with ⟨token, hheld⟩ | ⟨t, hreturns⟩
  · exact ⟨hinv.pinned.out _ c (owned_handle hheld), Or.inl ⟨token, c, hheld⟩⟩
  · refine ⟨hinv.pinned.out (.inr t) c hreturns.session, Or.inr ⟨t, ?_⟩⟩
    cases hphase : s.tasks t with
    | unlocking token key' c' =>
      rw [hphase] at hreturns
      obtain ⟨rfl, rfl⟩ := hreturns
      exact ⟨token, c', Or.inl rfl⟩
    | releasing token key' c' =>
      rw [hphase] at hreturns
      obtain ⟨-, rfl, rfl⟩ := hreturns
      exact ⟨token, c', Or.inr rfl⟩
    | idle | connecting | locking | rollingBack | closing =>
      rw [hphase] at hreturns
      exact hreturns.elim

omit [DecidableEq S] in
/-- A task goes on that was giving nothing back, and there are no new locks. -/
theorem Accounted.goto (h : Accounted level s) (ht : ∀ key c, ¬(s.tasks t).Returns level key c)
    {locks : SessionLocks ℕ S}
    (hlocks : ∀ key c n, locks key = some (c, n) → s.locks key = some (c, n)) :
    Accounted level { s.goto t phase with locks := locks } := by
  intro key c n hn
  obtain ⟨hzero, hheld | ⟨t', hreturns⟩⟩ := h key c n (hlocks key c n hn)
  · exact ⟨hzero, Or.inl hheld⟩
  · refine ⟨hzero, Or.inr ⟨t', ?_⟩⟩
    have hne : t' ≠ t := by
      rintro rfl
      exact ht key c hreturns
    change (update s.tasks t phase t').Returns level key c
    rwa [update_of_ne hne]

omit [DecidableEq T] [DecidableEq S] in
/-- A session of a task that gives nothing back holds nothing. -/
theorem Accounted.free (h : Accounted level s) (hinv : Invariant s)
    (hsession : (s.tasks t).session = some c) (ht : ∀ key c, ¬(s.tasks t).Returns level key c) :
    s.locks key ≠ some (c, n) := by
  intro hn
  rcases (h key c n hn).2 with ⟨token, hheld⟩ | ⟨t', hreturns⟩
  · exact hinv.apart hsession hheld rfl
  · obtain rfl := Sum.inr.inj
      (hinv.pinned.unique (.inr t) (.inr t') c hsession hreturns.session)
    exact ht key c hreturns

omit [DecidableEq T] in
theorem endTransaction_eq_some
    (h : endTransaction level s.locks c key = some (c', n)) : s.locks key = some (c', n) := by
  cases level with
  | session => exact h
  | xact => exact (SessionLocks.clear_eq_some.mp h).1

/-- **A handle is handed out** for a lock that its session has taken once. -/
theorem Accounted.finish (h : Accounted level s) (hinv : Invariant s)
    (ht : s.tasks t = .locking key c) (hfresh : s.held token = none) :
    Accounted level (State.finish level { s with locks := (s.locks.tryLock c key).2 } t key c
      (s.locks.tryLock c key).1 token) := by
  have hnot : ∀ key' c', ¬(s.tasks t).Returns level key' c' := by
    rw [ht]
    exact fun _ _ hreturns => hreturns
  have hsession : (s.tasks t).session = some c := by rw [ht]; rfl
  cases hacquired : (s.locks.tryLock c key).1 with
  | false =>
    have hsame : (s.locks.tryLock c key).2 = s.locks := SessionLocks.tryLock_refused hacquired
    rw [hsame]
    cases level with
    | session | xact => exact h.goto hnot fun _ _ _ hn => hn
  | true =>
    intro key' c' n hn
    change n = 0 ∧ ((∃ token', update s.held token (some (key, c)) token' =
      some (key', c')) ∨ ∃ t', (update s.tasks t .idle t').Returns level key' c')
    rcases SessionLocks.tryLock_eq_some hn with hold | ⟨-, rfl, rfl, hzero⟩
    · obtain ⟨hn, ⟨token', hheld⟩ | ⟨t', hreturns⟩⟩ := h key' c' n hold
      · refine ⟨hn, Or.inl ⟨token', ?_⟩⟩
        have hne : token' ≠ token := by
          rintro rfl
          cases hfresh.symm.trans hheld
        rwa [update_of_ne hne]
      · refine ⟨hn, Or.inr ⟨t', ?_⟩⟩
        have hne : t' ≠ t := by
          rintro rfl
          exact hnot _ _ hreturns
        rwa [update_of_ne hne]
    · refine ⟨hzero ?_, Or.inl ⟨token, update_self ..⟩⟩
      -- no other session holds the key, and this one held nothing
      cases hk : s.locks key' with
      | none => rfl
      | some x =>
        obtain ⟨c'', m⟩ := x
        have hother : c'' = c' := by
          unfold SessionLocks.tryLock at hacquired
          rw [hk] at hacquired
          dsimp only at hacquired
          by_contra hne
          rw [if_neg hne] at hacquired
          cases hacquired
        rw [hother] at hk
        exact absurd hk (h.free hinv hsession hnot)

theorem Accounted.act {past : List (Move T S)} (h : Accounted level s) (hinv : Invariant s)
    (hok : Settled level past s a) (hact : s.act level md5 a = some s') : Accounted level s' := by
  cases a with
  | tryAcquire t key =>
    simp only [State.act] at hact
    split at hact
    · rename_i ht
      cases hact
      split_ifs
      · exact h
      · exact h.goto (by rw [ht]; exact fun _ _ hreturns => hreturns) fun _ _ _ hn => hn
    · cases hact
  | connect t c =>
    simp only [State.act] at hact
    split at hact
    · rename_i ht
      cases hact
      exact h.goto (by rw [ht]; exact fun _ _ hreturns => hreturns) fun _ _ _ hn => hn
    · rename_i key c ht
      split_ifs at hact with hc
      cases hact
      exact h.goto (by rw [ht]; exact fun _ _ hreturns => hreturns) fun _ _ _ hn => hn
    · cases hact
  | lock t executed outcome token =>
    simp only [State.act] at hact
    split at hact
    · rename_i key c ht
      have hnot : ∀ key' c', ¬(s.tasks t).Returns level key' c' := by
        rw [ht]
        exact fun _ _ hreturns => hreturns
      -- a statement that is not answered has not taken the lock
      have hsame : outcome ≠ .answered →
          (if executed then s.locks.tryLock c key else (false, s.locks)).2 = s.locks := by
        intro hne
        cases executed with
        | true =>
          refine SessionLocks.tryLock_refused ?_
          rw [Bool.eq_false_iff]
          exact fun htaken => hne (hok key c ht rfl htaken)
        | false => rfl
      cases outcome with
      | answered =>
        dsimp only at hact
        split at hact
        · rename_i hexecuted
          obtain ⟨rfl, hfresh, -⟩ := hexecuted
          cases hact
          exact h.finish hinv ht hfresh
        · cases hact
      | failed | cancelled =>
        cases hact
        refine h.goto hnot fun _ _ _ hn => ?_
        rwa [hsame nofun] at hn
    · cases hact
  | rollback t executed outcome =>
    simp only [State.act] at hact
    split at hact
    · rename_i c ht
      have hnot : ∀ key' c', ¬(s.tasks t).Returns level key' c' := by
        rw [ht]
        exact fun _ _ hreturns => hreturns
      have hlocks : ∀ key c' n, (if executed then endTransaction level s.locks c else s.locks) key =
          some (c', n) → s.locks key = some (c', n) := by
        intro key c' n hn
        cases executed with
        | true => exact endTransaction_eq_some hn
        | false => exact hn
      cases outcome with
      | answered =>
        split_ifs at hact
        cases hact
        exact h.goto hnot fun _ _ _ hn => endTransaction_eq_some hn
      | failed | cancelled =>
        cases hact
        exact h.goto hnot hlocks
    · cases hact
  | close t executed =>
    simp only [State.act] at hact
    split at hact
    · rename_i c ht
      have hnot : ∀ key' c', ¬(s.tasks t).Returns level key' c' := by
        rw [ht]
        exact fun _ _ hreturns => hreturns
      cases hact
      split_ifs
      · exact h.goto hnot fun _ _ _ hn => endTransaction_eq_some hn
      · exact h.goto hnot fun _ _ _ hn => hn
    · rename_i token key c ht
      cases hact
      -- what is left belongs to other sessions, or to handles
      have hrest : ∀ locks : SessionLocks ℕ S, (∀ key' c' m, locks key' = some (c', m) →
          s.locks key' = some (c', m) ∧ (level = .xact → c' ≠ c)) →
            Accounted level { s.goto t .idle with locks := locks } := by
        intro locks hlocks key' c' m hm
        obtain ⟨hold, hne⟩ := hlocks key' c' m hm
        obtain ⟨hzero, hheld | ⟨t', hreturns⟩⟩ := h key' c' m hold
        · exact ⟨hzero, Or.inl hheld⟩
        · refine ⟨hzero, Or.inr ⟨t', ?_⟩⟩
          have htt : t' ≠ t := by
            rintro rfl
            rw [ht] at hreturns
            exact hne hreturns.1 hreturns.2.2.symm
          change (update s.tasks t .idle t').Returns level key' c'
          rwa [update_of_ne htt]
      split_ifs with hexecuted
      · refine hrest _ fun key' c' m hm => ⟨endTransaction_eq_some hm, ?_⟩
        rintro rfl
        exact (SessionLocks.clear_eq_some.mp hm).2
      · refine hrest _ fun key' c' m hm => ⟨hm, ?_⟩
        rintro hlevel rfl
        exact hexecuted (hok hlevel c' key' (by rw [ht]; rfl) ⟨m, hm⟩)
    · cases hact
  | release t token =>
    simp only [State.act] at hact
    split at hact
    · rename_i ht
      split_ifs at hact
      · cases hact
        exact h
      · split at hact
        · cases hact
          exact h
        · rename_i key c hheld
          cases hact
          intro key' c' n hn
          change n = 0 ∧ ((∃ token', update s.held token none token' =
            some (key', c')) ∨ ∃ t', (update s.tasks t (.unlocking token key c)
              t').Returns level key' c')
          obtain ⟨hzero, ⟨token', hheld'⟩ | ⟨t', hreturns⟩⟩ := h key' c' n hn
          · refine ⟨hzero, ?_⟩
            by_cases htoken : token' = token
            · -- the handle's own lock is now that of the task
              rw [htoken] at hheld'
              cases hheld.symm.trans hheld'
              refine Or.inr ⟨t, ?_⟩
              rw [update_self]
              exact ⟨rfl, rfl⟩
            · refine Or.inl ⟨token', ?_⟩
              rwa [update_of_ne htoken]
          · refine ⟨hzero, Or.inr ⟨t', ?_⟩⟩
            have htt : t' ≠ t := by
              rintro rfl
              rw [ht] at hreturns
              exact hreturns
            rwa [update_of_ne htt]
    · cases hact
  | unlock t executed =>
    simp only [State.act] at hact
    split at hact
    · rename_i token key c ht
      cases hact
      intro key' c' n hn
      change n = 0 ∧ ((∃ token', s.held token' = some (key', c')) ∨
        ∃ t', (update s.tasks t (.releasing token key c) t').Returns level key' c')
      -- for a session, the lock of the handle is gone
      have hcases : s.locks key' = some (c', n) ∧
          (level = .session → ¬(key' = key ∧ c' = c)) := by
        cases level with
        | session =>
          obtain rfl : executed = true := hok rfl
          have hunlock := SessionLocks.unlock_eq_some (fun m hm => (h key c m hm).1) hn
          exact ⟨hunlock.1, fun _ => hunlock.2⟩
        | xact =>
          refine ⟨?_, nofun⟩
          cases executed with
          | true => exact (SessionLocks.clear_eq_some.mp hn).1
          | false => exact hn
      obtain ⟨hold, hgone⟩ := hcases
      obtain ⟨hzero, hheld | ⟨t', hreturns⟩⟩ := h key' c' n hold
      · exact ⟨hzero, Or.inl hheld⟩
      · refine ⟨hzero, Or.inr ⟨t', ?_⟩⟩
        by_cases htt : t' = t
        · rw [htt, ht] at hreturns
          obtain ⟨rfl, rfl⟩ := hreturns
          rw [htt, update_self]
          cases level with
          | session => exact (hgone rfl ⟨rfl, rfl⟩).elim
          | xact => exact ⟨rfl, rfl, rfl⟩
        · rwa [update_of_ne htt]
    · cases hact

omit [DecidableEq T] [DecidableEq S] in
theorem accounted_init : Accounted level ({} : State T S) := fun _ _ _ h => nomatch h

end

end SAAdvisoryLock

open SAAdvisoryLock

/-- **One handle for each key, and no lock left behind**: the former in every run, the latter as
long as the calls around a lock go well. -/
theorem advisory_lock_never_left {T S : Type} [DecidableEq T] [DecidableEq S] (level : Level)
    (md5 : String → BitVec 128) :
    (∀ moves (s : State T S),
      Run (fun s a s' => State.act level md5 s a = some s') {} moves s → OneHandle s) ∧
    ∀ moves (s : State T S),
      Guarded (fun s a s' => State.act level md5 s a = some s') (Settled level) {} moves s →
        NothingLeft s := by
  constructor
  · intro moves s h
    have hinv : Invariant s := h.invariant (fun _ _ _ _ hact hs => hs.act hact) invariant_init
    exact hinv.oneHandle
  · intro moves s h
    have hboth : Invariant s ∧ Accounted level s :=
      h.invariant (I := fun _ s => Invariant s ∧ Accounted level s)
        ⟨invariant_init, accounted_init⟩ fun _ _ _ _ _ hok hact hs =>
          ⟨hs.1.act hact, hs.2.act hs.1 hok hact⟩
    exact hboth.2.nothingLeft hboth.1

/-- Nothing fails. -/
def SAAdvisoryLock.Move.smooth {T S : Type} : Move T S → Bool
  | .lock _ _ outcome _ => outcome = .answered
  | .unlock _ executed | .close _ executed => executed
  | _ => true

/-- One task takes the lock, another one does not get it, and the first one releases it. -/
def contended (level : Level) : List (Move Bool Bool) :=
  [Move.tryAcquire true "k", .connect true (some true), .lock true true .answered 1,
    .tryAcquire false "k", .connect false (some false), .lock false true .answered 2] ++
  (if level = .xact then [Move.rollback false true .answered] else []) ++
  [Move.close false true, .release true 1, .unlock true true, .close true true]

/-- A lock that two tasks try to take, in both classes. -/
theorem advisory_lock_never_left_contended : ∃ s s' : State Bool Bool,
    NothingLeft s ∧ NothingLeft s' ∧ s.released 1 = true ∧ s'.released 1 = true := by
  have hcheck : ∀ level l (s : State Bool Bool) (a : Move Bool Bool), a.smooth = true →
      Settled level l s a := by
    intro level l s a h
    cases a <;> simp_all [Move.smooth, Settled]
  have hleft : ∀ level s, (contended level).foldlM (fun s a =>
      if a.smooth then State.act level (fun _ => 0) s a else none) ({} : State Bool Bool) = some s →
      NothingLeft s := fun level s hs =>
    (advisory_lock_never_left level fun _ => 0).2 _ _
      (Guarded.nil.foldlM (fun _ _ _ h => h) (hcheck level) hs)
  exact ⟨_, _, hleft .session _ rfl, hleft .xact _ rfl, rfl, rfl⟩

/-- A session that is put back with its lock, when the statement fails after it took the lock, or
the unlock fails; and a lock without a handle, when the task is cancelled in the statement. -/
theorem advisory_lock_left_behind :
    (∃ s : State Unit Unit, Run (fun s a s' => State.act .session (fun _ => 0) s a = some s') {}
        [.tryAcquire () "k", .connect () (some ()), .lock () true .failed 1, .close () true] s ∧
      s.locks.Holds () 0 ∧ s.inPool () = true) ∧
    (∃ s : State Unit Unit, Run (fun s a s' => State.act .session (fun _ => 0) s a = some s') {}
        [.tryAcquire () "k", .connect () (some ()), .lock () true .answered 1, .release () 1,
          .unlock () false, .close () true] s ∧
      s.locks.Holds () 0 ∧ s.inPool () = true) ∧
    ∃ s : State Unit Unit, Run (fun s a s' => State.act .xact (fun _ => 0) s a = some s') {}
        [.tryAcquire () "k", .connect () (some ()), .lock () true .cancelled 1] s ∧
      s.locks.Holds () 0 ∧ ¬Live s 0 := by
  refine ⟨⟨_, .cons rfl (.cons rfl (.cons rfl (.cons rfl (.nil _)))), ⟨0, rfl⟩, rfl⟩,
    ⟨_, .cons rfl (.cons rfl (.cons rfl (.cons rfl (.cons rfl (.cons rfl (.nil _)))))), ⟨0, rfl⟩,
      rfl⟩, ⟨_, .cons rfl (.cons rfl (.cons rfl (.nil _))), ⟨0, rfl⟩, ?_⟩⟩
  rintro (⟨_, _, h⟩ | ⟨_, _, _, h | h⟩) <;> cases h

end Varco
