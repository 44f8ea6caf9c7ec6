import Varco.Idempotency.Memory
import Varco.Idempotency.Redis

/-!
# The store behind the middleware

`AbstractIdempotencyStore` of `varco_core.idempotency.base`, as the middleware sees it: its methods,
what is kept under a key, and what the contract promises of a key that is reserved. The promises are
fields, so that a store is one that keeps them; the in-memory store and the Redis store do.

What is kept is not asked whether it has expired: a reservation that is left behind is in progress
until somebody removes it or takes it over.
-/

namespace Varco

/-- What is kept under a key. -/
inductive KeyState
  | free
  | inProgress
  | completed (record : IdempotencyRecord)
  deriving DecidableEq

/-- What an entry with the response `record`, if it has one, says about its key. -/
def KeyState.ofEntry : Option (Option IdempotencyRecord) → KeyState
  | none => .free
  | some none => .inProgress
  | some (some record) => .completed record

structure AbstractIdempotencyStore (σ : Type) where
  reserve : σ → ℚ → (key fingerprint : String) → PyFloat → Except PyException ReserveOutcome × σ
  complete : σ → ℚ → String → IdempotencyRecord → σ
  get : σ → ℚ → String → Option IdempotencyRecord
  release : σ → String → σ
  /-- What is kept under a key. -/
  state : σ → String → KeyState
  /-- A key that is acquired is in progress. -/
  state_reserve : ∀ s t key fp ttl, (reserve s t key fp ttl).1 = .ok .acquired →
    state (reserve s t key fp ttl).2 key = .inProgress
  /-- The response of a reserved key is stored. -/
  state_complete : ∀ s t key record, state s key = .inProgress →
    state (complete s t key record) key = .completed record
  /-- A reserved key is released. -/
  state_release : ∀ s key, state s key = .inProgress → state (release s key) key = .free

namespace InMemoryIdempotencyStore

variable {m : InMemoryIdempotencyStore} {now : ℚ} {key fp : String} {ttl : PyFloat}
  {record : IdempotencyRecord}

def state (m : InMemoryIdempotencyStore) (key : String) : KeyState :=
  .ofEntry ((m.entries.get? key).map MemoryEntry.record)

theorem state_reserve (h : (m.reserve now key fp ttl).1 = .ok .acquired) :
    (m.reserve now key fp ttl).2.state key = .inProgress := by
  unfold reserve at h ⊢
  by_cases httl : ttl.val ≤ 0
  · simp [if_pos httl] at h
  · simp only [if_neg httl] at h ⊢
    cases he : (m.dropExpired now key).entries.get? key with
    | none => simp [state, KeyState.ofEntry]
    | some e =>
      simp only [he, Except.ok.injEq] at h
      split_ifs at h

theorem state_complete : (m.complete now key record).state key = .completed record := by
  simp [complete, state, KeyState.ofEntry]

theorem state_release : (m.release key).state key = .free := by
  simp [release, state, KeyState.ofEntry]

def contract : AbstractIdempotencyStore InMemoryIdempotencyStore where
  reserve m := m.reserve
  complete m := m.complete
  get m := m.get
  release m := m.release
  state m := m.state
  state_reserve _ _ _ _ _ h := state_reserve h
  state_complete _ _ _ _ _ := state_complete
  state_release _ _ _ := state_release

end InMemoryIdempotencyStore

namespace RedisIdempotencyStore

variable {store : RedisIdempotencyStore} {m : Server} {now : ℚ} {key fp : String} {ttl : PyFloat}
  {record : IdempotencyRecord}

def state (store : RedisIdempotencyStore) (m : Server) (key : String) : KeyState :=
  .ofEntry ((m.entries (store.redisKey key)).map fun entry => entry.1.record)

theorem state_reserve (h : (store.reserve m now key fp ttl).1 = .ok .acquired) :
    store.state (store.reserve m now key fp ttl).2 key = .inProgress := by
  unfold reserve at h ⊢
  by_cases httl : ttl.val ≤ 0
  · simp [if_pos httl] at h
  · by_cases hpx : px ttl ≤ 0
    · simp [if_neg httl, if_pos hpx] at h
    · simp only [if_neg httl, if_neg hpx, Expiring.setNx] at h ⊢
      cases hl : m.live now (store.redisKey key) with
      | none => simp [state, Expiring.put, Envelope.record, KeyState.ofEntry]
      | some entry =>
        simp only [hl] at h
        split at h <;> simp at h

theorem state_complete :
    store.state (store.complete m now key record) key = .completed record := by
  simp [complete, Expiring.setKeepTtl, state, Expiring.put, Envelope.record, KeyState.ofEntry]

theorem state_release : store.state (store.release m key) key = .free := by
  simp [release, state, Expiring.del, KeyState.ofEntry]

def contract (store : RedisIdempotencyStore) : AbstractIdempotencyStore Server where
  reserve := store.reserve
  complete := store.complete
  get := store.get
  release := store.release
  state := store.state
  state_reserve _ _ _ _ _ h := state_reserve h
  state_complete _ _ _ _ _ := state_complete
  state_release _ _ _ := state_release

end RedisIdempotencyStore

end Varco
