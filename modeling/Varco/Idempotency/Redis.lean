import Mathlib.Data.Rat.Floor
import Varco.Foundations.Expiring
import Varco.Idempotency.Base

/-!
# The Redis idempotency store

`RedisIdempotencyStore` of `varco_redis.idempotency`. A key holds a JSON envelope, modelled by the
value it encodes, and the server drops it when its time to live is over. The commands of one call
are taken at one time, in seconds.
-/

namespace Varco

/-- The JSON value under a key. -/
inductive Envelope
  | reserved (fingerprint : String)
  | completed (record : IdempotencyRecord)

def Envelope.record : Envelope → Option IdempotencyRecord
  | .reserved _ => none
  | .completed record => some record

/-- The configuration of the store. -/
structure RedisIdempotencyStore where
  keyPrefix : String := "varco:idempotency:"

namespace RedisIdempotencyStore

abbrev Server := Expiring String Envelope ℚ

def redisKey (store : RedisIdempotencyStore) (key : String) : String := store.keyPrefix ++ key

def invalidExpire : PyException := ⟨"ResponseError", "invalid expire time in 'set' command"⟩

/-- `int(ttl * 1000)`, for a positive `ttl`. -/
def px (ttl : PyFloat) : ℤ := ⌊ttl.val * 1000⌋

def reserve (store : RedisIdempotencyStore) (m : Server) (now : ℚ) (key fingerprint : String)
    (ttl : PyFloat) : Except PyException ReserveOutcome × Server :=
  if ttl.val ≤ 0 then (.error (ttlError ttl), m)
  else if px ttl ≤ 0 then (.error invalidExpire, m)
  else
    match m.setNx now (store.redisKey key) (.reserved fingerprint) (now + px ttl / 1000) with
    | (true, m) => (.ok .acquired, m)
    | (false, m) =>
      match m.get now (store.redisKey key) with
      | none => (.ok .inFlight, m)
      | some (.completed _) => (.ok .replay, m)
      | some (.reserved _) => (.ok .inFlight, m)

/-- Store the response for a key, for what is left of its time to live. -/
def complete (store : RedisIdempotencyStore) (m : Server) (now : ℚ) (key : String)
    (record : IdempotencyRecord) : Server :=
  m.setKeepTtl now (store.redisKey key) (.completed record)

def get (store : RedisIdempotencyStore) (m : Server) (now : ℚ) (key : String) :
    Option IdempotencyRecord :=
  (m.get now (store.redisKey key)).bind Envelope.record

def release (store : RedisIdempotencyStore) (m : Server) (key : String) : Server :=
  m.del (store.redisKey key)

/-- One call at the time `now`. -/
def exec (store : RedisIdempotencyStore) : ℚ × IdempotencyCall → Server →
    Except PyException IdempotencyAnswer × Server
  | (now, .reserve key fp ttl), m =>
    let out := store.reserve m now key fp ttl
    (out.1.map .outcome, out.2)
  | (now, .complete key record), m => (.ok .done, store.complete m now key record)
  | (now, .get key), m => (.ok (.record (store.get m now key)), m)
  | (_, .release key), m => (.ok .done, store.release m key)

end RedisIdempotencyStore

end Varco
