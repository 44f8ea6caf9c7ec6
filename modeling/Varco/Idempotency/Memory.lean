import Varco.Foundations.Dict
import Varco.Idempotency.Base

/-!
# The in-memory idempotency store

`InMemoryIdempotencyStore` of `varco_core.idempotency.memory`. A lock makes every call atomic, so a
call is a function of the entries and of one reading of `time.monotonic()`, in seconds.
-/

namespace Varco

/-- `_Entry` -/
structure MemoryEntry where
  fingerprint : String
  expiresAt : ℚ
  record : Option IdempotencyRecord := none

def MemoryEntry.isExpired (e : MemoryEntry) (now : ℚ) : Bool := e.expiresAt ≤ now

/-- The entries by key. -/
structure InMemoryIdempotencyStore where
  entries : Dict String MemoryEntry := .empty

namespace InMemoryIdempotencyStore

def dropExpired (s : InMemoryIdempotencyStore) (now : ℚ) (key : String) :
    InMemoryIdempotencyStore :=
  match s.entries.get? key with
  | none => s
  | some existing => if existing.isExpired now then ⟨s.entries.erase key⟩ else s

def reserve (s : InMemoryIdempotencyStore) (now : ℚ) (key fingerprint : String) (ttl : PyFloat) :
    Except PyException ReserveOutcome × InMemoryIdempotencyStore :=
  if ttl.val ≤ 0 then (.error (ttlError ttl), s)
  else
    let s := s.dropExpired now key
    match s.entries.get? key with
    | none => (.ok .acquired, ⟨s.entries.set key { fingerprint, expiresAt := now + ttl.val }⟩)
    | some existing => (.ok (if existing.record.isSome then .replay else .inFlight), s)

/-- Store the response for a key. Without an entry, one is made that has already expired. -/
def complete (s : InMemoryIdempotencyStore) (now : ℚ) (key : String) (record : IdempotencyRecord) :
    InMemoryIdempotencyStore :=
  let entry := (s.entries.get? key).getD { fingerprint := record.fingerprint, expiresAt := now }
  ⟨s.entries.set key { entry with record := some record }⟩

def get (s : InMemoryIdempotencyStore) (now : ℚ) (key : String) : Option IdempotencyRecord :=
  match s.entries.get? key with
  | none => none
  | some entry => if entry.isExpired now then none else entry.record

def release (s : InMemoryIdempotencyStore) (key : String) : InMemoryIdempotencyStore :=
  ⟨s.entries.erase key⟩

/-- One call at the time `now`. -/
def exec : ℚ × IdempotencyCall → InMemoryIdempotencyStore →
    Except PyException IdempotencyAnswer × InMemoryIdempotencyStore
  | (now, .reserve key fp ttl), s =>
    let out := s.reserve now key fp ttl
    (out.1.map .outcome, out.2)
  | (now, .complete key record), s => (.ok .done, s.complete now key record)
  | (now, .get key), s => (.ok (.record (s.get now key)), s)
  | (_, .release key), s => (.ok .done, s.release key)

end InMemoryIdempotencyStore

end Varco
