import Varco.Foundations.Tasks
import Varco.Tenancy.Catalog
import Mathlib.Algebra.Order.Ring.Rat

/-!
# The cached catalog

`CachedTenantCatalog`: a cache with a time to live before a catalog that other pods write to as
well. A call to the store and a locked section are one step each, so a `get` looks its tenant up,
reads the store and installs what it has read in three steps, and the calls that write first write
to the store and then touch the cache.
-/

namespace Varco

namespace CachedTenantCatalog

/-- `catalog_ttl_s` and `negative_cache_window_s`. -/
structure Config where
  catalogTtl : ℚ
  negativeCacheWindow : ℚ

/-- The calls that follow a change: three write to the store, and one is told of a change. -/
inductive Change
  | add (descriptor : TenantDescriptor)
  | updateStatus (tenantId : String) (status : TenantStatus)
  | remove (tenantId : String)
  | onCatalogChanged (tenantId : String)
  deriving DecidableEq

/-- The calls to the cached catalog. -/
inductive Call
  | get (tenantId : String)
  | change (c : Change)
  deriving DecidableEq

/-- The rows of the store, `_cache` and `_negative_cache`; the time, and how many calls that follow
a change of a tenant have returned. -/
structure State where
  rows : TenantRows := .empty
  cache : Dict String (TenantDescriptor × ℚ) := .empty
  negativeCache : Dict String ℚ := .empty
  clock : ℚ := 0
  returns : String → ℕ := fun _ => 0

/-- Where a call is. `now` is the time at which a `get` was called. -/
inductive Phase
  | idle
  /-- `get` is to look its tenant up. -/
  | lookup (tenantId : String) (now : ℚ)
  /-- `get` awaits the store. -/
  | reading (tenantId : String) (now : ℚ)
  /-- `get` is to install what it has read, when so many calls had returned. -/
  | installing (tenantId : String) (now : ℚ) (row : Option TenantDescriptor) (returns : ℕ)
  /-- A call that writes awaits the store. -/
  | storing (change : Change)
  /-- A call is to touch the cache. -/
  | locking (change : Change)
  /-- `get` has returned a descriptor, or raised `TenantNotFoundError`. -/
  | answered (tenantId : String) (row : Option TenantDescriptor)
  | returned (change : Change)
  | raised (e : Exc)
  deriving DecidableEq

def Change.tenantId : Change → String
  | .add descriptor => descriptor.tenantId
  | .updateStatus tenantId _ | .remove tenantId | .onCatalogChanged tenantId => tenantId

/-- `get` under the lock, of a tenant that is not cached. -/
def lookupNegative (cfg : Config) (tenantId : String) (now : ℚ) (s : State) : Phase :=
  match s.negativeCache.get? tenantId with
  | some negAt =>
    if now - negAt ≤ cfg.negativeCacheWindow then .answered tenantId none
    else .reading tenantId now
  | none => .reading tenantId now

/-- `get` under the lock. -/
def lookup (cfg : Config) (tenantId : String) (now : ℚ) (s : State) : Phase :=
  match s.cache.get? tenantId with
  | some (descriptor, cachedAt) =>
    if now - cachedAt ≤ cfg.catalogTtl then .answered tenantId (some descriptor)
    else lookupNegative cfg tenantId now s
  | none => lookupNegative cfg tenantId now s

/-- `get` under the lock, with what it has read from the store. -/
def install (tenantId : String) (now : ℚ) (row : Option TenantDescriptor) (s : State) : State :=
  match row with
  | none =>
    { s with
      negativeCache := s.negativeCache.set tenantId now, cache := s.cache.erase tenantId }
  | some descriptor =>
    { s with
      cache := s.cache.set tenantId (descriptor, now),
      negativeCache := s.negativeCache.erase tenantId }

def write (store : TenantCatalog) (change : Change) (rows : TenantRows) :
    Except PyException TenantRows :=
  match change with
  | .add descriptor => store.add descriptor rows
  | .updateStatus tenantId status => store.updateStatus tenantId status rows
  | .remove tenantId => store.remove tenantId rows
  | .onCatalogChanged _ => .ok rows

def touch (change : Change) (s : State) : State :=
  match change with
  | .add descriptor =>
    { s with
      cache := s.cache.set descriptor.tenantId (descriptor, s.clock),
      negativeCache := s.negativeCache.erase descriptor.tenantId }
  | .updateStatus tenantId _ | .remove tenantId => { s with cache := s.cache.erase tenantId }
  | .onCatalogChanged tenantId =>
    { s with
      cache := s.cache.erase tenantId, negativeCache := s.negativeCache.erase tenantId }

def start (s : State) : Call → Phase
  | .get tenantId => .lookup tenantId s.clock
  | .change (.onCatalogChanged tenantId) => .locking (.onCatalogChanged tenantId)
  | .change change => .storing change

/-- A call is made, or goes on; a call to the store may raise instead. Other pods change the rows
too. -/
inductive Input
  | call (c : Call)
  | resume (fault : Option Exc)
  | elsewhere (tenantId : String) (row : Option TenantDescriptor)
  deriving DecidableEq

def changed (tenantId : String) (row : Option TenantDescriptor) (rows : TenantRows) : TenantRows :=
  match row with
  | none => rows.erase tenantId
  | some descriptor => rows.set tenantId descriptor

def stored (store : TenantCatalog) (change : Change) (s : State) : State × Phase :=
  match write store change s.rows with
  | .error e => (s, .raised (.error e))
  | .ok rows => ({ s with rows := rows }, .locking change)

def resume (cfg : Config) (store : TenantCatalog) (fault : Option Exc) (s : State) :
    Phase → Option (State × Phase)
  | .lookup tenantId now => some (s, lookup cfg tenantId now s)
  | .reading tenantId now =>
    match fault with
    | some e => some (s, .raised e)
    | none => some (s, .installing tenantId now (s.rows.get? tenantId) (s.returns tenantId))
  | .installing tenantId now row _ => some (install tenantId now row s, .answered tenantId row)
  | .storing change =>
    match fault with
    | some e => some (s, .raised e)
    | none => some (stored store change s)
  | .locking change =>
    some ({ touch change s with
      returns := Function.update s.returns change.tenantId (s.returns change.tenantId + 1) },
      .returned change)
  | _ => none

def act (cfg : Config) (store : TenantCatalog) (x : Input) (s : State) (p : Phase) :
    Option (State × Phase) :=
  match x, p with
  | .call c, .idle => some (s, start s c)
  | .elsewhere tenantId row, .idle => some ({ s with rows := changed tenantId row s.rows }, .idle)
  | .resume fault, p => resume cfg store fault s p
  | _, _ => none

/-- One step, at the time `a.1`. -/
def next (cfg : Config) (store : TenantCatalog) (a : ℚ × Input) (s : State) (p : Phase) :
    Option (State × Phase) :=
  if a.1 < s.clock then none else act cfg store a.2 { s with clock := a.1 } p

abbrev Callers (ι : Type) : Type := Tasks ι State Phase

def fresh (ι : Type) (rows : TenantRows) : Callers ι := ⟨{ rows := rows }, fun _ => .idle⟩

abbrev Step {ι : Type} [DecidableEq ι] (cfg : Config) (store : TenantCatalog) :
    Callers ι → ι × ℚ × Input → Callers ι → Prop :=
  Tasks.Step (next cfg store)

end CachedTenantCatalog

end Varco
