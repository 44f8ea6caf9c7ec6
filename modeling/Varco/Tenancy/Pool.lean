import Varco.Foundations.Dict
import Varco.Foundations.Python
import Varco.Foundations.Tasks
import Mathlib.Data.List.Sort
import Mathlib.Data.Finset.Basic

/-!
# The pool of tenant resources

`TenantResourcePool`: a dictionary of the resources of tenants with the number of leases on each.
A resource is the number of the call of the factory that returned it, and `disposed` are the
resources that were passed to the closer. A call is a task that is suspended at the locks, in the
factory, in the closer or in the body of a `lease` block; what it does from one such await to the
next is `resume`. Of the locks only whether they are held is kept: any of the tasks that wait for a
free lock may get it. No sweeper is started.
-/

namespace Varco

namespace TenantResourcePool

/-! ## The pool -/

/-- The arguments of the pool: `max_entries` and `idle_ttl_s`. -/
structure Config where
  maxEntries : ℤ
  idleTtl : ℚ

structure Entry where
  resource : ℕ
  lastUsed : ℚ
  refcount : ℤ := 0
  deriving DecidableEq

/-- `_entries`, the creation locks that are held, whether the pool lock is held, `_closed`; the
number of resources that the factory has returned, and those passed to the closer, in order. -/
structure State where
  entries : Dict String Entry := .empty
  creationLocks : Finset String := ∅
  poolLock : Bool := false
  closed : Bool := false
  made : ℕ := 0
  disposed : List ℕ := []

/-- The methods of the pool. -/
inductive Call
  | ensure (tenant : String)
  | lease (tenant : String)
  | evict (tenant : String)
  | sweep
  | aclose
  deriving DecidableEq

/-- Where a call is. `lease` says that an `ensure` is that of a `lease`, `shutdown` that resources
are closed by `aclose`; `returning` and `disposing` are gone through without an await. -/
inductive Phase
  | idle
  /-- `ensure` waits for the creation lock of the tenant. -/
  | creationLock (tenant : String) (lease : Bool)
  /-- `ensure` awaits the factory. -/
  | factory (tenant : String) (lease : Bool)
  /-- `ensure` waits for the pool lock with what the factory returned. -/
  | poolLock (tenant : String) (lease : Bool) (resource : ℕ)
  /-- `ensure` awaits the closer of the entry it has evicted. -/
  | evicting (tenant : String) (lease : Bool) (resource : ℕ)
  /-- `ensure` returns. -/
  | returning (tenant : String) (lease : Bool) (resource : ℕ)
  /-- The body of the `lease` block runs; `entry` is the resource of the entry that is counted. -/
  | leased (tenant : String) (resource entry : ℕ)
  /-- `evict` waits for the pool lock. -/
  | evictLock (tenant : String)
  /-- `sweep`, called at the time `called`, waits for the pool lock. -/
  | sweepLock (called : ℚ)
  /-- `aclose` waits for the pool lock. -/
  | acloseLock
  /-- These resources are to be closed. -/
  | disposing (resources : List ℕ) (shutdown : Bool)
  /-- A closer is awaited; these resources are to be closed next. -/
  | closing (resources : List ℕ) (shutdown : Bool)
  | returned
  /-- `aclose` has returned. -/
  | shutDown
  | raised (e : Exc)
  /-- `lease` found no entry for the tenant. -/
  | keyError (tenant : String)
  deriving DecidableEq

/-- `entry.last_used = time.monotonic(); return entry.resource`. -/
def touch (now : ℚ) (tenant : String) (lease : Bool) (entry : Entry) (s : State) : State × Phase :=
  ({ s with entries := s.entries.set tenant { entry with lastUsed := now } },
    .returning tenant lease entry.resource)

/-- `ensure` up to its first await. -/
def ensure (now : ℚ) (tenant : String) (lease : Bool) (s : State) : State × Phase :=
  match s.entries.get? tenant with
  | some entry => touch now tenant lease entry s
  | none => (s, .creationLock tenant lease)

/-- The entries that `_evict_if_over_capacity` may evict, least recently used first. -/
def idleEntries (exclude : String) (entries : Dict String Entry) : List (String × Entry) :=
  (entries.entries.filter fun p => decide (p.2.refcount = 0 ∧ p.1 ≠ exclude)).insertionSort
    fun p q => p.2.lastUsed ≤ q.2.lastUsed

/-- `_evict_if_over_capacity`: the entry that is evicted. -/
def overCapacity (cfg : Config) (exclude : String) (entries : Dict String Entry) :
    Option (String × Entry) :=
  if entries.entries.length ≤ cfg.maxEntries then none else (idleEntries exclude entries).head?

/-- The entries that `sweep` finds idle for too long. -/
def staleEntries (cfg : Config) (now : ℚ) (entries : Dict String Entry) : List (String × Entry) :=
  entries.entries.filter fun p => decide (p.2.refcount = 0 ∧ cfg.idleTtl < now - p.2.lastUsed)

/-- A new entry under the pool lock, which is kept while an evicted entry is closed. -/
def install (cfg : Config) (now : ℚ) (tenant : String) (lease : Bool) (resource : ℕ) (s : State) :
    State × Phase :=
  let entries := s.entries.set tenant { resource := resource, lastUsed := now }
  match overCapacity cfg tenant entries with
  | none =>
    ({ s with entries := entries, creationLocks := s.creationLocks.erase tenant },
      .returning tenant lease resource)
  | some (evicted, entry) =>
    ({ s with
        entries := entries.erase evicted, poolLock := true,
        disposed := s.disposed ++ [entry.resource] },
      .evicting tenant lease resource)

/-- The entries after `entry.refcount += change`, of an entry that may have been removed since. -/
def recount (change : ℤ) (tenant : String) (entry : ℕ) (entries : Dict String Entry) :
    Dict String Entry :=
  match entries.get? tenant with
  | none => entries
  | some found =>
    if found.resource = entry then
      entries.set tenant { found with refcount := found.refcount + change }
    else entries

/-- `entry.refcount += change`. -/
def count (change : ℤ) (tenant : String) (entry : ℕ) (s : State) : State :=
  { s with entries := recount change tenant entry s.entries }

/-- `evict` under the pool lock. -/
def evict (tenant : String) (s : State) : State × Phase :=
  match s.entries.get? tenant with
  | none => (s, .returned)
  | some entry =>
    if 0 < entry.refcount then (s, .returned)
    else ({ s with entries := s.entries.erase tenant }, .disposing [entry.resource] false)

/-- `sweep` under the pool lock. -/
def sweep (cfg : Config) (now : ℚ) (s : State) : State × Phase :=
  let stale := staleEntries cfg now s.entries
  ({ s with entries := (stale.map Prod.fst).foldl Dict.erase s.entries },
    .disposing (stale.map (·.2.resource)) false)

/-- `aclose` under the pool lock. -/
def aclose (s : State) : State × Phase :=
  ({ s with entries := .empty, closed := true },
    .disposing (s.entries.values.map (·.resource)) true)

def start (now : ℚ) (call : Call) (s : State) : State × Phase :=
  match call with
  | .ensure tenant => ensure now tenant false s
  | .lease tenant => ensure now tenant true s
  | .evict tenant => (s, .evictLock tenant)
  | .sweep => (s, .sweepLock now)
  | .aclose => if s.closed then (s, .shutDown) else (s, .acloseLock)

/-- What a call does when its await has ended with `r`; `none` while a lock that it waits for is
held. What a closer raises is only logged. -/
def resume (cfg : Config) (now : ℚ) (r : Except Exc Unit) (s : State) :
    Phase → Option (State × Phase)
  | .creationLock tenant lease =>
    if tenant ∈ s.creationLocks then none
    else match s.entries.get? tenant with
      | some entry => some (touch now tenant lease entry s)
      | none =>
        some ({ s with creationLocks := insert tenant s.creationLocks }, .factory tenant lease)
  | .factory tenant lease =>
    match r with
    | .ok () => some ({ s with made := s.made + 1 }, .poolLock tenant lease s.made)
    | .error e => some ({ s with creationLocks := s.creationLocks.erase tenant }, .raised e)
  | .poolLock tenant lease resource =>
    if s.poolLock then none else some (install cfg now tenant lease resource s)
  | .evicting tenant lease resource =>
    some ({ s with poolLock := false, creationLocks := s.creationLocks.erase tenant },
      .returning tenant lease resource)
  | .leased tenant _ entry =>
    match r with
    | .ok () => some (count (-1) tenant entry s, .returned)
    | .error e => some (count (-1) tenant entry s, .raised e)
  | .evictLock tenant => if s.poolLock then none else some (evict tenant s)
  | .sweepLock called => if s.poolLock then none else some (sweep cfg called s)
  | .acloseLock => if s.poolLock then none else some (aclose s)
  | .closing resources shutdown => some (s, .disposing resources shutdown)
  | _ => none

/-- On to the next await: `ensure` returns, to its caller or to `lease`, and the next resource is
passed to the closer. -/
def finish : State × Phase → State × Phase
  | (s, .returning _ false _) => (s, .returned)
  | (s, .returning tenant true resource) =>
    match s.entries.get? tenant with
    | none => (s, .keyError tenant)
    | some entry => (count 1 tenant entry.resource s, .leased tenant resource entry.resource)
  | (s, .disposing [] shutdown) => (s, if shutdown then .shutDown else .returned)
  | (s, .disposing (resource :: resources) shutdown) =>
    ({ s with disposed := s.disposed ++ [resource] }, .closing resources shutdown)
  | q => q

/-- A call is made, or its await ends. -/
inductive Input
  | call (c : Call)
  | resume (r : Except Exc Unit)
  deriving DecidableEq

/-- What a task does from one await to the next, when the clock shows `now`. -/
def next (cfg : Config) (a : ℚ × Input) (s : State) (p : Phase) : Option (State × Phase) :=
  match a.2, p with
  | .call c, .idle => some (finish (start a.1 c s))
  | .call _, _ => none
  | .resume r, p => (resume cfg a.1 r s p).map finish

abbrev Users (ι : Type) : Type := Tasks ι State Phase

def fresh (ι : Type) : Users ι := ⟨{}, fun _ => .idle⟩

abbrev Step {ι : Type} [DecidableEq ι] (cfg : Config) : Users ι → ι × ℚ × Input → Users ι → Prop :=
  Tasks.Step (next cfg)

end TenantResourcePool

end Varco
