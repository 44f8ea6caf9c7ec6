import Mathlib.Algebra.Order.Ring.Rat
import Varco.Foundations.Tasks

/-!
# The registry of trusted issuers

`TrustedIssuerRegistry` with `ttl_seconds = 0`: the cached keysets of its entries, and how a key is
resolved. Any of the calls that wait for the lock may get it while it is free. Nothing is registered
or loaded meanwhile.
-/

namespace Varco

/-- `JsonWebKey`: its `kid`, and all else that it consists of. -/
structure JsonWebKey (K : Type) where
  kid : Option String
  key : K
  deriving DecidableEq

abbrev JsonWebKeySet (K : Type) : Type := List (JsonWebKey K)

def JsonWebKeySet.findByKid {K : Type} (keys : JsonWebKeySet K) (kid : String) :
    Option (JsonWebKey K) :=
  keys.find? fun key => key.kid = some kid

namespace TrustedIssuerRegistry

variable {K : Type}

/-- `min_refresh_interval`. -/
structure Config where
  minRefreshInterval : ℚ

/-- A refresh of the sources starts or ends. -/
inductive Refresh
  | started (time : ℚ)
  | ended (time : ℚ)
  deriving DecidableEq

def Refresh.time : Refresh → ℚ
  | .started time | .ended time => time

/-- The cached keysets in the order of registration, `_last_refresh`, whether the lock is held, and
the time; when refreshes have started and ended, and the keys that the last one brought in. -/
structure State (K : Type) where
  keysets : List (Option (JsonWebKeySet K))
  lastRefresh : ℚ := 0
  locked : Bool := false
  clock : ℚ := 0
  refreshes : List Refresh := []
  brought : List (JsonWebKey K) := []

/-- `get_key`, or `verify` of a token with this `kid` in its header. -/
inductive Call
  | getKey (kid : String)
  | verify (kid : Option String)
  deriving DecidableEq

/-- Where a call is. `tested` is what `_last_refresh` was at the call's test of the interval. -/
inductive Phase (K : Type)
  | idle
  /-- It waits for the lock. -/
  | waiting (kid : String) (tested : ℚ)
  /-- It holds the lock and awaits the sources. -/
  | refreshing (kid : String)
  /-- `_resolve_key` has returned, with a key and the number of its entry. -/
  | resolved (kid : String) (found : Option (JsonWebKey K × ℕ))
  /-- `verify` has found no `kid` in the header. -/
  | unknownKid
  deriving DecidableEq

/-- `TrustedIssuerEntry.find_key`. -/
def findKey (kid : String) (keyset : Option (JsonWebKeySet K)) : Option (JsonWebKey K) :=
  keyset.bind fun keys => keys.findByKid kid

/-- `_search_caches_with_entry`. -/
def searchCaches (kid : String) (keysets : List (Option (JsonWebKeySet K))) :
    Option (JsonWebKey K × ℕ) :=
  keysets.zipIdx.findSome? fun entry => (findKey kid entry.1).map (·, entry.2)

/-- `_resolve_key` up to the lock. -/
def resolveKey (cfg : Config) (kid : String) (s : State K) : Phase K :=
  match searchCaches kid s.keysets with
  | some found => .resolved kid (some found)
  | none =>
    if s.clock - s.lastRefresh < cfg.minRefreshInterval then .resolved kid none
    else .waiting kid s.lastRefresh

/-- `_resolve_key` under the lock. -/
def acquire (kid : String) (s : State K) : State K × Phase K :=
  match searchCaches kid s.keysets with
  | some found => (s, .resolved kid (some found))
  | none =>
    ({ s with locked := true, refreshes := s.refreshes ++ [.started s.clock] }, .refreshing kid)

/-- `_refresh_all_sources` after the sources: a source that has failed keeps its keyset. -/
def refreshed (results : List (Option (JsonWebKeySet K))) (s : State K) : State K :=
  { s with
    keysets := List.zipWith Option.or results s.keysets
    lastRefresh := s.clock
    locked := false
    refreshes := s.refreshes ++ [.ended s.clock]
    brought := results.reduceOption.flatten }

/-- A call is made, or gets the lock, or its sources have answered. -/
inductive Input (K : Type)
  | call (c : Call)
  | acquire
  | refreshed (results : List (Option (JsonWebKeySet K)))
  deriving DecidableEq

def act (cfg : Config) (x : Input K) (s : State K) (p : Phase K) : Option (State K × Phase K) :=
  match x, p with
  | .call (.getKey kid), .idle => some (s, resolveKey cfg kid s)
  | .call (.verify (some kid)), .idle => some (s, resolveKey cfg kid s)
  | .call (.verify none), .idle => some (s, .unknownKid)
  | .acquire, .waiting kid _ => if s.locked then none else some (acquire kid s)
  | .refreshed results, .refreshing kid =>
    if results.length = s.keysets.length then
      some (refreshed results s, .resolved kid (searchCaches kid (refreshed results s).keysets))
    else none
  | _, _ => none

/-- One step, at the time `a.1`. -/
def next (cfg : Config) (a : ℚ × Input K) (s : State K) (p : Phase K) :
    Option (State K × Phase K) :=
  if a.1 < s.clock then none else act cfg a.2 { s with clock := a.1 } p

abbrev Callers (ι K : Type) : Type := Tasks ι (State K) (Phase K)

/-- A registry with these keysets, last loaded or refreshed at `lastRefresh`. -/
def fresh (ι : Type) (keysets : List (Option (JsonWebKeySet K))) (lastRefresh : ℚ) :
    Callers ι K :=
  ⟨{ keysets := keysets, lastRefresh := lastRefresh, clock := lastRefresh }, fun _ => .idle⟩

abbrev Step {ι : Type} [DecidableEq ι] (cfg : Config) :
    Callers ι K → ι × ℚ × Input K → Callers ι K → Prop :=
  Tasks.Step (next cfg)

end TrustedIssuerRegistry

end Varco
