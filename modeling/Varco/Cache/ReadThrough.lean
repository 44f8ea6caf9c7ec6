import Mathlib.Algebra.Order.Ring.Rat
import Varco.Foundations.Dict
import Varco.Foundations.Python

/-!
# Read-through

`CachePolicy` of `varco_core.cache.policy`, the envelope of `varco_core.cache.envelope`, and the two
read-through algorithms of `varco_core.cache.readthrough`: `read_through` for one key, and
`read_through_many` for several with one call of a batch loader.

Each call runs on its own. A lone call leads its flights, so `singleflight.do` runs its loader; a
background refresh is kept in a list and run after the call. The clock and the random fraction of
the jitter do not change during a call.
-/

namespace Varco

/-! ## Values -/

/-- The values that a cache holds. -/
inductive PyValue
  | none
  | bool (b : Bool)
  | num (q : ℚ)
  | str (s : String)
  | list (items : List PyValue)
  | dict (items : List (String × PyValue))

namespace PyValue

/-- `value is None` -/
def isNone : PyValue → Bool
  | .none => true
  | _ => false

/-- `bool(value)` -/
def truthy : PyValue → Bool
  | .none => false
  | .bool b => b
  | .num q => q ≠ 0
  | .str s => s ≠ ""
  | .list items => !items.isEmpty
  | .dict items => !items.isEmpty

/-- `value == 1` -/
def isOne : PyValue → Bool
  | .bool b => b
  | .num q => q = 1
  | _ => false

def time? : PyValue → Option ℚ
  | .num q => some q
  | _ => Option.none

def ofTime : Option ℚ → PyValue
  | Option.none => .none
  | some q => .num q

end PyValue

/-! ## The policy -/

inductive RefreshMode
  | background
  | blocking
  deriving DecidableEq

/-- `CachePolicy`, less its name: a value of it has passed `__post_init__`. -/
structure CachePolicy where
  ttl : Option PyFloat := none
  ttlJitter : PyFloat := ⟨0, "0.0"⟩
  softTtl : Option PyFloat := none
  negativeTtl : Option PyFloat := none
  staleIfError : Option PyFloat := none
  singleflight : Bool := false
  refreshMode : RefreshMode := .background
  jitter_range : 0 ≤ ttlJitter.val ∧ ttlJitter.val < 1 := by decide +kernel
  soft_lt : ∀ soft ∈ softTtl, ∀ hard ∈ ttl, soft.val < hard.val := by decide +kernel
  ttl_of_stale : staleIfError ≠ none → ttl ≠ none := by decide +kernel

namespace CachePolicy

def requiresEnvelope (policy : CachePolicy) : Bool :=
  policy.softTtl.isSome || policy.negativeTtl.isSome || policy.staleIfError.isSome

/-- `effective_ttl()`, where `random` is the fraction that `random.uniform` draws. -/
def effectiveTtl (policy : CachePolicy) (random : ℚ) : Option ℚ :=
  policy.ttl.map fun ttl =>
    if policy.ttlJitter.val = 0 then ttl.val
    else
      let low := ttl.val * (1 - policy.ttlJitter.val)
      let high := ttl.val * (1 + policy.ttlJitter.val)
      low + (high - low) * random

end CachePolicy

/-! ## The envelope -/

structure CacheEnvelope where
  value : PyValue
  storedAt : ℚ
  softExpiresAt : Option ℚ
  hardExpiresAt : Option ℚ
  isNegative : Bool

namespace CacheEnvelope

def marker : String := "__varco_cache__"

def wrap (env : CacheEnvelope) : PyValue :=
  .dict [(marker, .num 1), ("v", env.value), ("sa", .num env.storedAt),
    ("se", .ofTime env.softExpiresAt), ("he", .ofTime env.hardExpiresAt),
    ("neg", .bool env.isNegative)]

/-- `payload.get(name)` -/
def field (items : List (String × PyValue)) (name : String) : PyValue :=
  (items.lookup name).getD .none

/-- `unwrap`. A timestamp that is not a number, which `wrap` does not write, is read as none. -/
def unwrap : PyValue → Option CacheEnvelope
  | .dict items =>
    if (field items marker).isOne then
      some { value := field items "v"
             storedAt := (field items "sa").time?.getD 0
             softExpiresAt := (field items "se").time?
             hardExpiresAt := (field items "he").time?
             isNegative := (field items "neg").truthy }
    else none
  | _ => none

@[simp] theorem time?_num (q : ℚ) : (PyValue.num q).time? = some q := rfl

@[simp] theorem time?_ofTime (t : Option ℚ) : (PyValue.ofTime t).time? = t := by
  cases t <;> rfl

theorem unwrap_wrap (env : CacheEnvelope) : unwrap env.wrap = some env := by
  obtain ⟨value, storedAt, soft, hard, neg⟩ := env
  simp [wrap, unwrap, field, marker, List.lookup_cons, PyValue.isOne, PyValue.truthy]

/-- `env.hard_expires_at is not None and now >= env.hard_expires_at` -/
def hardExpired (env : CacheEnvelope) (now : ℚ) : Bool := env.hardExpiresAt.any (· ≤ now)

/-- `env.soft_expires_at is not None and now >= env.soft_expires_at` -/
def softExpired (env : CacheEnvelope) (now : ℚ) : Bool := env.softExpiresAt.any (· ≤ now)

end CacheEnvelope

/-! ## The cache and the call -/

/-- What is stored under a key, and the time to live it was stored with. -/
structure CacheItem where
  payload : PyValue
  ttl : Option ℚ

/-- The entries of the cache, and the keys that are to be refreshed in the background. -/
structure ReadWorld where
  store : String → Option CacheItem
  refreshes : List String := []

/-- What a call is given: the policy, whether there is a `Singleflight` and whether the cache is a
`BulkCache`; how the backend and `coerce` apply the type hint; the clock and the random fraction. -/
structure ReadContext where
  policy : CachePolicy
  singleflight : Bool := false
  bulkCache : Bool := true
  decode : PyValue → PyValue := id
  coerce : PyValue → PyValue := id
  now : ℚ
  random : ℚ := 0

namespace ReadContext

/-- `cache.get(key, type_hint=get_type_hint)` -/
def get (c : ReadContext) (w : ReadWorld) (key : String) : PyValue :=
  match w.store key with
  | none => .none
  | some item => if c.policy.requiresEnvelope then item.payload else c.decode item.payload

/-- `cache.set(key, value, ttl=ttl)` -/
def set (w : ReadWorld) (key : String) (value : PyValue) (ttl : Option ℚ) : ReadWorld :=
  { w with store := Function.update w.store key (some ⟨value, ttl⟩) }

/-- `singleflight.spawn_refresh(key, ...)` -/
def spawnRefresh (w : ReadWorld) (key : String) : ReadWorld :=
  { w with refreshes := w.refreshes ++ [key] }

def store (c : ReadContext) (w : ReadWorld) (key : String) (value : PyValue) : ReadWorld :=
  if c.policy.requiresEnvelope then
    if value.isNone then
      match c.policy.negativeTtl with
      | none => w
      | some negativeTtl =>
        set w key (CacheEnvelope.wrap ⟨.none, c.now, none, some (c.now + negativeTtl.val), true⟩)
          (some negativeTtl.val)
    else
      let hardTtl := c.policy.effectiveTtl c.random
      let hardExpiresAt := hardTtl.map (c.now + ·)
      let softExpiresAt := c.policy.softTtl.map (c.now + ·.val)
      let backendTtl := match c.policy.staleIfError, hardTtl with
        | some staleIfError, some hardTtl => some (hardTtl + staleIfError.val)
        | _, _ => hardTtl
      set w key (CacheEnvelope.wrap ⟨value, c.now, softExpiresAt, hardExpiresAt, false⟩) backendTtl
  else if value.isNone then w
  else set w key value (c.policy.effectiveTtl c.random)

def loadAndStore (c : ReadContext) (load : String → Except Exc PyValue) (w : ReadWorld)
    (key : String) : Except Exc PyValue × ReadWorld :=
  match load key with
  | .error exc => (.error exc, w)
  | .ok result => (.ok result, c.store w key result)

/-! ## One key -/

def serveStaleAndRefresh (c : ReadContext) (load : String → Except Exc PyValue) (w : ReadWorld)
    (key : String) (staleValue : PyValue) : Except Exc PyValue × ReadWorld :=
  if c.policy.refreshMode = .blocking && c.singleflight then c.loadAndStore load w key
  else if c.singleflight then (.ok staleValue, spawnRefresh w key)
  else (.ok staleValue, w)

def fallback (c : ReadContext) (staleEnv : Option CacheEnvelope) : Option PyValue :=
  match c.policy.staleIfError, staleEnv with
  | some staleIfError, some env =>
    match env.isNegative, env.hardExpiresAt with
    | false, some hardExpiresAt =>
      if c.now - hardExpiresAt ≤ staleIfError.val then some (c.coerce env.value) else none
    | _, _ => none
  | _, _ => none

/-- `_compute`: whether a flight is led or not, the loader runs. -/
def compute (c : ReadContext) (load : String → Except Exc PyValue) (w : ReadWorld) (key : String)
    (staleEnv : Option CacheEnvelope) : Except Exc PyValue × ReadWorld :=
  match c.loadAndStore load w key with
  | (.error (.error exc), w') =>
    match c.fallback staleEnv with
    | some value => (.ok value, w')
    | none => (.error (.error exc), w')
  | out => out

def readThrough (c : ReadContext) (load : String → Except Exc PyValue) (w : ReadWorld)
    (key : String) : Except Exc PyValue × ReadWorld :=
  let raw := c.get w key
  if raw.isNone then c.compute load w key none
  else
    match CacheEnvelope.unwrap raw with
    | none => (.ok raw, w)
    | some env =>
      if env.isNegative then
        if env.hardExpired c.now then c.compute load w key (some env) else (.ok .none, w)
      else if env.hardExpired c.now then c.compute load w key (some env)
      else
        let value := c.coerce env.value
        if env.softExpired c.now then c.serveStaleAndRefresh load w key value
        else (.ok value, w)

/-! ## Several keys -/

/-- A batch loader: a key that it leaves out is `None`. -/
abbrev BatchLoader := List String → Except Exc (Dict String PyValue)

/-- `batch.get(key)` -/
def batchGet (batch : Dict String PyValue) (key : String) : PyValue := (batch.get? key).getD .none

def loadOneAndStore (c : ReadContext) (loader : BatchLoader) (w : ReadWorld) (key : String) :
    Except Exc PyValue × ReadWorld :=
  match loader [key] with
  | .error exc => (.error exc, w)
  | .ok batch => (.ok (batchGet batch key), c.store w key (batchGet batch key))

def storeMany (c : ReadContext) (w : ReadWorld) (items : List (String × PyValue)) : ReadWorld :=
  if c.policy.requiresEnvelope then items.foldl (fun w p => c.store w p.1 p.2) w
  else
    let toSet := items.filter fun p => !p.2.isNone
    if c.bulkCache then
      let ttl := c.policy.effectiveTtl c.random
      toSet.foldl (fun w p => set w p.1 p.2 ttl) w
    else toSet.foldl (fun w p => set w p.1 p.2 (c.policy.effectiveTtl c.random)) w

/-- The hits, and the keys that are missing. -/
structure Scan where
  result : Dict String PyValue := .empty
  missing : List String := []

def scan (c : ReadContext) (rawMap : Dict String PyValue) :
    List String → Scan → ReadWorld → Scan × ReadWorld
  | [], found, w => (found, w)
  | k :: keys, found, w =>
    match rawMap.get? k with
    | none => scan c rawMap keys { found with missing := found.missing ++ [k] } w
    | some raw =>
      match CacheEnvelope.unwrap raw with
      | none => scan c rawMap keys { found with result := found.result.set k raw } w
      | some env =>
        if env.isNegative then
          if env.hardExpired c.now then
            scan c rawMap keys { found with missing := found.missing ++ [k] } w
          else scan c rawMap keys { found with result := found.result.set k .none } w
        else if env.hardExpired c.now then
          scan c rawMap keys { found with missing := found.missing ++ [k] } w
        else
          let value := c.coerce env.value
          if env.softExpired c.now then
            scan c rawMap keys { found with result := found.result.set k value }
              (if c.singleflight then spawnRefresh w k else w)
          else scan c rawMap keys { found with result := found.result.set k value } w

/-- `get_many(keys)`, and the loop over `get` for a cache without it. -/
def getMany (c : ReadContext) (w : ReadWorld) (keys : List String) : Dict String PyValue :=
  keys.foldl (fun m k => if (c.get w k).isNone then m else m.set k (c.get w k)) .empty

/-- What one flight of a batch does: it takes its value from the batch and stores it. -/
def wrapper (c : ReadContext) (batch : Except Exc (Dict String PyValue)) (w : ReadWorld)
    (key : String) : Except Exc PyValue × ReadWorld :=
  match batch with
  | .error exc => (.error exc, w)
  | .ok batch => (.ok (batchGet batch key), c.store w key (batchGet batch key))

def flights (c : ReadContext) (batch : Except Exc (Dict String PyValue)) :
    List String → ReadWorld → List (Except Exc PyValue) × ReadWorld
  | [], w => ([], w)
  | k :: keys, w =>
    let out := c.wrapper batch w k
    let rest := flights c batch keys out.2
    (out.1 :: rest.1, rest.2)

/-- The values of the flights, or what the first one that failed has raised. -/
def collect : List String → List (Except Exc PyValue) → Dict String PyValue →
    Except Exc (Dict String PyValue)
  | k :: keys, .ok value :: outcomes, result => collect keys outcomes (result.set k value)
  | _, .error exc :: _, _ => .error exc
  | _, _, result => .ok result

def readThroughMany (c : ReadContext) (loader : BatchLoader) (w : ReadWorld) (keys : List String) :
    Except Exc (Dict String PyValue) × ReadWorld :=
  if keys.isEmpty then (.ok .empty, w)
  else
    let (found, w') := c.scan (c.getMany w keys) keys {} w
    if found.missing.isEmpty then (.ok found.result, w')
    else if c.singleflight && c.policy.singleflight then
      let (outcomes, w'') := c.flights (loader found.missing) found.missing w'
      (collect found.missing outcomes found.result, w'')
    else
      match loader found.missing with
      | .error exc => (.error exc, w')
      | .ok batch =>
        let values := found.missing.map fun k => (k, batchGet batch k)
        (.ok (values.foldl (fun result p => result.set p.1 p.2) found.result),
          c.storeMany w' values)

/-! ## The refreshes -/

def drain (refresh : ReadWorld → String → Except Exc PyValue × ReadWorld) (w : ReadWorld) :
    ReadWorld :=
  w.refreshes.foldl (fun w key => (refresh w key).2) { w with refreshes := [] }

end ReadContext

end Varco
