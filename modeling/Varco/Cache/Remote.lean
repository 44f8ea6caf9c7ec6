import Varco.Foundations.Binary64
import Varco.Foundations.Dict
import Varco.Foundations.Expiring
import Varco.Foundations.Run
import Varco.Foundations.Text

/-!
# Caches on a server

`RedisCache` of `varco_redis.cache` and `MemcachedCache` of `varco_memcached.cache`, with an
`ExplicitStrategy` or without a strategy, used by one process one call after the other. The values
are those of JSON, whose serialization loses nothing; `none` is its `null`.

The servers are parameters where their documentation says what they do: `glob` is the matching of
`SCAN MATCH`. Memcached takes an `exptime` of more than `relativeLimit` seconds for a time since the
epoch. Instants are seconds since the epoch.

A `ReferenceCache` is what a cache is for: what was written under a key and not removed since.
-/

namespace Varco

/-! ## What a cache is for -/

/-- What was written under a key, when, and for how long. -/
structure Written (V : Type) where
  value : Option V
  time : ℚ
  ttl : Option ℚ

/-- What may be found: the value until its time has passed, and nothing one second after that. -/
def Written.Allows {V : Type} (w : Written V) (now : ℚ) (found : Option (Option V)) : Prop :=
  match w.ttl with
  | none => found = some w.value
  | some t =>
    (now < w.time + t → found = some w.value) ∧ (w.time + t + 1 ≤ now → found = none) ∧
      (found = some w.value ∨ found = none)

abbrev ReferenceCache (V : Type) := String → Option (Written V)

/-- `str.startswith` -/
def pyStartsWith (s start : String) : Bool := start.toList.isPrefixOf s.toList

/-- The calls of a `CacheBackend`, and `ExplicitStrategy.invalidate`. -/
inductive CacheCall (V : Type)
  | get (key : String)
  | getMany (keys : List String)
  | set (key : String) (value : Option V) (ttl : Option PyFloat)
  | setMany (items : Dict String (Option V)) (ttl : Option PyFloat)
  | delete (key : String)
  | deleteMany (keys : List String)
  | exists_ (key : String)
  | deletePrefix (start : String)
  | clear
  | invalidate (key : String)

/-- `CacheSettings`, with `key_prefix`. -/
structure CacheSettings where
  keyPrefix : String
  defaultTtl : Option PyFloat

def CacheSettings.fullKey (cfg : CacheSettings) (key : String) : String := cfg.keyPrefix ++ key

/-- `ttl if ttl is not None else self._settings.default_ttl` -/
def CacheSettings.effectiveTtl (cfg : CacheSettings) (ttl : Option PyFloat) : Option PyFloat :=
  ttl <|> cfg.defaultTtl

section

variable {V : Type}

namespace ReferenceCache

def write (r : ReferenceCache V) (key : String) (w : Written V) : ReferenceCache V :=
  Function.update r key (some w)

def remove (r : ReferenceCache V) (p : String → Bool) : ReferenceCache V :=
  fun key => if p key then none else r key

def Allows (r : ReferenceCache V) (now : ℚ) (key : String) (found : Option (Option V)) : Prop :=
  match r key with
  | none => found = none
  | some w => w.Allows now found

def after (cfg : CacheSettings) (r : ReferenceCache V) (now : ℚ) : CacheCall V → ReferenceCache V
  | .get _ | .getMany _ | .exists_ _ => r
  | .set key value ttl => r.write key ⟨value, now, (cfg.effectiveTtl ttl).map (·.val)⟩
  | .setMany items ttl => items.entries.foldl (fun r item =>
      r.write item.1 ⟨item.2, now, (cfg.effectiveTtl ttl).map (·.val)⟩) r
  | .delete key | .invalidate key => r.remove (· = key)
  | .deleteMany keys => r.remove (· ∈ keys)
  | .deletePrefix start => r.remove (pyStartsWith · start)
  | .clear => fun _ => none

end ReferenceCache

/-! ## What the two classes share -/

/-- The server, what `ExplicitStrategy` has marked (if there is one), `_key_registry`, and the time
of the last call. -/
structure RemoteCache (V : Type) where
  server : Expiring String (Option V) ℚ
  strategy : Option (List String)
  registry : List String := []
  time : ℚ
  /-- At the instant at which an entry expires, Redis finds it, and Memcached does not. -/
  findsExpiring : Bool

namespace RemoteCache

/-- What the server has under a key. -/
def found (s : RemoteCache V) (now : ℚ) (k : String) : Option (Option V) :=
  ((s.server.live now k).filter fun entry => s.findsExpiring || entry.2.all (now < ·)).map Prod.fst

/-- `self._strategy is not None and self._strategy.should_invalidate(key, {})` -/
def shouldInvalidate (s : RemoteCache V) (key : String) : Bool := s.strategy.any (key ∈ ·)

/-- The body of both `get`. -/
def get (cfg : CacheSettings) (s : RemoteCache V) (now : ℚ) (key : String) :
    Option V × RemoteCache V :=
  if s.shouldInvalidate key then (none, { s with server := s.server.del (cfg.fullKey key) })
  else ((s.found now (cfg.fullKey key)).join, s)

/-- The body of both `get_many`. -/
def getMany (cfg : CacheSettings) (s : RemoteCache V) (now : ℚ) (keys : List String) :
    Dict String (Option V) :=
  keys.foldl (fun result key =>
    match s.found now (cfg.fullKey key) with
    | none => result
    | some value => result.set key value) Dict.empty

/-- The body of both `exists`. -/
def exists_ (cfg : CacheSettings) (s : RemoteCache V) (now : ℚ) (key : String) : Bool :=
  !s.shouldInvalidate key && (s.found now (cfg.fullKey key)).isSome

/-- `ExplicitStrategy.invalidate` -/
def invalidate (s : RemoteCache V) (key : String) : RemoteCache V :=
  { s with strategy := s.strategy.map (key :: ·) }

end RemoteCache

/-! ## Redis -/

namespace RedisCache

/-- The milliseconds of a `ttl`, with the error of `method`. -/
def milliseconds (method : String) (ttl : PyFloat) : Except PyException ℤ :=
  match Binary64.nearest (ttl.val * 1000) with
  | .finite q =>
    let ms := roundHalfEven q.num q.den
    if ms ≤ 0 then
      .error (.valueError ("RedisCache." ++ method ++ "(): ttl=" ++ ttl.repr ++ " rounds to " ++
        toString ms ++ "ms, which Redis rejects as an expire time. Use a positive ttl or " ++
        "ttl=None for no expiry."))
    else .ok ms
  | _ => .error ⟨"OverflowError", "cannot convert float infinity to integer"⟩

/-- The milliseconds of the effective `ttl`, if there is one. -/
def expireTime (cfg : CacheSettings) (method : String) (ttl : Option PyFloat) :
    Except PyException (Option ℤ) :=
  match cfg.effectiveTtl ttl with
  | none => .ok none
  | some t => (milliseconds method t).map some

/-- `PSETEX`, or `SET`. -/
def store (cfg : CacheSettings) (s : RemoteCache V) (now : ℚ) (key : String) (value : Option V)
    (ms : Option ℤ) : RemoteCache V :=
  { s with server := s.server.put (cfg.fullKey key) (value, ms.map fun ms => now + ms / 1000) }

def set (cfg : CacheSettings) (s : RemoteCache V) (now : ℚ) (key : String) (value : Option V)
    (ttl : Option PyFloat) : Except PyException (RemoteCache V) :=
  (expireTime cfg "set" ttl).map (store cfg s now key value)

/-- `set_many`, with the pipeline. -/
def setMany (cfg : CacheSettings) (s : RemoteCache V) (now : ℚ) (items : Dict String (Option V))
    (ttl : Option PyFloat) : Except PyException (RemoteCache V) :=
  if items.entries = [] then .ok s
  else (expireTime cfg "set_many" ttl).map fun ms =>
    items.entries.foldl (fun s item => store cfg s now item.1 item.2 ms) s

def delete (cfg : CacheSettings) (s : RemoteCache V) (key : String) : RemoteCache V :=
  { s with server := s.server.del (cfg.fullKey key) }

/-- `delete_many`, with `UNLINK`. -/
def deleteMany (cfg : CacheSettings) (s : RemoteCache V) (keys : List String) : RemoteCache V :=
  { s with server := ⟨fun k => if k ∈ keys.map cfg.fullKey then none else s.server.entries k⟩ }

def scanAndDelete (glob : String → String → Bool) (s : RemoteCache V) (pattern : String) :
    RemoteCache V :=
  { s with server := ⟨fun k => if glob pattern k then none else s.server.entries k⟩ }

def clear (glob : String → String → Bool) (cfg : CacheSettings) (s : RemoteCache V) :
    RemoteCache V :=
  scanAndDelete glob s (cfg.keyPrefix ++ "*")

def deletePrefix (glob : String → String → Bool) (cfg : CacheSettings) (s : RemoteCache V)
    (start : String) : RemoteCache V :=
  scanAndDelete glob s (cfg.keyPrefix ++ start ++ "*")

def call (glob : String → String → Bool) (cfg : CacheSettings) (s : RemoteCache V) (now : ℚ) :
    CacheCall V → Except PyException (RemoteCache V)
  | .get key => .ok (s.get cfg now key).2
  | .getMany _ | .exists_ _ => .ok s
  | .set key value ttl => set cfg s now key value ttl
  | .setMany items ttl => setMany cfg s now items ttl
  | .delete key => .ok (delete cfg s key)
  | .deleteMany keys => .ok (deleteMany cfg s keys)
  | .deletePrefix start => .ok (deletePrefix glob cfg s start)
  | .clear => .ok (clear glob cfg s)
  | .invalidate key => .ok (s.invalidate key)

end RedisCache

/-! ## Memcached -/

namespace MemcachedCache

/-- The seconds up to which an `exptime` counts from now. -/
def relativeLimit : ℤ := 2592000

/-- `math.ceil(effective_ttl)`, or 0 for no expiry. -/
def exptime (cfg : CacheSettings) (ttl : Option PyFloat) : ℤ :=
  match cfg.effectiveTtl ttl with
  | none => 0
  | some t => if 0 < t.val then ⌈t.val⌉ else 0

def expiry (now : ℚ) (exptime : ℤ) : Option ℚ :=
  if exptime = 0 then none
  else if exptime ≤ relativeLimit then some (now + exptime)
  else some exptime

def set (cfg : CacheSettings) (s : RemoteCache V) (now : ℚ) (key : String) (value : Option V)
    (ttl : Option PyFloat) : RemoteCache V :=
  { s with
    server := s.server.put (cfg.fullKey key) (value, expiry now (exptime cfg ttl))
    registry := s.registry.insert key }

def validateMcKey (cfg : CacheSettings) (original : String) : Except PyException Unit :=
  let mcKey := (cfg.fullKey original).toUTF8.data.toList
  if 250 < mcKey.length then
    .error (.valueError ("MemcachedCache: key " ++ pyRepr original ++ " encodes to " ++
      toString mcKey.length ++ " bytes, exceeding Memcached's 250-byte key limit."))
  else if mcKey.any fun b => b ≤ 0x20 || b == 0x7F then
    .error (.valueError ("MemcachedCache: key " ++ pyRepr original ++
      " contains whitespace or a control character, which Memcached does not permit."))
  else .ok ()

def setMany (cfg : CacheSettings) (s : RemoteCache V) (now : ℚ) (items : Dict String (Option V))
    (ttl : Option PyFloat) : Except PyException (RemoteCache V) := do
  items.entries.forM fun item => validateMcKey cfg item.1
  return items.entries.foldl (fun s item => set cfg s now item.1 item.2 ttl) s

def delete (cfg : CacheSettings) (s : RemoteCache V) (key : String) : RemoteCache V :=
  { s with server := s.server.del (cfg.fullKey key), registry := s.registry.erase key }

def deleteMany (cfg : CacheSettings) (s : RemoteCache V) (keys : List String) : RemoteCache V :=
  keys.foldl (delete cfg) s

def deletePrefix (cfg : CacheSettings) (s : RemoteCache V) (start : String) : RemoteCache V :=
  (s.registry.filter (pyStartsWith · start)).foldl (delete cfg) s

def clear (cfg : CacheSettings) (s : RemoteCache V) : RemoteCache V :=
  s.registry.foldl (delete cfg) s

def call (cfg : CacheSettings) (s : RemoteCache V) (now : ℚ) :
    CacheCall V → Except PyException (RemoteCache V)
  | .get key => .ok (s.get cfg now key).2
  | .getMany _ | .exists_ _ => .ok s
  | .set key value ttl => .ok (set cfg s now key value ttl)
  | .setMany items ttl => setMany cfg s now items ttl
  | .delete key => .ok (delete cfg s key)
  | .deleteMany keys => .ok (deleteMany cfg s keys)
  | .deletePrefix start => .ok (deletePrefix cfg s start)
  | .clear => .ok (clear cfg s)
  | .invalidate key => .ok (s.invalidate key)

end MemcachedCache

end

end Varco
