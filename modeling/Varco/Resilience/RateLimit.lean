import Mathlib.Data.Int.Log
import Mathlib.Data.Rat.Floor
import Mathlib.Data.String.Basic
import Varco.Foundations.Dict
import Varco.Foundations.Python
import Varco.Foundations.SortedSet

/-!
# Rate limiters

`InMemoryRateLimiter` of `varco_core.resilience.rate_limit` and `RedisRateLimiter` of
`varco_redis.rate_limit`, with the Lua scripts of the latter, and the limiter that both are meant to
be (`SlidingWindow`): a call is granted if fewer than `rate` calls were granted in the last `period`
seconds. Calls come one after the other, so the locks of the former are left out.

Times are rational numbers of seconds since the epoch, and arithmetic on them is exact. What a Lua
number loses when it is written as text is modelled (`luaText`).
-/

namespace Varco

/-! ## Configuration -/

structure RateLimitConfig where
  rate : ℕ
  period : PyFloat
  rate_pos : 1 ≤ rate
  period_pos : 0 < period.val

/-- A call of a limiter. For Redis, a call of `acquire` has drawn the name of its member. -/
inductive LimiterCall
  | acquire (key member : String)
  | reset (key : String)
  | retryAfter (key : String)

/-- A call at a time, in seconds since the epoch. -/
structure TimedCall where
  time : ℚ
  call : LimiterCall
  time_nonneg : 0 ≤ time

/-- What a call answers. -/
inductive LimiterAnswer
  | granted (allowed : Bool)
  | done
  | wait (seconds : ℚ)
  deriving DecidableEq

def answers {σ : Type} (step : σ → TimedCall → LimiterAnswer × σ) :
    σ → List TimedCall → List LimiterAnswer
  | _, [] => []
  | s, c :: l => (step s c).1 :: answers step (step s c).2 l

/-! ## What both are meant to be -/

namespace SlidingWindow

/-- The calls that were granted in the last `period` seconds. -/
def recent (config : RateLimitConfig) (now : ℚ) (granted : List ℚ) : List ℚ :=
  granted.filter (now - config.period.val < ·)

def wait (config : RateLimitConfig) (now : ℚ) (granted : List ℚ) : ℚ :=
  if (recent config now granted).length < config.rate then 0
  else (recent config now granted).head?.elim 0 fun oldest => oldest + config.period.val - now

/-- A call, given the times at which the calls for each key were granted. -/
def step (config : RateLimitConfig) (granted : String → List ℚ) (c : TimedCall) :
    LimiterAnswer × (String → List ℚ) :=
  match c.call with
  | .acquire key _ =>
    if (recent config c.time (granted key)).length < config.rate then
      (.granted true, Function.update granted key (granted key ++ [c.time]))
    else (.granted false, granted)
  | .reset key => (.done, Function.update granted key [])
  | .retryAfter key => (.wait (wait config c.time (granted key)), granted)

end SlidingWindow

/-! ## `InMemoryRateLimiter` -/

namespace InMemoryRateLimiter

/-- `self._windows` -/
abbrev Windows := Dict String (List ℚ)

/-- `window.append(now)` for a `deque(maxlen=maxlen)`. -/
def append (maxlen : ℕ) (window : List ℚ) (now : ℚ) : List ℚ :=
  (window ++ [now]).drop (window.length + 1 - maxlen)

def getWindow (windows : Windows) (key : String) : List ℚ × Windows :=
  match windows.get? key with
  | none => ([], windows.set key [])
  | some window => (window, windows)

def acquire (config : RateLimitConfig) (now : ℚ) (key : String) (windows : Windows) :
    Bool × Windows :=
  let (window, windows) := getWindow windows key
  if window.length < config.rate then
    (true, windows.set key (append config.rate window now))
  else
    -- the deque is full, so it has an oldest call
    let oldest := window.head?.getD now
    if config.period.val ≤ now - oldest then
      (true, windows.set key (append config.rate window now))
    else (false, windows)

def retryAfter (config : RateLimitConfig) (now : ℚ) (key : String) (windows : Windows) : ℚ :=
  match windows.get? key with
  | none => 0
  | some window =>
    if window.length < config.rate then 0
    else
      let oldest := window.head?.getD now
      let remaining := config.period.val - (now - oldest)
      max 0 remaining

def step (config : RateLimitConfig) (windows : Windows) (c : TimedCall) :
    LimiterAnswer × Windows :=
  match c.call with
  | .acquire key _ =>
    let out := acquire config c.time key windows
    (.granted out.1, out.2)
  | .reset key => (.done, windows.erase key)
  | .retryAfter key => (.wait (retryAfter config c.time key windows), windows)

end InMemoryRateLimiter

/-! ## `RedisRateLimiter` -/

/-- The nearest number with `n` significant digits, and of two the one with an even last digit. -/
def significant (n : ℕ) (x : ℚ) : ℚ :=
  if x = 0 then 0
  else
    let scale : ℚ := 10 ^ (n - 1 - Int.log 10 |x|)
    let scaled := x * scale
    roundHalfEven scaled.num scaled.den / scale

/-- The number that `tostring(x)` is the text of: Lua writes a number as `%.14g`. -/
def luaText (x : ℚ) : ℚ := significant 14 x

namespace RedisRateLimiter

abbrev Server := SortedKeys String ℚ String

open SortedKeys

/-- `_SLIDING_WINDOW_SCRIPT`, run at the time `now`. -/
def slidingWindowScript (key : String) (now windowLow : ℚ) (rate : ℕ) (member : String) (ttl : ℤ)
    (server : Server) : ℕ × Server :=
  let server := zremrangebyscore server now key 0 windowLow
  let count := zcard server now key
  if count < rate then
    let server := zadd server now key now member
    let server := expireat server now key (now + ttl)
    (1, server)
  else (0, server)

/-- `_RETRY_AFTER_SCRIPT`, run at the time `now`. -/
def retryAfterScript (key : String) (now windowLow : ℚ) (rate : ℕ) (period : ℚ) (server : Server) :
    ℚ × Server :=
  let server := zremrangebyscore server now key 0 windowLow
  let count := zcard server now key
  if count < rate then (0, server)
  else
    match zrangeOldest server now key with
    | none => (0, server)
    | some oldest =>
      let wait := oldest + period - now
      if wait < 0 then (0, server) else (luaText wait, server)

/-- `_key` -/
def redisKey (channelPrefix key : String) : String := channelPrefix ++ "rl:" ++ key

def acquire (config : RateLimitConfig) (channelPrefix : String) (now : ℚ) (key member : String)
    (server : Server) : Bool × Server :=
  let windowLow := now - config.period.val
  let ttl := ⌊config.period.val⌋ + 1
  let out := slidingWindowScript (redisKey channelPrefix key) now windowLow config.rate member ttl
    server
  (out.1 ≠ 0, out.2)

def retryAfter (config : RateLimitConfig) (channelPrefix : String) (now : ℚ) (key : String)
    (server : Server) : ℚ × Server :=
  let windowLow := now - config.period.val
  let out := retryAfterScript (redisKey channelPrefix key) now windowLow config.rate
    config.period.val server
  (max 0 out.1, out.2)

def step (config : RateLimitConfig) (channelPrefix : String) (server : Server) (c : TimedCall) :
    LimiterAnswer × Server :=
  match c.call with
  | .acquire key member =>
    let out := acquire config channelPrefix c.time key member server
    (.granted out.1, out.2)
  | .reset key => (.done, server.del (redisKey channelPrefix key))
  | .retryAfter key =>
    let out := retryAfter config channelPrefix c.time key server
    (.wait out.1, out.2)

end RedisRateLimiter

end Varco
