import Mathlib.Algebra.Order.Ring.Rat
import Mathlib.Data.Finset.Basic
import Varco.Foundations.Dict
import Varco.Foundations.Machine
import Varco.Foundations.Python

/-!
# The in-memory cache

`InMemoryCache` of `varco_core.cache.memory`, and the strategies of `varco_core.cache.invalidation`.
The cache keeps its entries in a dictionary and asks its strategy on every read whether an entry is
still good. What was invalidated is kept by the strategies and not by the cache: a strategy is an
object that others hold too, so the marks of all strategies are one state, by the identity of the
object.

Instants and times to live are seconds. A read and a write take one reading of the clock.
-/

namespace Varco

/-! ## Strategies -/

/-- The strategies, by the identity `ι` of their objects. A composite has a child. -/
inductive InvalidationStrategy (ι : Type)
  /-- `TTLStrategy(default_ttl)` -/
  | ttl (defaultTtl : Option ℚ)
  /-- `ExplicitStrategy()` -/
  | explicit (id : ι)
  /-- `TaggedStrategy()` -/
  | tagged (id : ι)
  /-- `CompositeStrategy(first, *rest)` -/
  | composite (first : InvalidationStrategy ι) (rest : List (InvalidationStrategy ι))

/-- What was invalidated: the keys of each `ExplicitStrategy`, the tags of each `TaggedStrategy`. -/
structure InvalidationMarks (ι κ : Type) where
  invalidated : ι → Finset κ := fun _ => ∅
  invalidatedTags : ι → Finset String := fun _ => ∅

namespace InvalidationMarks

variable {ι κ : Type} [DecidableEq ι] [DecidableEq κ]

/-- `ExplicitStrategy.invalidate` -/
def invalidate (marks : InvalidationMarks ι κ) (id : ι) (key : κ) : InvalidationMarks ι κ :=
  { marks with
    invalidated := Function.update marks.invalidated id (insert key (marks.invalidated id)) }

/-- `ExplicitStrategy.invalidate_many` -/
def invalidateMany (marks : InvalidationMarks ι κ) (id : ι) (keys : List κ) :
    InvalidationMarks ι κ :=
  { marks with
    invalidated := Function.update marks.invalidated id (marks.invalidated id ∪ keys.toFinset) }

/-- `TaggedStrategy.invalidate_tag` -/
def invalidateTag (marks : InvalidationMarks ι κ) (id : ι) (tag : String) :
    InvalidationMarks ι κ :=
  { marks with
    invalidatedTags :=
      Function.update marks.invalidatedTags id (insert tag (marks.invalidatedTags id)) }

variable {marks : InvalidationMarks ι κ} {id id' : ι} {key key' : κ}

@[simp] theorem invalidatedTags_invalidate :
    (marks.invalidate id key).invalidatedTags = marks.invalidatedTags := rfl

@[simp] theorem invalidatedTags_invalidateMany {keys : List κ} :
    (marks.invalidateMany id keys).invalidatedTags = marks.invalidatedTags := rfl

omit [DecidableEq κ] in
@[simp] theorem invalidated_invalidateTag {tag : String} :
    (marks.invalidateTag id tag).invalidated = marks.invalidated := rfl

theorem mem_invalidate : key ∈ (marks.invalidate id key').invalidated id' ↔
    id' = id ∧ key = key' ∨ key ∈ marks.invalidated id' := by
  unfold invalidate
  by_cases h : id' = id
  · subst h
    simp
  · simp [h]

theorem mem_invalidateMany {keys : List κ} :
    key ∈ (marks.invalidateMany id keys).invalidated id' ↔
      id' = id ∧ key ∈ keys ∨ key ∈ marks.invalidated id' := by
  unfold invalidateMany
  by_cases h : id' = id
  · subst h
    simp [or_comm]
  · simp [h]

omit [DecidableEq κ] in
theorem mem_invalidateTag {tag tag' : String} :
    tag ∈ (marks.invalidateTag id tag').invalidatedTags id' ↔
      id' = id ∧ tag = tag' ∨ tag ∈ marks.invalidatedTags id' := by
  unfold invalidateTag
  by_cases h : id' = id
  · subst h
    simp
  · simp [h]

end InvalidationMarks

/-- `_Entry` -/
structure CacheEntry (α : Type) where
  value : Option α
  ttl : Option ℚ
  storedAt : ℚ
  tags : Finset String

namespace InvalidationStrategy

variable {ι κ α : Type} [DecidableEq κ]

/-- `TTLStrategy.should_invalidate` -/
def expires (defaultTtl : Option ℚ) (now : ℚ) (entry : CacheEntry α) : Bool :=
  match entry.ttl.or defaultTtl with
  | none => false
  | some effectiveTtl => now - entry.storedAt > max 0 effectiveTtl

mutual

def shouldInvalidate (marks : InvalidationMarks ι κ) (now : ℚ) (key : κ) (entry : CacheEntry α) :
    InvalidationStrategy ι → Bool
  | .ttl defaultTtl => expires defaultTtl now entry
  | .explicit id => key ∈ marks.invalidated id
  | .tagged id => (entry.tags ∩ marks.invalidatedTags id) ≠ ∅
  | .composite first rest =>
    shouldInvalidate marks now key entry first || anyInvalidates marks now key entry rest

/-- `any(s.should_invalidate(key, metadata) for s in strategies)` -/
def anyInvalidates (marks : InvalidationMarks ι κ) (now : ℚ) (key : κ) (entry : CacheEntry α) :
    List (InvalidationStrategy ι) → Bool
  | [] => false
  | s :: rest =>
    shouldInvalidate marks now key entry s || anyInvalidates marks now key entry rest

end

end InvalidationStrategy

/-! ## The cache -/

/-- The configuration of an `InMemoryCache`: `settings.default_ttl`, the strategy, the bound on the
number of entries, and `str` of a key. -/
structure InMemoryCache (ι κ : Type) where
  defaultTtl : Option ℚ := none
  strategy : Option (InvalidationStrategy ι) := none
  maxSize : Option ℤ := none
  str : κ → String

/-- The entries of a cache, and the marks of the strategies. -/
structure MemoryState (ι κ α : Type) where
  started : Bool := false
  store : Dict κ (CacheEntry α) := .empty
  marks : InvalidationMarks ι κ := {}

namespace InMemoryCache

variable {ι κ α : Type} [DecidableEq ι] [DecidableEq κ]

/-- `_require_started` -/
def notStarted : PyException :=
  ⟨"RuntimeError", "InMemoryCache is not started. Call 'await cache.start()' or use 'async with " ++
    "cache' first."⟩

def start (s : MemoryState ι κ α) : Except PyException Unit × MemoryState ι κ α :=
  if s.started then
    (.error ⟨"RuntimeError", "InMemoryCache.start() called on an already-started cache. " ++
      "Call stop() first."⟩, s)
  else (.ok (), { s with started := true })

/-- The strategy of the cache says that the entry is not good any more. -/
def stale (c : InMemoryCache ι κ) (s : MemoryState ι κ α) (now : ℚ) (key : κ)
    (entry : CacheEntry α) : Bool :=
  match c.strategy with
  | none => false
  | some strategy => strategy.shouldInvalidate s.marks now key entry

def get (c : InMemoryCache ι κ) (s : MemoryState ι κ α) (now : ℚ) (key : κ) :
    Except PyException (Option α) × MemoryState ι κ α :=
  if s.started then
    match s.store.get? key with
    | none => (.ok none, s)
    | some entry =>
      if c.stale s now key entry then (.ok none, { s with store := s.store.erase key })
      else (.ok entry.value, s)
  else (.error notStarted, s)

def evicted (c : InMemoryCache ι κ) (store : Dict κ (CacheEntry α)) : Option κ :=
  match c.maxSize with
  | none => none
  | some maxSize =>
    if maxSize < store.entries.length then store.entries.head?.map Prod.fst else none

/-- The entry that a `set` stores. -/
def newEntry (c : InMemoryCache ι κ) (now : ℚ) (value : Option α) (ttl : Option ℚ)
    (tags : Option (Finset String)) : CacheEntry α :=
  { value, ttl := ttl.or c.defaultTtl, storedAt := now, tags := tags.getD ∅ }

def set (c : InMemoryCache ι κ) (s : MemoryState ι κ α) (now : ℚ) (key : κ) (value : Option α)
    (ttl : Option ℚ) (tags : Option (Finset String)) :
    Except PyException Unit × MemoryState ι κ α :=
  if s.started then
    let store := s.store.set key (c.newEntry now value ttl tags)
    match c.evicted store with
    | none => (.ok (), { s with store := store })
    | some oldestKey => (.ok (), { s with store := store.erase oldestKey })
  else (.error notStarted, s)

def delete (s : MemoryState ι κ α) (key : κ) : Except PyException Unit × MemoryState ι κ α :=
  if s.started then (.ok (), { s with store := s.store.erase key }) else (.error notStarted, s)

/-- `exists` -/
def «exists» (c : InMemoryCache ι κ) (s : MemoryState ι κ α) (now : ℚ) (key : κ) :
    Except PyException Bool × MemoryState ι κ α :=
  if s.started then
    match s.store.get? key with
    | none => (.ok false, s)
    | some entry =>
      if c.stale s now key entry then (.ok false, { s with store := s.store.erase key })
      else (.ok true, s)
  else (.error notStarted, s)

def clear (s : MemoryState ι κ α) : Except PyException Unit × MemoryState ι κ α :=
  if s.started then (.ok (), { s with store := .empty }) else (.error notStarted, s)

def deletePrefix (c : InMemoryCache ι κ) (s : MemoryState ι κ α) (keyPrefix : String) :
    Except PyException Unit × MemoryState ι κ α :=
  if s.started then
    let keysToDelete :=
      (s.store.entries.map Prod.fst).filter fun k => (c.str k).startsWith keyPrefix
    (.ok (), { s with store := keysToDelete.foldl (fun store k => store.erase k) s.store })
  else (.error notStarted, s)

end InMemoryCache

/-- A call on the cache, or on one of the strategies. -/
inductive MemoryOp (ι κ α : Type)
  | get (key : κ)
  | set (key : κ) (value : Option α) (ttl : Option ℚ) (tags : Option (Finset String))
  | delete (key : κ)
  | «exists» (key : κ)
  | clear
  | deletePrefix (keyPrefix : String)
  | invalidate (id : ι) (key : κ)
  | invalidateMany (id : ι) (keys : List κ)
  | invalidateTag (id : ι) (tag : String)

/-- A call, and the clock at it. -/
structure MemoryCall (ι κ α : Type) where
  op : MemoryOp ι κ α
  now : ℚ

/-- What a call returns. -/
inductive MemoryAnswer (α : Type)
  | value (v : Option α)
  | found (b : Bool)
  | unit

namespace InMemoryCache

variable {ι κ α : Type} [DecidableEq ι] [DecidableEq κ]

def exec (c : InMemoryCache ι κ) (call : MemoryCall ι κ α) (s : MemoryState ι κ α) :
    Except PyException (MemoryAnswer α) × MemoryState ι κ α :=
  match call.op with
  | .get key => ((c.get s call.now key).1.map .value, (c.get s call.now key).2)
  | .set key value ttl tags =>
    let out := c.set s call.now key value ttl tags
    (out.1.map fun _ => .unit, out.2)
  | .delete key => ((delete s key).1.map fun _ => .unit, (delete s key).2)
  | .exists key => ((c.exists s call.now key).1.map .found, (c.exists s call.now key).2)
  | .clear => ((clear s).1.map fun _ => .unit, (clear s).2)
  | .deletePrefix p => ((c.deletePrefix s p).1.map fun _ => .unit, (c.deletePrefix s p).2)
  | .invalidate id key => (.ok .unit, { s with marks := s.marks.invalidate id key })
  | .invalidateMany id keys => (.ok .unit, { s with marks := s.marks.invalidateMany id keys })
  | .invalidateTag id tag => (.ok .unit, { s with marks := s.marks.invalidateTag id tag })

/-- A cache that was just started, with strategies that have not been used. -/
def fresh : MemoryState ι κ α := (start {}).2

def after (c : InMemoryCache ι κ) (calls : List (MemoryCall ι κ α)) : MemoryState ι κ α :=
  Machine.final c.exec fresh calls

end InMemoryCache

end Varco
