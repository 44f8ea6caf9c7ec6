import Varco.Foundations.Pool
import Varco.Foundations.Python

/-!
# The layered cache

`LayeredCache` of `varco_core.cache.layered`: `get` walks the layers from the fastest to the slowest
and writes what it has found back to the faster ones, `set` and `delete` go to the layers of the
write mode.

Each operation on a single layer is one step. What `asyncio.gather` awaits is done in any order, and
anything else may happen in between: the environment chooses which of the pending operations is
next. Entries do not expire and layers do not raise. A layer is seen through its `get`, so that a
key that is absent and a key that holds `None` are the same.
-/

namespace Varco

inductive WriteMode
  | writeThrough
  | writeAround
  deriving DecidableEq

theorem two_le_two : 2 ≤ 2 := le_rfl

/-- `LayeredCache`: how many layers it has, and how it was configured. -/
structure LayeredCache where
  layers : ℕ
  writeMode : WriteMode := .writeThrough
  promoteTtl : Option ℚ := none
  backplane : Bool := false
  started : Bool := true
  two_le : 2 ≤ layers := by decide
  ttl_of_backplane : backplane = true → promoteTtl ≠ none := by decide

/-- An operation on one layer, or the publication of an invalidation. -/
inductive LayerOp (κ α : Type)
  | set (layer : ℕ) (key : κ) (value : Option α) (ttl : Option ℚ)
  | delete (layer : ℕ) (key : κ)
  | publish (key : κ)

/-- What a call awaits: a read of one layer, or whichever of the pending operations is next. -/
inductive LayerCmd (κ α : Type)
  | get (layer : ℕ) (key : κ)
  | gather (ops : List (LayerOp κ α))

/-- What comes back: the value, or which of the operations was done. -/
@[reducible] def LayerCmd.Res {κ α : Type} : LayerCmd κ α → Type
  | .get _ _ => Option α
  | .gather _ => ℕ

/-- A call of the cache. -/
inductive LayeredCall (κ α : Type)
  | get (key : κ)
  | set (key : κ) (value : Option α) (ttl : Option ℚ)
  | delete (key : κ)
  deriving DecidableEq

abbrev LayerProg (κ α β : Type) := Prog (LayerCmd κ α) LayerCmd.Res β

namespace LayeredCache

variable {κ α : Type}

def last (c : LayeredCache) : ℕ := c.layers - 1

/-- What `_require_started` raises. -/
def notStarted : PyException :=
  ⟨"RuntimeError", "LayeredCache is not started. Call 'await cache.start()' or use 'async with " ++
    "cache' first."⟩

/-- `n` rounds of an `asyncio.gather`. -/
def gatherRounds : ℕ → List (LayerOp κ α) → LayerProg κ α Unit
  | 0, _ => .ret ()
  | n + 1, ops => .cmd (.gather ops) fun i => gatherRounds n (ops.eraseIdx i)

/-- `await asyncio.gather(*ops)`, and an `await` of one operation. -/
def gather (ops : List (LayerOp κ α)) : LayerProg κ α Unit := gatherRounds ops.length ops

/-- `self._require_started()`, and the rest of the call. -/
def requireStarted (c : LayeredCache) (rest : LayerProg κ α (Option α)) :
    LayerProg κ α (Except PyException (Option α)) :=
  if c.started then rest >>= fun value => pure (.ok value) else pure (.error notStarted)

/-- The loop of `get`: `n` layers are left, the next one is `i`. -/
def getFrom (c : LayeredCache) (key : κ) : ℕ → ℕ → LayerProg κ α (Option α)
  | 0, _ => pure none
  | n + 1, i => .cmd (.get i key) fun (value : Option α) =>
    match value with
    | none => getFrom c key n (i + 1)
    | some v =>
      if 0 < i then do
        gather ((List.range i).map fun faster => .set faster key (some v) c.promoteTtl)
        pure (some v)
      else pure (some v)

def get (c : LayeredCache) (key : κ) : LayerProg κ α (Except PyException (Option α)) :=
  c.requireStarted (c.getFrom key c.layers 0)

def set (c : LayeredCache) (key : κ) (value : Option α) (ttl : Option ℚ) :
    LayerProg κ α (Except PyException (Option α)) :=
  c.requireStarted <|
    if c.backplane && c.writeMode = .writeThrough then do
      gather [.set c.last key value ttl]
      gather (((List.range c.last).map fun layer => .set layer key value ttl) ++ [.publish key])
      pure none
    else if c.writeMode = .writeThrough then do
      gather ((List.range c.layers).map fun layer => .set layer key value ttl)
      pure none
    else do
      gather [.set c.last key value ttl]
      gather (if c.backplane then [.publish key] else [])
      pure none

def delete (c : LayeredCache) (key : κ) : LayerProg κ α (Except PyException (Option α)) :=
  c.requireStarted <|
    if c.backplane then do
      gather [.delete c.last key]
      gather (((List.range c.last).map fun layer => .delete layer key) ++ [.publish key])
      pure none
    else do
      gather ((List.range c.layers).map fun layer => .delete layer key)
      pure none

def call (c : LayeredCache) : LayeredCall κ α → LayerProg κ α (Except PyException (Option α))
  | .get key => c.get key
  | .set key value ttl => c.set key value ttl
  | .delete key => c.delete key

/-! ## The layers -/

/-- What each layer holds, and what was published. -/
structure State (κ α : Type) where
  layers : ℕ → κ → Option α
  published : List κ := []

variable [DecidableEq κ]

def write (s : State κ α) (layer : ℕ) (key : κ) (value : Option α) : State κ α :=
  { s with layers := Function.update s.layers layer (Function.update (s.layers layer) key value) }

def apply (s : State κ α) : LayerOp κ α → State κ α
  | .set layer key value _ => write s layer key value
  | .delete layer key => write s layer key none
  | .publish key => { s with published := s.published ++ [key] }

/-- What an await does, where `x` is the operation that is next. -/
def exec {ι : Type} (_ : ι) (x : ℕ) : (cmd : LayerCmd κ α) → State κ α →
    Option (cmd.Res × State κ α)
  | .get layer key, s => some (s.layers layer key, s)
  | .gather ops, s => (ops[x]?).map fun op => (x, apply s op)

def start {ι : Type} (c : LayeredCache) (calls : ι → LayeredCall κ α) (s : State κ α) :
    Pool ι (State κ α) (LayerCmd κ α) LayerCmd.Res (Except PyException (Option α)) :=
  ⟨s, fun i => c.call (calls i)⟩

end LayeredCache

end Varco
