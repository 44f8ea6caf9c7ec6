import Mathlib.Tactic.Linarith
import Varco.Cache.Layered
import Varco.Cache.Memory

/-!
# How stale a layered cache is

Any number of nodes, each a `LayeredCache` whose faster layers are `InMemoryCache`s with a
`TTLStrategy`, over one last layer that they share. The calls come one after the other, each at one
moment of a clock that does not go back; a message of the backplane may arrive late, more than once,
or never, and the last layer may lose an entry at any time.

What a node has promoted is served for `promote_ttl` at most after the moment at which it was in the
last layer. A write puts its value into the faster layers of its own node for as long as its own
time to live, though, and an entry of a layer in the middle is promoted anew with all of
`promote_ttl`. The bound holds where no write stays longer than `promote_ttl`, and no value is
promoted from a layer in the middle that is not in the last one (`Bounded`, `bounded_staleness`).
-/

namespace Varco

open Function List LayeredCache

/-- The nodes, how their layers were configured, and `str` of a key, which is the key that is
published. -/
structure CacheFleet (N κ : Type) where
  cache : N → LayeredCache
  memory : N → ℕ → InMemoryCache Unit κ
  str : κ → κ
  promoteTtl : ℚ
  defaultTtl : N → ℕ → Option ℚ
  promote : ∀ n, (cache n).promoteTtl = some promoteTtl
  strategy : ∀ n layer, (memory n layer).strategy = some (.ttl (defaultTtl n layer))

namespace CacheFleet

/-- The faster layers of each node, the last layer, and what was published. Each value that the last
layer held before is kept with the time at which it was displaced. -/
structure State (N κ α : Type) where
  clock : ℚ := 0
  layers : N → ℕ → MemoryState Unit κ α := fun _ _ => InMemoryCache.fresh
  last : κ → Option α := fun _ => none
  displaced : List (ℚ × κ × α) := []
  published : List (N × κ) := []

/-- What happens next: a call on a node, whose gathers do next what `order` says; a message arrives
at a node; time passes; the last layer loses an entry. -/
inductive Move (N κ α : Type)
  | call (n : N) (call : LayeredCall κ α) (order : List (LayerOp κ α) → ℕ)
  | deliver (n : N) (key : κ)
  | tick (clock : ℚ)
  | expire (key : κ)

variable {N κ α : Type} [DecidableEq N] [DecidableEq κ]

/-- The last layer holds the value for the key now, or did at `time` or later. -/
def State.Since (s : State N κ α) (key : κ) (v : α) (time : ℚ) : Prop :=
  s.last key = some v ∨ ∃ u, (u, key, v) ∈ s.displaced ∧ time ≤ u

instance [DecidableEq α] (s : State N κ α) (key : κ) (v : α) (time : ℚ) :
    Decidable (s.Since key v time) :=
  decidable_of_iff (s.last key = some v ∨ ∃ d ∈ s.displaced, d.2 = (key, v) ∧ time ≤ d.1) <|
    or_congr_right ⟨fun ⟨d, hd, heq, hle⟩ => ⟨d.1, heq ▸ hd, hle⟩,
      fun ⟨u, hu, hle⟩ => ⟨(u, key, v), hu, rfl, hle⟩⟩

def State.setLast (s : State N κ α) (key : κ) (value : Option α) : State N κ α :=
  { s with
    last := update s.last key value
    displaced := s.displaced ++ (s.last key).toList.map fun v => (s.clock, key, v) }

def State.setLayer (s : State N κ α) (n : N) (layer : ℕ) (m : MemoryState Unit κ α) :
    State N κ α :=
  { s with layers := update s.layers n (update (s.layers n) layer m) }

variable (f : CacheFleet N κ)

/-- What a read of a layer finds. The layers are started, so that none of them raises. -/
def found (s : State N κ α) (n : N) (layer : ℕ) (key : κ) : Option α :=
  if layer = (f.cache n).last then s.last key
  else ((f.memory n layer).get (s.layers n layer) s.clock key).1.toOption.join

def apply (n : N) (s : State N κ α) : LayerOp κ α → State N κ α
  | .set layer key value ttl =>
    if layer = (f.cache n).last then s.setLast key value
    else s.setLayer n layer
      ((f.memory n layer).set (s.layers n layer) s.clock key value ttl none).2
  | .delete layer key =>
    if layer = (f.cache n).last then s.setLast key none
    else s.setLayer n layer (InMemoryCache.delete (s.layers n layer) key).2
  | .publish key => { s with published := s.published ++ [(n, f.str key)] }

def exec (n : N) (order : List (LayerOp κ α) → ℕ) :
    (cmd : LayerCmd κ α) → State N κ α → cmd.Res × State N κ α
  | .get layer key, s => (f.found s n layer key,
      if layer = (f.cache n).last then s
      else s.setLayer n layer ((f.memory n layer).get (s.layers n layer) s.clock key).2)
  | .gather ops, s => (order ops % ops.length,
      match ops[order ops % ops.length]? with
      | some op => f.apply n s op
      | none => s)

def run (n : N) (call : LayeredCall κ α) (order : List (LayerOp κ α) → ℕ) (s : State N κ α) :
    Except PyException (Option α) × State N κ α :=
  Prog.eval (f.exec n order) ((f.cache n).call call) s

/-- `_on_backplane_message` of kind `"key"`: the faster layers delete the key. -/
def evict (n : N) (key : κ) (s : State N κ α) : State N κ α :=
  { s with
    layers := update s.layers n fun layer =>
      if layer < (f.cache n).last then (InMemoryCache.delete (s.layers n layer) key).2
      else s.layers n layer }

/-- One step. A node ignores what it has published itself. -/
inductive Step (s : State N κ α) : Move N κ α → State N κ α → Prop
  | call {n : N} {call : LayeredCall κ α} {order : List (LayerOp κ α) → ℕ} :
      Step s (.call n call order) (f.run n call order s).2
  | deliver {n m : N} {key : κ} (hpublished : (m, key) ∈ s.published) (hne : m ≠ n) :
      Step s (.deliver n key) (f.evict n key s)
  | tick {clock : ℚ} (hclock : s.clock ≤ clock) : Step s (.tick clock) { s with clock }
  | expire {key : κ} : Step s (.expire key) (s.setLast key none)

/-- How long an entry that is set with `ttl` is good in a faster layer. -/
def lifetime (n : N) (layer : ℕ) (ttl : Option ℚ) : Option ℚ :=
  (ttl.or (f.memory n layer).defaultTtl).or (f.defaultTtl n layer)

/-- A write that reaches a faster layer is good there for `promote_ttl` at most, and what a `get`
finds in a layer in the middle is what the last layer holds. -/
def Bounded (s : State N κ α) : Move N κ α → Prop
  | .call n (.set _ (some _) ttl) _ => (f.cache n).writeMode = .writeThrough →
      ∀ layer < (f.cache n).last, ∃ t, f.lifetime n layer ttl = some t ∧ t ≤ f.promoteTtl
  | .call n (.get key) _ => ∀ layer, 0 < layer → layer < (f.cache n).last →
      (∀ i < layer, f.found s n i key = none) → ∀ v, f.found s n layer key = some v →
      s.last key = some v
  | _ => True

/-! ## What a layer holds -/

variable {f} {n : N} {s : State N κ α} {key : κ} {w : κ → α → Prop}

omit [DecidableEq N] [DecidableEq κ] in
theorem since_mono {v : α} {time time' : ℚ} (h : s.Since key v time) (hle : time' ≤ time) :
    s.Since key v time' := by
  rcases h with h | ⟨u, hu, hle'⟩
  · exact Or.inl h
  · exact Or.inr ⟨u, hu, hle.trans hle'⟩

variable {value : Option α}

omit [DecidableEq N] in
/-- What the last layer held until now is displaced now. -/
theorem since_setLast {v : α} {time : ℚ} {key' : κ} (h : s.Since key v time)
    (hle : time ≤ s.clock) : (s.setLast key' value).Since key v time := by
  rcases h with h | ⟨u, hu, hle'⟩
  · by_cases hkey : key = key'
    · refine Or.inr ⟨s.clock, mem_append_right _ ?_, hle⟩
      rw [← hkey, h]
      exact mem_singleton.mpr rfl
    · refine Or.inl ?_
      change update s.last key' value key = some v
      rwa [update_of_ne hkey]
  · exact Or.inr ⟨u, mem_append_left _ hu, hle'⟩

/-- The entry is good for `promote_ttl` at most, from a moment on at which its value was in the last
layer, or is about to be. -/
def Sound (f : CacheFleet N κ) (w : κ → α → Prop) (s : State N κ α) (n : N) (layer : ℕ) (key : κ)
    (entry : CacheEntry α) : Prop :=
  ∀ v, entry.value = some v →
    (∃ t, entry.ttl.or (f.defaultTtl n layer) = some t ∧ t ≤ f.promoteTtl) ∧
      entry.storedAt ≤ s.clock ∧ (s.Since key v entry.storedAt ∨ w key v)

/-- All entries of the faster layers are good in this sense, where `w` is what is about to be in the
last layer. -/
structure Fresh (f : CacheFleet N κ) (w : κ → α → Prop) (s : State N κ α) : Prop where
  started : ∀ n layer, (s.layers n layer).started = true
  entries : ∀ n, ∀ layer < (f.cache n).last, ∀ key entry,
    (s.layers n layer).store.get? key = some entry → f.Sound w s n layer key entry

omit [DecidableEq N] in
theorem Fresh.settle (h : f.Fresh w s) (hw : ∀ key v, w key v → s.last key = some v) :
    f.Fresh (fun _ _ => False) s where
  started := h.started
  entries n layer hlayer key entry hentry v hv := by
    obtain ⟨httl, hstored, hsince⟩ := h.entries n layer hlayer key entry hentry v hv
    exact ⟨httl, hstored, Or.inl (hsince.elim id fun hw' => Or.inl (hw key v hw'))⟩

omit [DecidableEq N] in
theorem Fresh.unsettle (h : f.Fresh (fun _ _ => False) s) : f.Fresh w s where
  started := h.started
  entries n layer hlayer key entry hentry v hv := by
    obtain ⟨httl, hstored, hsince⟩ := h.entries n layer hlayer key entry hentry v hv
    exact ⟨httl, hstored, hsince.imp_right False.elim⟩

omit [DecidableEq N] in
theorem Fresh.setLast (h : f.Fresh w s) (value : Option α) : f.Fresh w (s.setLast key value) where
  started := h.started
  entries n layer hlayer key entry hentry v hv := by
    obtain ⟨httl, hstored, hsince⟩ := h.entries n layer hlayer key entry hentry v hv
    exact ⟨httl, hstored, hsince.imp_left fun hsince => since_setLast hsince hstored⟩

/-- A faster layer is written, with entries that it had or that are good. -/
theorem Fresh.setLayer (h : f.Fresh w s) {layer : ℕ} {m : MemoryState Unit κ α}
    (hstarted : m.started = true)
    (hm : layer < (f.cache n).last → ∀ key entry, m.store.get? key = some entry →
      (s.layers n layer).store.get? key = some entry ∨ f.Sound w s n layer key entry) :
    f.Fresh w (s.setLayer n layer m) := by
  have hlayers : ∀ n' layer', (s.setLayer n layer m).layers n' layer' =
      if n' = n ∧ layer' = layer then m else s.layers n' layer' := by
    intro n' layer'
    change update s.layers n _ n' layer' = _
    by_cases hn : n' = n
    · rw [hn, update_self]
      by_cases hl : layer' = layer
      · rw [hl, update_self, if_pos ⟨rfl, rfl⟩]
      · rw [update_of_ne hl, if_neg fun heq => hl heq.2]
    · rw [update_of_ne hn, if_neg fun heq => hn heq.1]
  refine ⟨fun n' layer' => ?_, fun n' layer' hlayer' key entry hentry => ?_⟩
  · rw [hlayers]
    split
    · exact hstarted
    · exact h.started n' layer'
  · rw [hlayers] at hentry
    split at hentry
    case isTrue heq =>
      obtain ⟨rfl, rfl⟩ := heq
      exact (hm hlayer' key entry hentry).elim (h.entries n' layer' hlayer' key entry) id
    case isFalse => exact h.entries n' layer' hlayer' key entry hentry

section

variable {c : InMemoryCache Unit κ} {m : MemoryState Unit κ α} {now : ℚ}

theorem get_store (key' : κ) {entry : CacheEntry α}
    (h : (c.get m now key).2.store.get? key' = some entry) : m.store.get? key' = some entry := by
  unfold InMemoryCache.get at h
  split_ifs at h
  · split at h
    · exact h
    · split_ifs at h
      · rw [Dict.get?_erase] at h
        split_ifs at h
        exact h
      · exact h
  · exact h

theorem get_started : (c.get m now key).2.started = m.started := by
  unfold InMemoryCache.get
  split_ifs
  · split
    · rfl
    · split_ifs <;> rfl
  · rfl

theorem set_store {ttl : Option ℚ} (key' : κ) {entry : CacheEntry α}
    (h : (c.set m now key value ttl none).2.store.get? key' = some entry) :
    key' = key ∧ entry = c.newEntry now value ttl none ∨ m.store.get? key' = some entry := by
  have hset : ∀ e, (m.store.set key (c.newEntry now value ttl none)).get? key' = some e →
      key' = key ∧ e = c.newEntry now value ttl none ∨ m.store.get? key' = some e := by
    intro e he
    rw [Dict.get?_set] at he
    split_ifs at he with hkey
    · exact Or.inl ⟨hkey, (Option.some.inj he).symm⟩
    · exact Or.inr he
  unfold InMemoryCache.set at h
  split_ifs at h
  · simp only at h
    split at h
    · exact hset entry h
    · rw [Dict.get?_erase] at h
      split_ifs at h
      exact hset entry h
  · exact Or.inr h

theorem set_started {ttl : Option ℚ} :
    (c.set m now key value ttl none).2.started = m.started := by
  unfold InMemoryCache.set
  split_ifs
  · simp only
    split <;> rfl
  · rfl

theorem delete_store (key' : κ) {entry : CacheEntry α}
    (h : (InMemoryCache.delete m key).2.store.get? key' = some entry) :
    m.store.get? key' = some entry := by
  unfold InMemoryCache.delete at h
  split_ifs at h
  · rw [Dict.get?_erase] at h
    split_ifs at h
    exact h
  · exact h

theorem delete_started : (InMemoryCache.delete m key).2.started = m.started := by
  unfold InMemoryCache.delete
  split_ifs <;> rfl

end

/-! ## What the operations keep -/

theorem Fresh.get (h : f.Fresh w s) (layer : ℕ) :
    f.Fresh w (s.setLayer n layer ((f.memory n layer).get (s.layers n layer) s.clock key).2) :=
  h.setLayer (get_started.trans (h.started n layer)) fun _ key' _ hentry =>
    Or.inl (get_store key' hentry)

/-- One operation of a gather: what it sets in a faster layer is good for `promote_ttl` at most, and
is in the last layer or about to be. -/
theorem Fresh.apply (h : f.Fresh w s) {op : LayerOp κ α}
    (hop : ∀ layer key v ttl, op = .set layer key (some v) ttl → layer < (f.cache n).last →
      (∃ t, f.lifetime n layer ttl = some t ∧ t ≤ f.promoteTtl) ∧
        (s.last key = some v ∨ w key v)) : f.Fresh w (f.apply n s op) := by
  cases op with
  | publish key => exact ⟨h.started, h.entries⟩
  | delete layer key =>
    change f.Fresh w (if _ then _ else _)
    split_ifs
    · exact h.setLast none
    · exact h.setLayer (delete_started.trans (h.started n layer)) fun _ key' _ hentry =>
        Or.inl (delete_store key' hentry)
  | set layer key value ttl =>
    change f.Fresh w (if _ then _ else _)
    split_ifs
    · exact h.setLast value
    · refine h.setLayer (set_started.trans (h.started n layer)) fun hlayer key' entry hentry => ?_
      rcases set_store key' hentry with ⟨rfl, rfl⟩ | hold
      · refine Or.inr fun v hv => ?_
        obtain ⟨httl, hlast⟩ := hop layer key' v ttl (by rw [show value = some v from hv]) hlayer
        exact ⟨httl, le_rfl, hlast.imp_left Or.inl⟩
      · exact Or.inl hold

variable {order : List (LayerOp κ α) → ℕ} {c : LayeredCache} {ops : List (LayerOp κ α)}

theorem gatherRounds_spec {I J : State N κ α → Prop} {k : ℕ}
    (hk : k = ops.length) {op₀ : LayerOp κ α} (hI : ∀ op ∈ ops, ∀ s, I s → I (f.apply n s op))
    (hJ : ∀ op ∈ ops, ∀ s, J s → J (f.apply n s op)) (h₀ : ∀ s, J (f.apply n s op₀))
    (h : I s) (hreach : op₀ ∈ ops ∨ J s) :
    I (Prog.eval (f.exec n order) (gatherRounds k ops) s).2 ∧
      J (Prog.eval (f.exec n order) (gatherRounds k ops) s).2 := by
  induction k generalizing ops s with
  | zero =>
    have hops : ops = [] := eq_nil_of_length_eq_zero hk.symm
    rw [hops] at hreach
    exact ⟨h, hreach.resolve_left not_mem_nil⟩
  | succ k ih =>
    have hlt : order ops % ops.length < ops.length := Nat.mod_lt _ (by omega)
    have hnext : ((f.exec n order) (.gather ops) s).2 =
        f.apply n s ops[order ops % ops.length] := by
      change (match ops[order ops % ops.length]? with
        | some op => f.apply n s op
        | none => s) = _
      rw [List.getElem?_eq_getElem hlt]
    have hmem : ops[order ops % ops.length] ∈ ops := getElem_mem hlt
    have hsub : ∀ op ∈ ops.eraseIdx (order ops % ops.length), op ∈ ops := fun op hop =>
      eraseIdx_subset hop
    change I (Prog.eval (f.exec n order) (gatherRounds k
      (ops.eraseIdx (order ops % ops.length))) ((f.exec n order) (.gather ops) s).2).2 ∧ J _
    refine ih (by rw [length_eraseIdx_of_lt hlt]; omega) (fun op hop => hI op (hsub op hop))
      (fun op hop => hJ op (hsub op hop)) (hnext ▸ hI _ hmem s h) ?_
    rw [hnext]
    rcases hreach with hmem₀ | hreach
    · rcases mem_cons.mp ((getElem_cons_eraseIdx_perm hlt).mem_iff.mpr hmem₀) with
        rfl | hrest
      · exact Or.inr (h₀ s)
      · exact Or.inl hrest
    · exact Or.inr (hJ _ hmem s hreach)

/-- **A gather** keeps what each of its operations keeps, and reaches what one of them does if the
others keep it. -/
theorem gather_spec {I J : State N κ α → Prop} {op₀ : LayerOp κ α}
    (hI : ∀ op ∈ ops, ∀ s, I s → I (f.apply n s op))
    (hJ : ∀ op ∈ ops, ∀ s, J s → J (f.apply n s op)) (h₀ : ∀ s, J (f.apply n s op₀))
    (h : I s) (hreach : op₀ ∈ ops ∨ J s) :
    I (Prog.eval (f.exec n order) (gather ops) s).2 ∧
      J (Prog.eval (f.exec n order) (gather ops) s).2 :=
  gatherRounds_spec rfl hI hJ h₀ h hreach

theorem gather_keeps {I : State N κ α → Prop}
    (hI : ∀ op ∈ ops, ∀ s, I s → I (f.apply n s op)) (h : I s) :
    I (Prog.eval (f.exec n order) (gather ops) s).2 := by
  cases ops with
  | nil => exact h
  | cons op ops =>
    exact (gather_spec (J := fun _ => True) hI (fun _ _ _ _ => trivial) (fun _ => trivial) h
      (Or.inl mem_cons_self)).1

theorem eval_requireStarted (rest : LayerProg κ α (Option α)) :
    Prog.eval (f.exec n order) (c.requireStarted rest) s =
      if c.started then (.ok (Prog.eval (f.exec n order) rest s).1,
        (Prog.eval (f.exec n order) rest s).2)
      else (.error notStarted, s) := by
  unfold requireStarted
  split_ifs
  · rw [Prog.eval_bind]
    rfl
  · rfl

/-- An operation of a `set`. -/
def OfSet (key : κ) (value : Option α) (ttl : Option ℚ) (op : LayerOp κ α) : Prop :=
  (∃ layer, op = .set layer key value ttl) ∨ ∃ key', op = .publish key'

/-- What a `set` is about to put into the last layer. -/
def Pending (key : κ) (value : Option α) (key' : κ) (v : α) : Prop := key' = key ∧ value = some v

variable {ttl : Option ℚ}

omit [DecidableEq N] [DecidableEq κ] in
theorem ofSet_of_mem_map {layers : List ℕ} {op : LayerOp κ α}
    (hop : op ∈ layers.map fun layer => LayerOp.set layer key value ttl) :
    OfSet key value ttl op := by
  obtain ⟨layer, -, rfl⟩ := mem_map.mp hop
  exact Or.inl ⟨layer, rfl⟩

/-- A gather of a `set`: the last layer has the value in the end if it is written, or had it. -/
theorem Fresh.gatherSet
    (h : f.Fresh (Pending key value) s) (hops : ∀ op ∈ ops, OfSet key value ttl op)
    (hbounded : ∀ layer v, LayerOp.set layer key (some v) ttl ∈ ops → layer < (f.cache n).last →
      ∃ t, f.lifetime n layer ttl = some t ∧ t ≤ f.promoteTtl)
    (hlast : LayerOp.set (f.cache n).last key value ttl ∈ ops ∨ s.last key = value) :
    f.Fresh (Pending key value) (Prog.eval (f.exec n order) (gather ops) s).2 ∧
      (Prog.eval (f.exec n order) (gather ops) s).2.last key = value := by
  have hset : ∀ s : State N κ α,
      (f.apply n s (.set (f.cache n).last key value ttl)).last key = value := by
    intro s
    change (if _ then s.setLast key value else _ : State N κ α).last key = value
    rw [if_pos rfl]
    exact update_self ..
  refine gather_spec (J := fun s => s.last key = value) (fun op hop s hs => ?_)
    (fun op hop s hs => ?_) hset h hlast
  · refine hs.apply fun layer key' v ttl' heq hlayer => ?_
    rcases hops op hop with ⟨layer', rfl⟩ | ⟨key'', rfl⟩
    · cases heq
      exact ⟨hbounded layer v hop hlayer, Or.inr ⟨rfl, rfl⟩⟩
    · cases heq
  · rcases hops op hop with ⟨layer, rfl⟩ | ⟨key', rfl⟩
    · by_cases hlayer : layer = (f.cache n).last
      · rw [hlayer]
        exact hset s
      · change (if _ then s.setLast key value else _ : State N κ α).last key = value
        rw [if_neg hlayer]
        exact hs
    · exact hs

/-- **A `set`** whose value is good for `promote_ttl` at most in the faster layers. -/
theorem Fresh.set (h : f.Fresh (fun _ _ => False) s)
    (hbounded : ∀ v, value = some v → (f.cache n).writeMode = .writeThrough →
      ∀ layer < (f.cache n).last, ∃ t, f.lifetime n layer ttl = some t ∧ t ≤ f.promoteTtl) :
    f.Fresh (fun _ _ => False) (f.run n (.set key value ttl) order s).2 := by
  have hsettle : ∀ s : State N κ α, f.Fresh (Pending key value) s ∧ s.last key = value →
      f.Fresh (fun _ _ => False) s := fun s hs =>
    hs.1.settle fun key' v hw => by rw [hw.1, hs.2]; exact hw.2
  -- the last layer alone, which is what two of the three modes begin with
  have hfirst : f.Fresh (Pending key value) (Prog.eval (f.exec n order)
      (gather [.set (f.cache n).last key value ttl]) s).2 ∧
      (Prog.eval (f.exec n order)
        (gather [.set (f.cache n).last key value ttl]) s).2.last key = value :=
    Fresh.gatherSet h.unsettle (fun op hop => Or.inl ⟨_, mem_singleton.mp hop⟩)
    (fun layer v hmem hlayer => by
      cases mem_singleton.mp hmem
      exact absurd hlayer (lt_irrefl _))
    (Or.inl mem_cons_self)
  have hvalue : ∀ layer v (ops : List (LayerOp κ α)), (∀ op ∈ ops, OfSet key value ttl op) →
      LayerOp.set layer key (some v) ttl ∈ ops → value = some v := by
    intro layer v ops hops hmem
    rcases hops _ hmem with ⟨layer', heq⟩ | ⟨key', heq⟩ <;> cases heq
    rfl
  change f.Fresh _ (Prog.eval (f.exec n order) ((f.cache n).requireStarted _) s).2
  rw [eval_requireStarted]
  split_ifs with hstarted hordered hthrough
  · have hops : ∀ op ∈ ((List.range (f.cache n).last).map fun layer =>
        LayerOp.set layer key value ttl) ++ [.publish key], OfSet key value ttl op := fun op hop =>
      (mem_append.mp hop).elim ofSet_of_mem_map fun hop =>
        Or.inr ⟨key, mem_singleton.mp hop⟩
    have hthrough := of_decide_eq_true (Bool.and_eq_true_iff.mp hordered).2
    rw [Prog.eval_bind, Prog.eval_bind]
    exact hsettle _ (Fresh.gatherSet hfirst.1 hops (fun layer v hmem hlayer =>
      hbounded v (hvalue layer v _ hops hmem) hthrough layer hlayer) (Or.inr hfirst.2))
  · have hops : ∀ op ∈ (List.range (f.cache n).layers).map fun layer =>
        (LayerOp.set layer key value ttl : LayerOp κ α), OfSet key value ttl op :=
      fun op hop => ofSet_of_mem_map hop
    have hlast : (f.cache n).last < (f.cache n).layers := by
      have htwo := (f.cache n).two_le
      unfold last
      omega
    rw [Prog.eval_bind]
    exact hsettle _ (Fresh.gatherSet h.unsettle hops (fun layer v hmem hlayer =>
      hbounded v (hvalue layer v _ hops hmem) hthrough layer hlayer)
      (Or.inl (mem_map.mpr ⟨_, mem_range.mpr hlast, rfl⟩)))
  · rw [Prog.eval_bind, Prog.eval_bind]
    refine gather_keeps (fun op hop s hs => ?_) (hsettle _ hfirst)
    rw [mem_singleton.mp hop]
    exact hs.apply fun _ _ _ _ heq => by cases heq
  · rw [Prog.eval_bind, Prog.eval_bind]
    exact gather_keeps (fun op hop => absurd hop not_mem_nil) (hsettle _ hfirst)
  · exact h

/-- **A `delete`.** -/
theorem Fresh.delete (h : f.Fresh (fun _ _ => False) s) :
    f.Fresh (fun _ _ => False) (f.run n (.delete key) order s).2 := by
  have hkeep : ∀ ops : List (LayerOp κ α),
      (∀ op ∈ ops, (∃ layer, op = .delete layer key) ∨ ∃ key', op = .publish key') →
      ∀ op ∈ ops, ∀ s, f.Fresh (fun _ _ => False) s →
        f.Fresh (fun _ _ => False) (f.apply n s op) := by
    intro ops hops op hop s hs
    rcases hops op hop with ⟨layer, rfl⟩ | ⟨key', rfl⟩ <;>
      exact hs.apply fun _ _ _ _ heq => by cases heq
  have hmap : ∀ layers : List ℕ, ∀ op ∈ layers.map fun layer => (LayerOp.delete layer key :
      LayerOp κ α), (∃ layer, op = .delete layer key) ∨ ∃ key', op = .publish key' := by
    intro layers op hop
    obtain ⟨layer, -, rfl⟩ := mem_map.mp hop
    exact Or.inl ⟨layer, rfl⟩
  unfold run
  change f.Fresh _ (Prog.eval (f.exec n order) ((f.cache n).requireStarted _) s).2
  rw [eval_requireStarted]
  split_ifs
  · rw [Prog.eval_bind, Prog.eval_bind]
    refine gather_keeps (hkeep _ fun op hop => ?_) (gather_keeps (hkeep _ fun op hop => ?_) h)
    · rcases mem_append.mp hop with hop | hop
      · exact hmap _ op hop
      · exact Or.inr ⟨key, mem_singleton.mp hop⟩
    · exact Or.inl ⟨_, mem_singleton.mp hop⟩
  · rw [Prog.eval_bind]
    exact gather_keeps (hkeep _ (hmap _)) h
  · exact h

/-! ## What a `get` returns -/

omit [DecidableEq N] in
/-- What a layer finds was in the last layer no longer than `promote_ttl` ago. -/
theorem Fresh.since_of_found (h : f.Fresh (fun _ _ => False) s) (hpromote : 0 ≤ f.promoteTtl)
    {layer : ℕ} (hlayer : layer ≤ (f.cache n).last) {v : α}
    (hfound : f.found s n layer key = some v) : s.Since key v (s.clock - f.promoteTtl) := by
  unfold found at hfound
  split_ifs at hfound with hlast
  · exact Or.inl hfound
  · unfold InMemoryCache.get at hfound
    rw [if_pos (h.started n layer)] at hfound
    split at hfound
    · cases hfound
    case h_2 entry hentry =>
      split_ifs at hfound with hstale
      · cases hfound
      · have hvalue : entry.value = some v := hfound
        obtain ⟨⟨t, ht, hle⟩, -, hsince⟩ :=
          h.entries n layer (lt_of_le_of_ne hlayer hlast) key entry hentry v hvalue
        refine since_mono (hsince.resolve_right id) ?_
        -- the entry is not older than its time to live
        unfold InMemoryCache.stale at hstale
        rw [f.strategy n layer] at hstale
        change ¬InvalidationStrategy.expires (f.defaultTtl n layer) s.clock entry = true at hstale
        unfold InvalidationStrategy.expires at hstale
        rw [ht] at hstale
        have hage : s.clock - entry.storedAt ≤ max 0 t :=
          not_lt.mp fun hlt => hstale (decide_eq_true hlt)
        have hmax : max 0 t ≤ f.promoteTtl := max_le hpromote hle
        linarith

/-- A read of one layer changes nothing that is found in the others. -/
theorem found_exec {layer layer' : ℕ} (hne : layer' ≠ layer) :
    f.found (f.exec n order (.get layer key) s).2 n layer' key = f.found s n layer' key := by
  change f.found (if layer = (f.cache n).last then s else _ : State N κ α) n layer' key = _
  split_ifs
  · rfl
  · unfold found
    change (if _ then s.last key else ((f.memory n layer').get
      (update s.layers n (update (s.layers n) layer _) n layer') s.clock
      key).1.toOption.join) = _
    rw [update_self, update_of_ne hne]

theorem last_exec (layer : ℕ) : (f.exec n order (.get layer key) s).2.last = s.last ∧
    (f.exec n order (.get layer key) s).2.displaced = s.displaced ∧
      (f.exec n order (.get layer key) s).2.clock = s.clock := by
  change (if _ then s else _ : State N κ α).last = _ ∧
    (if _ then s else _ : State N κ α).displaced = _ ∧ (if _ then s else _ : State N κ α).clock = _
  split_ifs <;> exact ⟨rfl, rfl, rfl⟩

theorem Fresh.exec (h : f.Fresh w s) (layer : ℕ) :
    f.Fresh w (f.exec n order (.get layer key) s).2 := by
  change f.Fresh w (if _ then s else _)
  split_ifs
  · exact h
  · exact h.get layer

theorem eval_getFrom_of_some {k i : ℕ} {v : α} (hfound : f.found s n i key = some v) :
    Prog.eval (f.exec n order) (c.getFrom key (k + 1) i) s =
      (some v, if 0 < i then (Prog.eval (f.exec n order) (gather
          ((List.range i).map fun faster => .set faster key (some v) c.promoteTtl))
          (f.exec n order (.get i key) s).2).2
        else (f.exec n order (.get i key) s).2) := by
  have hanswer : (f.exec n order (.get i key) s).1 = some v := hfound
  simp only [getFrom, Prog.eval, hanswer]
  by_cases hi : 0 < i
  · simp only [if_pos hi]
    rw [Prog.eval_bind]
    rfl
  · simp only [if_neg hi]
    rfl

theorem eval_getFrom_of_none {k i : ℕ} (hfound : f.found s n i key = none) :
    Prog.eval (f.exec n order) (c.getFrom key (k + 1) i) s =
      Prog.eval (f.exec n order) (c.getFrom key k (i + 1)) (f.exec n order (.get i key) s).2 := by
  have hanswer : (f.exec n order (.get i key) s).1 = none := hfound
  simp only [getFrom, Prog.eval, hanswer]

/-- What the walk returns was in the last layer no longer than `promote_ttl` ago. -/
theorem Fresh.since_getFrom (h : f.Fresh (fun _ _ => False) s) (hpromote : 0 ≤ f.promoteTtl)
    {k i : ℕ} (hk : i + k = (f.cache n).layers) {v : α}
    (hv : (Prog.eval (f.exec n order) (c.getFrom key k i) s).1 = some v) :
    s.Since key v (s.clock - f.promoteTtl) := by
  induction k generalizing i s with
  | zero => cases hv
  | succ k ih =>
    cases hfound : f.found s n i key with
    | none =>
      obtain ⟨hlast, hdisplaced, hclock⟩ := @last_exec _ _ _ _ _ f n s key order i
      rw [eval_getFrom_of_none hfound] at hv
      have hsince := ih (h.exec i) (by omega) hv
      unfold State.Since at hsince ⊢
      rwa [hlast, hdisplaced, hclock] at hsince
    | some v' =>
      rw [eval_getFrom_of_some hfound] at hv
      cases hv
      refine h.since_of_found hpromote ?_ hfound
      unfold last
      omega

theorem Fresh.getFrom (h : f.Fresh (fun _ _ => False) s) {k i : ℕ}
    (hk : i + k = (f.cache n).layers)
    (hbounded : ∀ layer, i ≤ layer → 0 < layer → layer < (f.cache n).last →
      (∀ j, i ≤ j → j < layer → f.found s n j key = none) →
      ∀ v, f.found s n layer key = some v → s.last key = some v) :
    f.Fresh (fun _ _ => False)
      (Prog.eval (f.exec n order) ((f.cache n).getFrom key k i) s).2 := by
  induction k generalizing i s with
  | zero => exact h
  | succ k ih =>
    have hread : f.Fresh (fun _ _ => False) (f.exec n order (.get i key) s).2 := h.exec i
    have hlast : (f.exec n order (.get i key) s).2.last = s.last := (last_exec i).1
    cases hfound : f.found s n i key with
    | none =>
      rw [eval_getFrom_of_none hfound]
      refine ih hread (by omega) fun layer hle hpos hlt hmiss v hv => ?_
      rw [found_exec (by omega)] at hv
      rw [hlast]
      refine hbounded layer (by omega) hpos hlt (fun j hij hj => ?_) v hv
      rcases Nat.eq_or_lt_of_le hij with rfl | hij
      · exact hfound
      · have hsame : f.found (f.exec n order (.get i key) s).2 n j key = f.found s n j key :=
          found_exec (by omega)
        rw [← hsame]
        exact hmiss j hij hj
    | some v =>
      rw [eval_getFrom_of_some hfound]
      change f.Fresh _ (if 0 < i then _ else _)
      split_ifs with hi
      · -- what was found is in the last layer, and promoting it does not change that
        have hlayer : i ≤ (f.cache n).last := by
          unfold last
          omega
        have hv : s.last key = some v := by
          rcases Nat.eq_or_lt_of_le hlayer with heq | hlt
          · unfold found at hfound
            rwa [if_pos heq] at hfound
          · exact hbounded i le_rfl hi hlt (fun j hij hj => by omega) v hfound
        refine (gather_keeps (I := fun s => f.Fresh (fun _ _ => False) s ∧ s.last key = some v)
          (fun op hop s hs => ?_) ⟨hread, hlast ▸ hv⟩).1
        obtain ⟨faster, hfaster, rfl⟩ := mem_map.mp hop
        have hlt : faster < (f.cache n).last := by
          have := mem_range.mp hfaster
          omega
        refine ⟨hs.1.apply fun layer key' v' ttl heq _ => ?_, ?_⟩
        · cases heq
          rw [f.promote n]
          exact ⟨⟨f.promoteTtl, rfl, le_rfl⟩, Or.inl hs.2⟩
        · change (if _ then s.setLast key (some v) else _ : State N κ α).last key = some v
          rw [if_neg hlt.ne]
          exact hs.2
      · exact hread

/-! ## The bound -/

variable {a : Move N κ α} {s' : State N κ α}

theorem Fresh.step (h : f.Fresh (fun _ _ => False) s) (hbounded : f.Bounded s a)
    (hstep : f.Step s a s') : f.Fresh (fun _ _ => False) s' := by
  cases hstep with
  | @call n call order =>
    cases call with
    | get key =>
      change f.Fresh _ (Prog.eval (f.exec n order) ((f.cache n).requireStarted _) s).2
      rw [eval_requireStarted]
      split_ifs
      · exact h.getFrom (Nat.zero_add _) fun layer _ hpos hlt hmiss =>
          hbounded layer hpos hlt fun j hj => hmiss j (Nat.zero_le j) hj
      · exact h
    | set key value ttl => exact h.set fun v hv => by subst hv; exact hbounded
    | delete key => exact h.delete
  | @deliver n m key =>
    have hlayers : ∀ n' layer, (f.evict n key s).layers n' layer = s.layers n' layer ∨
        (f.evict n key s).layers n' layer = (InMemoryCache.delete (s.layers n' layer) key).2 := by
      intro n' layer
      change update s.layers n _ n' layer = _ ∨ update s.layers n _ n' layer = _
      by_cases hn : n' = n
      · rw [hn, update_self]
        split
        · exact Or.inr rfl
        · exact Or.inl rfl
      · rw [update_of_ne hn]
        exact Or.inl rfl
    refine ⟨fun n' layer => ?_, fun n' layer hlayer key' entry hentry => ?_⟩
    · rcases hlayers n' layer with heq | heq <;> rw [heq]
      · exact h.started n' layer
      · exact delete_started.trans (h.started n' layer)
    · refine h.entries n' layer hlayer key' entry ?_
      rcases hlayers n' layer with heq | heq <;> rw [heq] at hentry
      · exact hentry
      · exact delete_store key' hentry
  | tick hclock =>
    refine ⟨h.started, fun n' layer hlayer key' entry hentry v hv => ?_⟩
    obtain ⟨httl, hstored, hsince⟩ := h.entries n' layer hlayer key' entry hentry v hv
    exact ⟨httl, hstored.trans hclock, hsince⟩
  | expire => exact h.setLast none

/-- **A missed invalidation is bounded by `promote_ttl`**: in a run whose steps are all bounded,
each value that a `get` returns was what the last layer held for the key at some moment of the last
`promote_ttl` seconds. -/
theorem bounded_staleness (f : CacheFleet N κ) (hpromote : 0 ≤ f.promoteTtl) {l : List (Move N κ α)}
    {s : State N κ α} (hrun : Guarded f.Step (fun _ => f.Bounded) {} l s) (n : N) (key : κ)
    (order : List (LayerOp κ α) → ℕ) {v : α} (hv : (f.run n (.get key) order s).1 = .ok (some v)) :
    s.Since key v (s.clock - f.promoteTtl) := by
  have hfresh : f.Fresh (fun _ _ => False) s :=
    hrun.invariant (I := fun _ s => f.Fresh (fun _ _ => False) s)
      ⟨fun _ _ => rfl, fun _ _ _ _ _ h => by cases h⟩
      fun _ _ _ _ _ hbounded hstep h => h.step hbounded hstep
  change (Prog.eval (f.exec n order) ((f.cache n).requireStarted _) s).1 = _ at hv
  rw [eval_requireStarted] at hv
  split_ifs at hv
  exact hfresh.since_getFrom hpromote (Nat.zero_add _) (Except.ok.inj hv)

/-- Two nodes with two layers each, with `promote_ttl=10` and no other time to live. -/
def pairOfNodes : CacheFleet Bool ℕ where
  cache _ := { layers := 2, promoteTtl := some 10, backplane := true, two_le := two_le_two }
  memory _ _ := { strategy := some (.ttl none), str := toString }
  str := id
  promoteTtl := 10
  defaultTtl _ _ := none
  promote _ := rfl
  strategy _ _ := rfl

/-- A value that was set for five seconds is returned. -/
theorem bounded_staleness_pairOfNodes : ∃ s : State Bool ℕ String,
    (pairOfNodes.run true (.get 7) (fun _ => 0) s).1 = .ok (some "a") ∧
      s.Since 7 "a" (s.clock - 10) := by
  refine ⟨_, ?_, bounded_staleness pairOfNodes (by decide)
    (.snoc (l := []) (a := .call false (.set 7 (some "a") (some 5)) fun _ => 0) .nil ?_ .call) true
    7 (fun _ => 0) ?_⟩
  · rfl
  · exact fun _ _ _ => ⟨5, rfl, by decide⟩
  · rfl

/-- Nodes with three layers that write to the last one alone, the first with room for one entry. -/
def threeLayers : CacheFleet Bool ℕ where
  cache _ := { layers := 3, writeMode := .writeAround, promoteTtl := some 10, backplane := true }
  memory _ layer :=
    { strategy := some (.ttl none), maxSize := if layer = 0 then some 1 else none, str := toString }
  str := id
  promoteTtl := 10
  defaultTtl _ _ := none
  promote _ := rfl
  strategy _ _ := rfl

/-- **The bound fails when the message about a write is lost**: a value that a node has set itself
without a time to live is never invalidated there; and, even where the faster layers are not
written, a value is promoted from a layer in the middle for `promote_ttl` more seconds. -/
theorem served_longer :
    ¬(∀ (f : CacheFleet Bool ℕ) (l : List (Move Bool ℕ String)) s,
      Run f.Step {} l s → ∀ n key order v, (f.run n (.get key) order s).1 = .ok (some v) →
        s.Since key v (s.clock - f.promoteTtl)) ∧
    ¬(∀ (f : CacheFleet Bool ℕ) (l : List (Move Bool ℕ String)) s,
      (∀ n, (f.cache n).writeMode = .writeAround) →
      Run f.Step {} l s → ∀ n key order v, (f.run n (.get key) order s).1 = .ok (some v) →
        s.Since key v (s.clock - f.promoteTtl)) := by
  constructor
  · intro h
    have hrun : Run pairOfNodes.Step ({} : State Bool ℕ String)
        [.call true (.set 7 (some "a") none) fun _ => 0,
          .call false (.set 7 (some "b") none) fun _ => 0, .tick 100] _ :=
      .cons .call (.cons .call (.single (.tick (by decide))))
    have hsince := h pairOfNodes _ _ hrun true 7 (fun _ => 0) "a" (by decide +kernel)
    exact absurd hsince (by decide +kernel)
  · intro h
    have hpromoted : Run threeLayers.Step ({} : State Bool ℕ String)
        [.call false (.set 7 (some "a") none) fun _ => 0,
          .call false (.set 8 (some "c") none) fun _ => 0,
          .call true (.get 7) fun _ => 0, .call true (.get 8) fun _ => 0] _ :=
      .cons .call (.cons .call (.cons .call (.single .call)))
    have hwritten := hpromoted.append (.cons (a := .tick 5) (.tick (by decide))
      (.cons (a := .call false (.set 7 (some "b") none) fun _ => 0) .call
        (.single (a := .tick 10) (.tick (by decide)))))
    have hagain := hwritten.append (.cons (a := .call true (.get 7) fun _ => 0) .call
      (.single (a := .tick 20) (.tick (by decide +kernel))))
    have hsince := h threeLayers _ _ (fun _ => rfl) hagain true 7 (fun _ => 0) "a"
      (by decide +kernel)
    exact absurd hsince (by decide +kernel)

end CacheFleet

end Varco
