import Mathlib.Data.List.Induction
import Varco.Cache.ReadThrough

/-!
# Reading several keys and reading each

`read_through_many` repeats the case analysis of `read_through` in a loop, and both agree on what is
a hit, what is stale and what is a miss (`readThrough_eq`, `scan_spec`). But the bulk path serves a
stale value also where the policy asks for a blocking refresh, and it has no fallback to a stale
value when the loader raises: `agrees_iff` says when the two agree.
-/

namespace Varco

open List

namespace ReadContext

variable {c : ReadContext} {load : String → Except Exc PyValue} {loader : BatchLoader}
  {w w' : ReadWorld} {key k : String} {keys : List String}

/-- What a key is found to be: a hit, a stale value, or a miss, perhaps with an entry that has
expired. -/
inductive Lookup
  | hit (value : PyValue)
  | stale (value : PyValue)
  | miss (env : Option CacheEnvelope)

def classify (c : ReadContext) (raw : PyValue) : Lookup :=
  match CacheEnvelope.unwrap raw with
  | none => .hit raw
  | some env =>
    if env.isNegative then
      if env.hardExpired c.now then .miss (some env) else .hit .none
    else if env.hardExpired c.now then .miss (some env)
    else if env.softExpired c.now then .stale (c.coerce env.value)
    else .hit (c.coerce env.value)

def look (c : ReadContext) (w : ReadWorld) (key : String) : Lookup :=
  if (c.get w key).isNone then .miss none else c.classify (c.get w key)

def Lookup.isMiss : Lookup → Bool
  | .miss _ => true
  | _ => false

def Lookup.isStale : Lookup → Bool
  | .stale _ => true
  | _ => false

def Lookup.value? : Lookup → Option PyValue
  | .hit value => some value
  | .stale value => some value
  | .miss _ => none

/-- **One key**, by what it is found to be. -/
theorem readThrough_eq : c.readThrough load w key =
    match c.look w key with
    | .hit value => (.ok value, w)
    | .stale value => c.serveStaleAndRefresh load w key value
    | .miss env => c.compute load w key env := by
  unfold readThrough look classify
  cases hnone : (c.get w key).isNone with
  | true => simp [hnone]
  | false =>
    simp only [hnone, Bool.false_eq_true, if_false]
    cases CacheEnvelope.unwrap (c.get w key) with
    | none => rfl
    | some env =>
      simp only
      split_ifs <;> rfl

/-! ## One entry at a time -/

def stored (c : ReadContext) (item : Option CacheItem) (value : PyValue) : Option CacheItem :=
  (c.store ⟨fun _ => item, []⟩ "" value).store ""

theorem store_eq (w : ReadWorld) (key : String) (value : PyValue) :
    c.store w key value =
      { w with store := Function.update w.store key (c.stored (w.store key) value) } := by
  unfold stored store
  split
  · split
    · cases c.policy.negativeTtl with
      | none => simp
      | some negativeTtl => simp [set]
    · simp [set]
  · split
    · simp
    · simp [set]

def loadedItem (c : ReadContext) (load : String → Except Exc PyValue) (key : String)
    (item : Option CacheItem) : Option CacheItem :=
  match load key with
  | .error _ => item
  | .ok value => c.stored item value

theorem loadAndStore_snd : (c.loadAndStore load w key).2 =
    { w with store := Function.update w.store key (c.loadedItem load key (w.store key)) } := by
  unfold loadAndStore loadedItem
  cases load key with
  | error exc => simp
  | ok value => exact store_eq ..

def updated (g : String → Option CacheItem → Option CacheItem) (keys : List String)
    (store : String → Option CacheItem) (k : String) : Option CacheItem :=
  if k ∈ keys then g k (store k) else store k

/-- Steps that change one entry each, for different keys. -/
theorem foldl_update {f : ReadWorld → String → ReadWorld}
    {g : String → Option CacheItem → Option CacheItem} {refreshes : List String}
    (hf : ∀ w k, w.refreshes = refreshes →
      f w k = { w with store := Function.update w.store k (g k (w.store k)) })
    (hnodup : keys.Nodup) (w : ReadWorld) (hw : w.refreshes = refreshes) :
    keys.foldl f w = { w with store := updated g keys w.store } := by
  induction keys generalizing w with
  | nil =>
    have hnil : updated g [] w.store = w.store := by
      funext k
      simp [updated]
    rw [foldl_nil, hnil]
  | cons k' keys ih =>
    obtain ⟨hk', hkeys⟩ := nodup_cons.mp hnodup
    have hw' : (f w k').refreshes = refreshes := by rw [hf w k' hw, hw]
    rw [foldl_cons, ih hkeys _ hw', hf w k' hw]
    congr 1
    funext k
    by_cases hk : k = k'
    · subst hk
      simp [updated, hk']
    · simp [updated, hk]

/-! ## The loop over the keys -/

/-- What `get_many` returns. -/
theorem get?_getMany (w : ReadWorld) (keys : List String) (k : String) :
    (c.getMany w keys).get? k =
      if k ∈ keys ∧ (c.get w k).isNone = false then some (c.get w k) else none := by
  unfold getMany
  induction keys using List.reverseRecOn with
  | nil => simp
  | append_singleton keys k' ih =>
    rw [foldl_append, foldl_cons, foldl_nil]
    split
    case isTrue hnone =>
      rw [ih]
      by_cases hk : k = k'
      · subst hk
        simp [hnone]
      · simp [hk]
    case isFalse hnone =>
      rw [Dict.get?_set, ih]
      by_cases hk : k = k'
      · subst hk
        simp [hnone]
      · simp [hk]

def Scan.add (found : Scan) (k : String) : Lookup → Scan
  | .hit value => { found with result := found.result.set k value }
  | .stale value => { found with result := found.result.set k value }
  | .miss _ => { found with missing := found.missing ++ [k] }

theorem scan_cons {rawMap : Dict String PyValue} {found : Scan} {w₁ : ReadWorld}
    (hraw : rawMap.get? k = if (c.get w k).isNone then none else some (c.get w k)) :
    c.scan rawMap (k :: keys) found w₁ =
      c.scan rawMap keys (found.add k (c.look w k))
        (if c.singleflight && (c.look w k).isStale then spawnRefresh w₁ k else w₁) := by
  unfold look classify
  rw [scan]
  cases hnone : (c.get w k).isNone with
  | true =>
    rw [hnone] at hraw
    simp [hraw, Scan.add, Lookup.isStale]
  | false =>
    rw [hnone] at hraw
    simp only [hraw, Bool.false_eq_true, if_false]
    cases CacheEnvelope.unwrap (c.get w k) with
    | none => simp [Scan.add, Lookup.isStale]
    | some env =>
      simp only
      split_ifs <;> simp_all [Scan.add, Lookup.isStale]

def missing (c : ReadContext) (w : ReadWorld) (keys : List String) : List String :=
  keys.filter fun k => (c.look w k).isMiss

def refreshed (c : ReadContext) (w : ReadWorld) (keys : List String) : List String :=
  keys.filter fun k => c.singleflight && (c.look w k).isStale

/-- **The loop over the keys**: the misses are collected, the stale keys are refreshed if there is a
`Singleflight`, and every other key gets its value. -/
theorem scan_spec {rawMap : Dict String PyValue}
    (hraw : ∀ k ∈ keys, rawMap.get? k = if (c.get w k).isNone then none else some (c.get w k))
    (hnodup : keys.Nodup) (found : Scan) (w₁ : ReadWorld) :
    (c.scan rawMap keys found w₁).1.missing = found.missing ++ c.missing w keys ∧
      (∀ k, (c.scan rawMap keys found w₁).1.result.get? k =
        if k ∈ keys ∧ (c.look w k).isMiss = false then (c.look w k).value?
        else found.result.get? k) ∧
      (c.scan rawMap keys found w₁).2 =
        { w₁ with refreshes := w₁.refreshes ++ c.refreshed w keys } := by
  induction keys generalizing found w₁ with
  | nil => simp [scan, missing, refreshed]
  | cons k keys ih =>
    obtain ⟨hk, hkeys⟩ := nodup_cons.mp hnodup
    rw [scan_cons (hraw k mem_cons_self)]
    obtain ⟨hmissing, hresult, hworld⟩ := ih
      (fun k' hk' => hraw k' (mem_cons_of_mem _ hk')) hkeys (found.add k (c.look w k))
      (if c.singleflight && (c.look w k).isStale then spawnRefresh w₁ k else w₁)
    rw [hmissing, hworld]
    refine ⟨?_, fun k' => ?_, ?_⟩
    · cases hlook : c.look w k <;> simp [Scan.add, missing, hlook, Lookup.isMiss]
    · rw [hresult]
      by_cases hkk : k' = k
      · subst hkk
        cases c.look w k' <;> simp [hk, Scan.add, Lookup.isMiss, Lookup.value?]
      · cases c.look w k <;> simp [hkk, Scan.add, Dict.get?_set]
    · cases hstale : c.singleflight && (c.look w k).isStale with
      | true => simp [refreshed, hstale, spawnRefresh]
      | false => simp [refreshed, hstale]

/-! ## The misses -/

theorem storeMany_eq (w : ReadWorld) (items : List (String × PyValue)) :
    c.storeMany w items = items.foldl (fun w p => c.store w p.1 p.2) w := by
  unfold storeMany
  split
  · rfl
  · rename_i henv
    have hstore : ∀ (w : ReadWorld) (p : String × PyValue),
        (if (!p.2.isNone) = true then set w p.1 p.2 (c.policy.effectiveTtl c.random) else w) =
          c.store w p.1 p.2 := by
      intro w p
      unfold store
      cases hnone : p.2.isNone <;> simp [henv]
    simp only [ite_self, foldl_filter, hstore]

theorem flights_ok (batch : Dict String PyValue) (keys : List String) (w : ReadWorld) :
    c.flights (.ok batch) keys w = (keys.map fun k => .ok (batchGet batch k),
      keys.foldl (fun w k => c.store w k (batchGet batch k)) w) := by
  induction keys generalizing w with
  | nil => rfl
  | cons k keys ih => simp [flights, wrapper, ih]

theorem flights_error (exc : Exc) (keys : List String) (w : ReadWorld) :
    c.flights (.error exc) keys w = (keys.map fun _ => .error exc, w) := by
  induction keys generalizing w with
  | nil => rfl
  | cons k keys ih => simp [flights, wrapper, ih]

theorem collect_ok (f : String → PyValue) (keys : List String) (result : Dict String PyValue) :
    collect keys (keys.map fun k => .ok (f k)) result =
      .ok (keys.foldl (fun result k => result.set k (f k)) result) := by
  induction keys generalizing result with
  | nil => rfl
  | cons k keys ih => simp [collect, ih]

theorem scan_getMany (hnodup : keys.Nodup) (w : ReadWorld) :
    (c.scan (c.getMany w keys) keys {} w).1.missing = c.missing w keys ∧
      (∀ k ∈ keys, (c.look w k).isMiss = false →
        (c.scan (c.getMany w keys) keys {} w).1.result.get? k = (c.look w k).value?) ∧
      (c.scan (c.getMany w keys) keys {} w).2 =
        { w with refreshes := w.refreshes ++ c.refreshed w keys } := by
  have hraw : ∀ k ∈ keys, (c.getMany w keys).get? k =
      if (c.get w k).isNone then none else some (c.get w k) := by
    intro k hk
    rw [get?_getMany]
    cases hnone : (c.get w k).isNone <;> simp [hk]
  obtain ⟨h₁, h₂, h₃⟩ := scan_spec hraw hnodup {} w
  refine ⟨by simpa using h₁, fun k hk hmiss => ?_, h₃⟩
  rw [h₂, if_pos ⟨hk, hmiss⟩]

def found (c : ReadContext) (w : ReadWorld) (keys : List String) : Dict String PyValue :=
  (c.scan (c.getMany w keys) keys {} w).1.result

/-- **Several keys, if the batch loader returns.** -/
theorem readThroughMany_ok {batch : Dict String PyValue} (hnodup : keys.Nodup)
    (hbatch : c.missing w keys = [] ∨ loader (c.missing w keys) = .ok batch) :
    c.readThroughMany loader w keys =
      (.ok ((c.missing w keys).foldl (fun result k => result.set k (batchGet batch k))
          (c.found w keys)),
        (c.missing w keys).foldl (fun w k => c.store w k (batchGet batch k))
          { w with refreshes := w.refreshes ++ c.refreshed w keys }) := by
  obtain ⟨hmissing, -, hworld⟩ := scan_getMany (c := c) hnodup w
  cases keys with
  | nil => simp [readThroughMany, missing, refreshed, found, scan]
  | cons k keys =>
    unfold readThroughMany found
    simp only [isEmpty_cons, Bool.false_eq_true, if_false, hmissing, hworld]
    cases hm : c.missing w (k :: keys) with
    | nil => simp
    | cons m ms =>
      rw [hm] at hbatch
      have hbatch' : loader (m :: ms) = .ok batch := by
        rcases hbatch with hnil | hbatch
        · cases hnil
        · exact hbatch
      simp only [isEmpty_cons, Bool.false_eq_true, if_false, hbatch']
      split
      · rw [flights_ok, collect_ok]
      · rw [storeMany_eq]
        simp only [foldl_map]

/-- **Several keys, if the batch loader raises.** -/
theorem readThroughMany_error {exc : Exc} (hnodup : keys.Nodup) (hmiss : c.missing w keys ≠ [])
    (hbatch : loader (c.missing w keys) = .error exc) :
    c.readThroughMany loader w keys =
      (.error exc, { w with refreshes := w.refreshes ++ c.refreshed w keys }) := by
  obtain ⟨hmissing, -, hworld⟩ := scan_getMany (c := c) hnodup w
  cases keys with
  | nil => exact absurd rfl hmiss
  | cons k keys =>
    unfold readThroughMany
    simp only [isEmpty_cons, Bool.false_eq_true, if_false, hmissing, hworld]
    cases hm : c.missing w (k :: keys) with
    | nil => exact absurd hm hmiss
    | cons m ms =>
      rw [hm] at hbatch
      simp only [isEmpty_cons, Bool.false_eq_true, if_false, hbatch]
      split
      · rw [flights_error]
        rfl
      · rfl

/-! ## Both paths -/

/-- A batch loader that is consistent with a loader for one key: it returns the same values, and it
raises only for a batch with a key whose load raises. -/
def Consistent (load : String → Except Exc PyValue) (loader : BatchLoader) : Prop :=
  ∀ ks, ks ≠ [] → match loader ks with
    | .ok batch => ∀ k ∈ ks, load k = .ok (batchGet batch k)
    | .error _ => ∃ k ∈ ks, ∃ exc, load k = .error exc

/-- `read_through` of a key, and its background refresh. -/
def readOne (c : ReadContext) (load : String → Except Exc PyValue) (w : ReadWorld) (key : String) :
    Except Exc PyValue × ReadWorld :=
  ((c.readThrough load w key).1, drain (c.loadAndStore load) (c.readThrough load w key).2)

/-- `read_through` of one key after the other. -/
def readEach (c : ReadContext) (load : String → Except Exc PyValue) (w : ReadWorld)
    (keys : List String) : ReadWorld :=
  keys.foldl (fun w k => (c.readOne load w k).2) w

/-- `read_through_many` of the keys, and its background refreshes. -/
def readMany (c : ReadContext) (loader : BatchLoader) (w : ReadWorld) (keys : List String) :
    Except Exc (Dict String PyValue) × ReadWorld :=
  ((c.readThroughMany loader w keys).1,
    drain (c.loadOneAndStore loader) (c.readThroughMany loader w keys).2)

/-- The two paths agree: they raise in the same cases, they return the same values, and they leave
the same entries in the cache. -/
structure Agrees (c : ReadContext) (load : String → Except Exc PyValue) (loader : BatchLoader)
    (store : String → Option CacheItem) (keys : List String) : Prop where
  raises : (∃ exc, (c.readMany loader ⟨store, []⟩ keys).1 = .error exc) ↔
    ∃ k ∈ keys, ∃ exc, (c.readOne load ⟨store, []⟩ k).1 = .error exc
  values : ∀ result, (c.readMany loader ⟨store, []⟩ keys).1 = .ok result →
    ∀ k ∈ keys, ∃ value, result.get? k = some value ∧
      (c.readOne load ⟨store, []⟩ k).1 = .ok value
  entries : (c.readMany loader ⟨store, []⟩ keys).2.store = (c.readEach load ⟨store, []⟩ keys).store

/-! ## The entries of one path and of the other -/

def readItem (c : ReadContext) (load : String → Except Exc PyValue) (key : String)
    (item : Option CacheItem) : Option CacheItem :=
  match c.look ⟨fun _ => item, []⟩ key with
  | .hit _ => item
  | .stale _ => if c.singleflight then c.loadedItem load key item else item
  | .miss _ => c.loadedItem load key item

/-- What a key is found to be depends on its entry alone. -/
theorem look_entry (c : ReadContext) (w : ReadWorld) (key : String) :
    c.look ⟨fun _ => w.store key, []⟩ key = c.look w key := rfl

theorem compute_snd {env : Option CacheEnvelope} :
    (c.compute load w key env).2 = (c.loadAndStore load w key).2 := by
  unfold compute
  rcases hout : c.loadAndStore load w key with ⟨_ | _, w'⟩
  case error exc =>
    cases exc with
    | cancelled => rfl
    | error e => cases c.fallback env <;> rfl
  case ok => rfl

theorem drain_nil {refresh : ReadWorld → String → Except Exc PyValue × ReadWorld}
    (hrefreshes : w.refreshes = []) : drain refresh w = w := by
  obtain ⟨store, refreshes⟩ := w
  subst hrefreshes
  rfl

/-- **One read** changes the entry of its key. -/
theorem readOne_snd (hw : w.refreshes = []) : (c.readOne load w key).2 =
    { w with store := Function.update w.store key (c.readItem load key (w.store key)) } := by
  unfold readOne readItem
  rw [readThrough_eq, look_entry]
  cases c.look w key with
  | hit value => simp [drain_nil hw]
  | stale value =>
    unfold serveStaleAndRefresh
    cases hsf : c.singleflight with
    | false => simp [drain_nil hw]
    | true =>
      cases hmode : c.policy.refreshMode with
      | blocking =>
        simp only [Bool.and_self, decide_true, if_true]
        rw [loadAndStore_snd]
        exact drain_nil hw
      | background =>
        simp only [reduceCtorEq, decide_false, Bool.and_true, Bool.false_eq_true, if_false, if_true]
        simp only [drain, spawnRefresh, hw, nil_append, foldl_cons, foldl_nil]
        rw [loadAndStore_snd]
  | miss env =>
    simp only
    rw [compute_snd, loadAndStore_snd]
    exact drain_nil hw

/-- **The keys, read one after the other.** -/
theorem readEach_store (hnodup : keys.Nodup) (store : String → Option CacheItem) :
    (c.readEach load ⟨store, []⟩ keys).store = updated (c.readItem load) keys store := by
  unfold readEach
  rw [foldl_update (fun w k hw => readOne_snd hw) hnodup ⟨store, []⟩ rfl]

/-- For a consistent batch loader a refresh does what it does for the loader of one key. -/
theorem loadOneAndStore_snd (hcons : Consistent load loader) :
    (c.loadOneAndStore loader w key).2 =
      { w with store := Function.update w.store key (c.loadedItem load key (w.store key)) } := by
  have hkey := hcons [key] (by simp)
  unfold loadOneAndStore loadedItem
  cases hbatch : loader [key] with
  | ok batch =>
    rw [hbatch] at hkey
    rw [hkey key (by simp)]
    exact store_eq ..
  | error exc =>
    rw [hbatch] at hkey
    obtain ⟨k, hk, exc', hload⟩ := hkey
    rw [mem_singleton] at hk
    subst hk
    simp [hload]

theorem nodup_refreshed (hnodup : keys.Nodup) : (c.refreshed w keys).Nodup := hnodup.filter _

theorem nodup_missing (hnodup : keys.Nodup) : (c.missing w keys).Nodup := hnodup.filter _

theorem drain_store (hcons : Consistent load loader) (hnodup : w.refreshes.Nodup) :
    (drain (c.loadOneAndStore loader) w).store =
      updated (c.loadedItem load) w.refreshes w.store := by
  unfold drain
  rw [foldl_update (fun w k _ => loadOneAndStore_snd hcons) hnodup { w with refreshes := [] } rfl]

theorem mem_missing : k ∈ c.missing w keys ↔ k ∈ keys ∧ ∃ env, c.look w k = .miss env := by
  unfold missing
  rw [mem_filter]
  cases c.look w k <;> simp [Lookup.isMiss]

theorem mem_refreshed : k ∈ c.refreshed w keys ↔
    k ∈ keys ∧ c.singleflight = true ∧ ∃ value, c.look w k = .stale value := by
  unfold refreshed
  rw [mem_filter]
  cases c.look w k <;> simp [Lookup.isStale]

/-- The entry of a key that is read: it is loaded if it is a miss, or if it is refreshed. -/
theorem updated_readItem (store : String → Option CacheItem) (k : String) :
    updated (c.readItem load) keys store k =
      if k ∈ c.missing ⟨store, []⟩ keys ∨ k ∈ c.refreshed ⟨store, []⟩ keys then
        c.loadedItem load k (store k)
      else store k := by
  have hlook := look_entry c ⟨store, []⟩ k
  unfold updated readItem
  rw [hlook]
  by_cases hk : k ∈ keys
  · cases hl : c.look ⟨store, []⟩ k <;> simp [hk, mem_missing, mem_refreshed, hl]
  · simp [hk, mem_missing, mem_refreshed]

theorem not_mem_missing_of_mem_refreshed (hk : k ∈ c.refreshed w keys) :
    k ∉ c.missing w keys := by
  obtain ⟨-, -, value, hstale⟩ := mem_refreshed.mp hk
  intro hmiss
  obtain ⟨-, env, hlook⟩ := mem_missing.mp hmiss
  rw [hstale] at hlook
  cases hlook

/-! ## Several keys, for a consistent batch loader -/

def Loads (c : ReadContext) (load : String → Except Exc PyValue)
    (store : String → Option CacheItem) (keys : List String) : Prop :=
  ∀ k ∈ c.missing ⟨store, []⟩ keys, ∃ value, load k = .ok value

variable {store : String → Option CacheItem}

/-- If the loads of the misses return, so does the batch loader. -/
theorem Consistent.returns (hcons : Consistent load loader)
    (hloads : c.Loads load store keys) :
    ∃ batch, (c.missing ⟨store, []⟩ keys = [] ∨ loader (c.missing ⟨store, []⟩ keys) = .ok batch) ∧
      ∀ k ∈ c.missing ⟨store, []⟩ keys, load k = .ok (batchGet batch k) := by
  by_cases hnil : c.missing ⟨store, []⟩ keys = []
  · exact ⟨.empty, .inl hnil, by simp [hnil]⟩
  · have hbatch := hcons _ hnil
    cases hloader : loader (c.missing ⟨store, []⟩ keys) with
    | ok batch =>
      rw [hloader] at hbatch
      exact ⟨batch, .inr rfl, hbatch⟩
    | error exc =>
      rw [hloader] at hbatch
      obtain ⟨k, hk, exc', hraises⟩ := hbatch
      obtain ⟨value, hvalue⟩ := hloads k hk
      rw [hvalue] at hraises
      cases hraises

/-- If a load of a miss raises, so does the batch loader. -/
theorem Consistent.raises (hcons : Consistent load loader)
    (hloads : ¬ c.Loads load store keys) :
    c.missing ⟨store, []⟩ keys ≠ [] ∧
      ∃ exc, loader (c.missing ⟨store, []⟩ keys) = .error exc := by
  have hnil : c.missing ⟨store, []⟩ keys ≠ [] := by
    intro hnil
    exact hloads (by simp [Loads, hnil])
  refine ⟨hnil, ?_⟩
  have hbatch := hcons _ hnil
  cases hloader : loader (c.missing ⟨store, []⟩ keys) with
  | ok batch =>
    rw [hloader] at hbatch
    exact absurd (fun k hk => ⟨_, hbatch k hk⟩) hloads
  | error exc => exact ⟨exc, rfl⟩

def bulkValue (c : ReadContext) (load : String → Except Exc PyValue) (w : ReadWorld)
    (key : String) : Except Exc PyValue :=
  match c.look w key with
  | .hit value => .ok value
  | .stale value => .ok value
  | .miss _ => load key

/-- **The bulk path, if the loads return**: every key has its value, and the entries are those of
the single path. -/
theorem readMany_loads (hnodup : keys.Nodup) (hcons : Consistent load loader)
    (hloads : c.Loads load store keys) :
    (∃ result, (c.readMany loader ⟨store, []⟩ keys).1 = .ok result ∧
      ∀ k ∈ keys, ∃ value, result.get? k = some value ∧
        c.bulkValue load ⟨store, []⟩ k = .ok value) ∧
      (c.readMany loader ⟨store, []⟩ keys).2.store =
        (c.readEach load ⟨store, []⟩ keys).store := by
  obtain ⟨batch, hbatch, hvalues⟩ := hcons.returns hloads
  unfold readMany
  rw [readThroughMany_ok hnodup hbatch]
  constructor
  · refine ⟨_, rfl, fun k hk => ?_⟩
    rw [Dict.get?_foldl_set]
    by_cases hmiss : k ∈ c.missing ⟨store, []⟩ keys
    · obtain ⟨-, env, hlook⟩ := mem_missing.mp hmiss
      rw [if_pos hmiss]
      exact ⟨_, rfl, by rw [bulkValue, hlook, hvalues k hmiss]⟩
    · have hfound : (c.look ⟨store, []⟩ k).isMiss = false := by
        rw [mem_missing] at hmiss
        cases hlook : c.look ⟨store, []⟩ k with
        | hit => rfl
        | stale => rfl
        | miss env => exact absurd ⟨hk, env, hlook⟩ hmiss
      rw [if_neg hmiss, found, (scan_getMany hnodup _).2.1 k hk hfound, bulkValue]
      cases hlook : c.look ⟨store, []⟩ k with
      | hit value => exact ⟨value, rfl, rfl⟩
      | stale value => exact ⟨value, rfl, rfl⟩
      | miss env =>
        rw [hlook] at hfound
        cases hfound
  · rw [foldl_update (g := fun k item => c.stored item (batchGet batch k))
        (fun w k _ => store_eq w k _) (nodup_missing hnodup) _ rfl,
      drain_store hcons (by simpa using nodup_refreshed hnodup), readEach_store hnodup]
    funext k
    rw [updated_readItem]
    simp only [nil_append]
    by_cases href : k ∈ c.refreshed ⟨store, []⟩ keys
    · simp [updated, href, not_mem_missing_of_mem_refreshed href]
    · by_cases hmiss : k ∈ c.missing ⟨store, []⟩ keys
      · simp [updated, href, hmiss, loadedItem, hvalues k hmiss]
      · simp [updated, href, hmiss]

/-- **The bulk path, if a load raises**: it raises, and only the refreshed keys are loaded. -/
theorem readMany_raises (hnodup : keys.Nodup) (hcons : Consistent load loader)
    (hloads : ¬ c.Loads load store keys) :
    (∃ exc, (c.readMany loader ⟨store, []⟩ keys).1 = .error exc) ∧
      (c.readMany loader ⟨store, []⟩ keys).2.store =
        updated (c.loadedItem load) (c.refreshed ⟨store, []⟩ keys) store := by
  obtain ⟨hnil, exc, hraises⟩ := hcons.raises hloads
  unfold readMany
  rw [readThroughMany_error hnodup hnil hraises]
  refine ⟨⟨exc, rfl⟩, ?_⟩
  rw [drain_store hcons (by simpa using nodup_refreshed hnodup)]
  simp only [nil_append]

/-! ## When both agree -/

def blocks (c : ReadContext) : Bool := c.policy.refreshMode = .blocking && c.singleflight

theorem readOne_stale {value : PyValue} (hlook : c.look w k = .stale value) :
    (c.readOne load w k).1 = if c.blocks then load k else .ok value := by
  unfold readOne blocks
  rw [readThrough_eq, hlook]
  simp only [serveStaleAndRefresh]
  split
  · unfold loadAndStore
    cases load k <;> rfl
  · split <;> rfl

theorem readOne_miss {env : Option CacheEnvelope} (hlook : c.look w k = .miss env) :
    (c.readOne load w k).1 = match load k with
      | .ok value => .ok value
      | .error .cancelled => .error .cancelled
      | .error (.error exc) =>
        match c.fallback env with
        | some value => .ok value
        | none => .error (.error exc) := by
  unfold readOne
  rw [readThrough_eq, hlook]
  simp only [compute, loadAndStore]
  cases load k with
  | ok value => rfl
  | error exc =>
    cases exc with
    | cancelled => rfl
    | error e =>
      simp only
      cases c.fallback env <;> rfl

theorem readOne_hit {value : PyValue} (hlook : c.look w k = .hit value) :
    (c.readOne load w k).1 = .ok value := by
  unfold readOne
  rw [readThrough_eq, hlook]

/-- The single path raises: the key is a miss whose load raises and that has no stale value to fall
back to, or it is stale and the refresh that it waits for raises. -/
def Raises (c : ReadContext) (load : String → Except Exc PyValue)
    (store : String → Option CacheItem) (k : String) : Prop :=
  match c.look ⟨store, []⟩ k with
  | .hit _ => False
  | .stale _ => c.blocks = true ∧ ∃ exc, load k = .error exc
  | .miss env => ∃ exc, load k = .error exc ∧ (exc = .cancelled ∨ c.fallback env = none)

theorem readOne_error_iff :
    (∃ exc, (c.readOne load ⟨store, []⟩ k).1 = .error exc) ↔ c.Raises load store k := by
  unfold Raises
  cases hlook : c.look ⟨store, []⟩ k with
  | hit value => simp [readOne_hit hlook]
  | stale value =>
    rw [readOne_stale hlook]
    cases c.blocks <;> simp
  | miss env =>
    rw [readOne_miss hlook]
    cases load k with
    | ok value => simp
    | error exc =>
      cases exc with
      | cancelled => simp
      | error e => cases hfallback : c.fallback env <;> simp [hfallback]

/-- What the single path returns for a key, if the loads of the misses return: what the bulk path
returns, unless it waits for the refresh of a stale key. -/
theorem readOne_loads (hloads : c.Loads load store keys)
    (hk : k ∈ keys) : (c.readOne load ⟨store, []⟩ k).1 = c.bulkValue load ⟨store, []⟩ k ↔
      ∀ value, c.look ⟨store, []⟩ k = .stale value → c.blocks = true → load k = .ok value := by
  unfold bulkValue
  cases hlook : c.look ⟨store, []⟩ k with
  | hit value => simp [readOne_hit hlook]
  | stale value =>
    rw [readOne_stale hlook]
    cases c.blocks <;> simp
  | miss env =>
    obtain ⟨value, hvalue⟩ := hloads k (mem_missing.mpr ⟨hk, env, hlook⟩)
    simp [readOne_miss hlook, hvalue]

/-- If a load raises, the entries are the same as long as the other misses store nothing new. -/
theorem entries_iff :
    updated (c.loadedItem load) (c.refreshed ⟨store, []⟩ keys) store =
        updated (c.readItem load) keys store ↔
      ∀ k ∈ c.missing ⟨store, []⟩ keys, ∀ value, load k = .ok value →
        c.stored (store k) value = store k := by
  constructor
  · intro hentries k hmiss value hvalue
    have hk := congrFun hentries k
    have href : k ∉ c.refreshed ⟨store, []⟩ keys :=
      fun href => not_mem_missing_of_mem_refreshed href hmiss
    rw [updated_readItem, if_pos (.inl hmiss), updated, if_neg href, loadedItem, hvalue] at hk
    exact hk.symm
  · intro hstored
    funext k
    rw [updated_readItem, updated]
    by_cases href : k ∈ c.refreshed ⟨store, []⟩ keys
    · simp [href]
    · by_cases hmiss : k ∈ c.missing ⟨store, []⟩ keys
      · rw [if_neg href, if_pos (.inl hmiss), loadedItem]
        cases hload : load k with
        | ok value => exact (hstored k hmiss value hload).symm
        | error exc => rfl
      · simp [href, hmiss]

/-- **When reading several keys agrees with reading each.** If the loads of the misses return, then
no stale key may wait for a refresh that gives another value. If one of them raises, then the single
path must raise somewhere too, which it does unless a stale value stands in, and the misses whose
loads return must have nothing new to store. -/
theorem agrees_iff (c : ReadContext) (load : String → Except Exc PyValue) (loader : BatchLoader)
    (store : String → Option CacheItem) (keys : List String) (hnodup : keys.Nodup)
    (hcons : Consistent load loader) :
    c.Agrees load loader store keys ↔
      (c.Loads load store keys → ∀ k ∈ keys, ∀ value, c.look ⟨store, []⟩ k = .stale value →
        c.blocks = true → load k = .ok value) ∧
      (¬ c.Loads load store keys → (∃ k ∈ keys, c.Raises load store k) ∧
        ∀ k ∈ c.missing ⟨store, []⟩ keys, ∀ value, load k = .ok value →
          c.stored (store k) value = store k) := by
  by_cases hloads : c.Loads load store keys
  · obtain ⟨⟨result, hresult, hvalues⟩, hentries⟩ := readMany_loads hnodup hcons hloads
    simp only [hloads, forall_const, not_true_eq_false, IsEmpty.forall_iff, and_true]
    constructor
    · intro hagrees k hk
      rw [← readOne_loads hloads hk]
      obtain ⟨value, hget, hone⟩ := hagrees.values result hresult k hk
      obtain ⟨value', hget', hbulk⟩ := hvalues k hk
      rw [hget] at hget'
      cases hget'
      rw [hone, hbulk]
    · intro hstale
      have hone : ∀ k ∈ keys, ∃ value, result.get? k = some value ∧
          (c.readOne load ⟨store, []⟩ k).1 = .ok value := by
        intro k hk
        obtain ⟨value, hget, hbulk⟩ := hvalues k hk
        exact ⟨value, hget, by rw [(readOne_loads hloads hk).mpr (hstale k hk), hbulk]⟩
      refine ⟨⟨?_, ?_⟩, ?_, hentries⟩
      · rintro ⟨exc, hexc⟩
        rw [hresult] at hexc
        cases hexc
      · rintro ⟨k, hk, exc, hexc⟩
        obtain ⟨value, -, hvalue⟩ := hone k hk
        rw [hvalue] at hexc
        cases hexc
      · intro result' hresult'
        rw [hresult] at hresult'
        cases hresult'
        exact hone
  · obtain ⟨⟨exc, hexc⟩, hentries⟩ := readMany_raises hnodup hcons hloads
    simp only [hloads, not_false_eq_true, forall_const, IsEmpty.forall_iff, true_and]
    rw [← entries_iff, ← readEach_store hnodup, ← hentries]
    simp only [← readOne_error_iff]
    constructor
    · intro hagrees
      exact ⟨hagrees.raises.mp ⟨exc, hexc⟩, hagrees.entries⟩
    · rintro ⟨hraises, hsame⟩
      refine ⟨⟨fun _ => hraises, fun _ => ⟨exc, hexc⟩⟩, ?_, hsame⟩
      intro result hresult
      rw [hexc] at hresult
      cases hresult

/-- A policy with `ttl=10` and `stale_if_error=100`, twenty seconds after the epoch. -/
def staleOnError : ReadContext where
  policy := { ttl := some ⟨10, "10"⟩, staleIfError := some ⟨100, "100"⟩ }
  now := 20

/-- An entry that was stored at the epoch and has expired ten seconds later. -/
def expired (key : String) : Option CacheItem :=
  if key = "a" then some ⟨CacheEnvelope.wrap ⟨.str "old", 0, none, some 10, false⟩, some 110⟩
  else none

def echo (ks : List String) : Except Exc (Dict String PyValue) :=
  .ok (ks.foldl (fun d k => d.set k (.str k)) .empty)

theorem echo_consistent : Consistent (fun k => .ok (.str k)) echo := by
  intro ks _ k hk
  rw [batchGet, Dict.get?_foldl_set, if_pos hk, Option.getD_some]

/-- An expired key and a missing one are loaded by both paths. -/
theorem agrees_iff_loaded :
    staleOnError.Agrees (fun k => .ok (.str k)) echo expired ["a", "b"] := by
  have hiff := agrees_iff staleOnError _ echo expired ["a", "b"] (by decide) echo_consistent
  refine hiff.mpr ⟨?_, ?_⟩
  · intro _ k _ value _ hblocks
    exact absurd hblocks (by decide)
  · intro hloads
    exact absurd (fun k _ => ⟨_, rfl⟩) hloads

/-- The loaders are down, and the key has expired within its `stale_if_error` window: the single
path serves the stale value, the bulk path raises. -/
theorem stale_if_error_dropped :
    ¬ ∀ (c : ReadContext) (load : String → Except Exc PyValue) (loader : BatchLoader)
      (store : String → Option CacheItem) (keys : List String), keys.Nodup →
      Consistent load loader → c.Agrees load loader store keys := by
  intro hall
  let exc : Exc := .error (.valueError "down")
  have hcons : Consistent (fun _ => .error exc) (fun _ => .error exc) := by
    intro ks hks
    exact ⟨ks.head hks, head_mem hks, exc, rfl⟩
  have hagrees := hall staleOnError (fun _ => .error exc) (fun _ => .error exc) expired ["a"]
    (by decide) hcons
  obtain ⟨k, hk, exc', hraises⟩ := hagrees.raises.mp ⟨exc, rfl⟩
  rw [mem_singleton] at hk
  subst hk
  have hserved : (staleOnError.readOne (fun _ => .error exc) ⟨expired, []⟩ "a").1.isOk = true := by
    decide +kernel
  rw [hraises] at hserved
  cases hserved

end ReadContext

end Varco
