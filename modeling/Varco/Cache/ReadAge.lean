import Varco.Cache.BulkReadThrough
import Varco.Foundations.Run

/-!
# How old a read-through value is

Calls of `read_through` on one key, one after the other, over a cache that drops an entry when the
time to live it was set with is over. The loader takes its time, and each call has its own result of
it. An entry is kept with the result that it was made of, so that what a call serves can be compared
with its age (`reads_allowed`).

A value that itself looks like an envelope is read as one, and the cache drops an entry at the very
end of its `stale_if_error` seconds, when the fallback would still serve it. A blocking refresh has
no fallback: where it raises, a value is withheld that has not expired.
-/

namespace Varco

open List

/-! ## Calls on one key -/

/-- An invocation of the loader: the clock when it has ended, the fraction that is drawn then, and
what came of it. -/
structure Loading where
  time : ℚ
  random : ℚ := 0
  result : Except PyException PyValue

/-- An entry of the cache, and the invocation that it stems from. -/
structure HeldItem where
  item : CacheItem
  source : Loading

namespace HeldItem

/-- The time to live is not over. -/
def live (held : HeldItem) (now : ℚ) : Bool :=
  held.item.ttl.all fun ttl => now < held.source.time + ttl

/-- The entry is not one for `None`. -/
def Positive (held : HeldItem) : Prop := ∃ v, held.source.result = .ok v ∧ v.isNone = false

end HeldItem

/-- What there is for the key, and the invocations so far. -/
structure KeyReads where
  held : Option HeldItem := none
  loadings : List Loading := []

/-- A call of `read_through`: the clock as it begins, and what its loader does, in the foreground
and in the background, if it is invoked there. -/
structure ReadCall where
  start : ℚ
  loading : Loading
  refresh : Loading

structure ReadAnswer where
  out : Except PyException PyValue
  foreground : List Loading
  after : KeyReads

namespace KeyReads

variable (policy : CachePolicy) (singleflight : Bool)

def context (now random : ℚ) : ReadContext := { policy, singleflight, now, random }

/-- What `_store` sets of a value. -/
def stored (loading : Loading) (value : PyValue) : Option CacheItem :=
  (context policy singleflight loading.time loading.random).stored none value

/-- `cache.get(key)` -/
def found (s : KeyReads) (now : ℚ) : Option CacheItem :=
  (s.held.filter (·.live now)).map HeldItem.item

/-- What the key is found to be. -/
def look (s : KeyReads) (now : ℚ) : ReadContext.Lookup :=
  (context policy singleflight now 0).look ⟨fun _ => s.found now, []⟩ ""

def loadAndStore (s : KeyReads) (loading : Loading) : KeyReads where
  loadings := s.loadings ++ [loading]
  held :=
    match loading.result with
    | .error _ => s.held
    | .ok value =>
      match stored policy singleflight loading value with
      | none => s.held
      | some item => some ⟨item, loading⟩

/-- `read_through`, and its background refresh. -/
def readThrough (s : KeyReads) (call : ReadCall) : ReadAnswer :=
  let loaded := s.loadAndStore policy singleflight call.loading
  match s.look policy singleflight call.start with
  | .hit value => ⟨.ok value, [], s⟩
  | .stale value =>
    if policy.refreshMode = .blocking && singleflight then
      ⟨call.loading.result, [call.loading], loaded⟩
    else if singleflight then ⟨.ok value, [], s.loadAndStore policy singleflight call.refresh⟩
    else ⟨.ok value, [], s⟩
  | .miss env =>
    match call.loading.result with
    | .ok value => ⟨.ok value, [call.loading], loaded⟩
    | .error e =>
      ⟨((context policy singleflight call.start 0).fallback env).elim (.error e) .ok,
        [call.loading], loaded⟩

/-! ## What a policy allows -/

/-- A value that the loader returned may be served by a call that begins at `start`: it has not
expired, or the loader raised, and it is within `stale_if_error` seconds of its expiry. -/
def Within (loading : Loading) (start : ℚ) (raised : Prop) : Prop :=
  (∀ ttl ∈ policy.effectiveTtl loading.random, start < loading.time + ttl) ∨
    raised ∧ ∃ ttl ∈ policy.effectiveTtl loading.random, ∃ stale ∈ policy.staleIfError,
      start ≤ loading.time + ttl + stale.val

/-- What a call owes its caller, in terms of the invocations so far. A value is stored if it is what
an entry stems from that counts. -/
structure Allowed (counts : HeldItem → Prop) (s : KeyReads) (call : ReadCall)
    (answer : ReadAnswer) : Prop where
  once : answer.foreground.length ≤ 1
  value : ∀ v, answer.out = .ok v → (∃ l ∈ answer.foreground, l.result = .ok v) ∨
    ∃ l ∈ s.loadings, l.result = .ok v ∧ l.time ≤ call.start ∧
      (v.isNone = false →
        Within policy l call.start (∃ l ∈ answer.foreground, ∃ e, l.result = .error e)) ∧
      (v.isNone = true → ∃ ttl ∈ policy.negativeTtl, call.start < l.time + ttl.val)
  raises : ∀ e, answer.out = .error e → (∃ l ∈ answer.foreground, l.result = .error e) ∧
    ∀ held ∈ s.held, counts held → held.Positive → ¬Within policy held.source call.start True

/-- An entry that is found is read as what it is. -/
def Plain (s : KeyReads) (call : ReadCall) : Prop :=
  policy.requiresEnvelope = false → ∀ held ∈ s.held, held.live call.start = true →
    CacheEnvelope.unwrap held.item.payload = none

/-- The cache has the entry, and a blocking refresh does not stand in for it: it does from the soft
expiry to the expiry. -/
structure Readable (call : ReadCall) (held : HeldItem) : Prop where
  live : held.live call.start = true
  served : policy.refreshMode = .blocking → singleflight = true →
    (∃ soft ∈ policy.softTtl, held.source.time + soft.val ≤ call.start) →
    ∃ ttl ∈ policy.effectiveTtl held.source.random, held.source.time + ttl ≤ call.start

/-- The clock does not go back. -/
structure Forward (s : KeyReads) (call : ReadCall) : Prop where
  start : ∀ l ∈ s.loadings, l.time ≤ call.start
  loading : call.start ≤ call.loading.time
  refresh : call.start ≤ call.refresh.time

def Step (s : KeyReads) (call : ReadCall) (s' : KeyReads) : Prop :=
  Forward s call ∧ s' = (s.readThrough policy singleflight call).after

/-! ## What a call finds -/

variable {policy singleflight} {s s' : KeyReads} {call : ReadCall}

/-- The entry stems from an invocation, as `_store` has set it. -/
def Sourced (policy : CachePolicy) (singleflight : Bool) (s : KeyReads) : Prop :=
  ∀ held ∈ s.held, held.source ∈ s.loadings ∧ ∃ v, held.source.result = .ok v ∧
    stored policy singleflight held.source v = some held.item

theorem Sourced.loadAndStore (h : Sourced policy singleflight s) (loading : Loading) :
    Sourced policy singleflight (s.loadAndStore policy singleflight loading) := by
  have hkept : ∀ held ∈ s.held, held.source ∈ s.loadings ++ [loading] ∧
      ∃ v, held.source.result = .ok v ∧
        stored policy singleflight held.source v = some held.item :=
    fun held hheld => (h held hheld).imp_left (mem_append_left _)
  intro held hheld
  unfold KeyReads.loadAndStore at hheld
  cases hresult : loading.result with
  | error e =>
    simp only [hresult] at hheld
    exact hkept held hheld
  | ok value =>
    cases hitem : stored policy singleflight loading value with
    | none =>
      simp only [hresult, hitem] at hheld
      exact hkept held hheld
    | some item =>
      simp only [hresult, hitem] at hheld
      cases hheld
      exact ⟨mem_append_right _ mem_cons_self, value, hresult, hitem⟩

/-- What `_store` sets: the value, an envelope of `None`, or an envelope of the value that is kept
for `stale_if_error` seconds longer. -/
theorem stored_cases {loading : Loading} {v : PyValue} {item : CacheItem}
    (h : stored policy singleflight loading v = some item) :
    (v.isNone = true ∧ ∃ ttl ∈ policy.negativeTtl, item.ttl = some ttl.val ∧
      policy.requiresEnvelope = true ∧ item.payload =
        CacheEnvelope.wrap ⟨.none, loading.time, none, some (loading.time + ttl.val), true⟩) ∨
    v.isNone = false ∧ item.ttl = (policy.effectiveTtl loading.random).map
        (· + policy.staleIfError.elim 0 PyFloat.val) ∧
      (policy.requiresEnvelope = false ∧ item.payload = v ∧ policy.staleIfError = none ∨
        ∃ env : CacheEnvelope, item.payload = env.wrap ∧ env.isNegative = false ∧ env.value = v ∧
          env.softExpiresAt = policy.softTtl.map (loading.time + ·.val) ∧
          env.hardExpiresAt = (policy.effectiveTtl loading.random).map (loading.time + ·)) := by
  simp only [stored, ReadContext.stored, ReadContext.store, context] at h
  cases henv : policy.requiresEnvelope with
  | false =>
    have hstale : policy.staleIfError = none := by
      simp only [CachePolicy.requiresEnvelope, Bool.or_eq_false_iff, Option.isSome_eq_false_iff,
        Option.isNone_iff_eq_none] at henv
      exact henv.2
    cases hnone : v.isNone with
    | true => simp [henv, hnone] at h
    | false =>
      simp [henv, hnone, ReadContext.set] at h
      subst h
      exact .inr ⟨rfl, by simp [hstale], .inl ⟨rfl, rfl, hstale⟩⟩
  | true =>
    cases hnone : v.isNone with
    | true =>
      cases hnegative : policy.negativeTtl with
      | none => simp [henv, hnone, hnegative] at h
      | some ttl =>
        simp [henv, hnone, hnegative, ReadContext.set] at h
        subst h
        exact .inl ⟨rfl, ttl, rfl, rfl, rfl, rfl⟩
    | false =>
      simp [henv, hnone, ReadContext.set] at h
      subst h
      refine .inr ⟨rfl, ?_, .inr ⟨_, rfl, rfl, rfl, rfl, rfl⟩⟩
      cases policy.staleIfError <;> cases policy.effectiveTtl loading.random <;> simp

theorem hardExpired_iff {env : CacheEnvelope} {now : ℚ} :
    env.hardExpired now = true ↔ ∃ t ∈ env.hardExpiresAt, t ≤ now := by
  simp [CacheEnvelope.hardExpired, Option.any_eq_true]

theorem softExpired_iff {env : CacheEnvelope} {now : ℚ} :
    env.softExpired now = true ↔ ∃ t ∈ env.softExpiresAt, t ≤ now := by
  simp [CacheEnvelope.softExpired, Option.any_eq_true]

theorem found_of_live {held : HeldItem} (hheld : held ∈ s.held)
    (hlive : held.live call.start = true) : s.found call.start = some held.item := by
  simp [found, Option.mem_def.mp hheld, Option.filter, hlive]

/-- An entry that is found is a `None` that is served, a value that has not expired and may be due
for a refresh, or one that has expired. -/
theorem look_of_live {held : HeldItem} {v : PyValue} (hheld : held ∈ s.held)
    (hlive : held.live call.start = true)
    (hplain : policy.requiresEnvelope = false → CacheEnvelope.unwrap held.item.payload = none)
    (hitem : stored policy singleflight held.source v = some held.item) :
    ∃ found, s.look policy singleflight call.start = found ∧
      ((v.isNone = true ∧ found = .hit .none ∧
          ∃ ttl ∈ policy.negativeTtl, call.start < held.source.time + ttl.val) ∨
        (v.isNone = false ∧ (∀ ttl ∈ policy.effectiveTtl held.source.random,
            call.start < held.source.time + ttl) ∧
          (found = .hit v ∨ found = .stale v ∧
            ∃ soft ∈ policy.softTtl, held.source.time + soft.val ≤ call.start)) ∨
        v.isNone = false ∧ ∃ ttl ∈ policy.effectiveTtl held.source.random,
          held.source.time + ttl ≤ call.start ∧ ∃ env, found = .miss (some env) ∧
            env.isNegative = false ∧ env.value = v ∧
              env.hardExpiresAt = some (held.source.time + ttl)) := by
  refine ⟨_, rfl, ?_⟩
  have hraw : ∀ raw, held.item.payload = raw → raw.isNone = false →
      s.look policy singleflight call.start =
        (context policy singleflight call.start 0).classify raw := by
    rintro raw rfl hsome
    have hget : (context policy singleflight call.start 0).get
        ⟨fun _ => s.found call.start, []⟩ "" = held.item.payload := by
      simp only [ReadContext.get, found_of_live hheld hlive]
      split <;> rfl
    rw [look, ReadContext.look, hget, hsome]
    rfl
  rcases stored_cases hitem with ⟨hnone, ttl, hnegative, httl, -, hpayload⟩ |
    ⟨hsome, httl, ⟨henv, hpayload, hstale⟩ | ⟨env, hpayload, hpositive, hvalue, hsoft, hhard⟩⟩
  · have hbefore : call.start < held.source.time + ttl.val := by
      simpa [HeldItem.live, httl] using hlive
    refine .inl ⟨hnone, ?_, ttl, hnegative, hbefore⟩
    rw [hraw _ hpayload rfl, ReadContext.classify, CacheEnvelope.unwrap_wrap]
    simp [CacheEnvelope.hardExpired, context, not_le.mpr hbefore]
  · refine .inr (.inl ⟨hsome, fun ttl hmem => ?_, .inl ?_⟩)
    · simpa [HeldItem.live, httl, Option.mem_def.mp hmem, hstale] using hlive
    · rw [hraw _ hpayload hsome, ReadContext.classify, ← hpayload, hplain henv]
  · right
    rw [hraw _ hpayload rfl, ReadContext.classify, CacheEnvelope.unwrap_wrap]
    dsimp only
    rw [hpositive, if_neg Bool.false_ne_true, hvalue]
    split_ifs with hexpired hdue
    · obtain ⟨t, ht, hle⟩ := hardExpired_iff.mp hexpired
      rw [hhard] at ht
      obtain ⟨ttl, hmem, rfl⟩ := Option.mem_map.mp ht
      refine .inr ⟨hsome, ttl, hmem, hle, env, rfl, hpositive, hvalue, ?_⟩
      rw [hhard, Option.mem_def.mp hmem]
      rfl
    all_goals
      refine .inl ⟨hsome, fun ttl hmem => not_le.mp fun hle => hexpired ?_, ?_⟩
    · exact hardExpired_iff.mpr ⟨_, hhard ▸ Option.mem_map_of_mem _ hmem, hle⟩
    · obtain ⟨t, ht, hle⟩ := softExpired_iff.mp hdue
      rw [hsoft] at ht
      obtain ⟨soft, hmem, rfl⟩ := Option.mem_map.mp ht
      exact .inr ⟨rfl, soft, hmem, hle⟩
    · exact hardExpired_iff.mpr ⟨_, hhard ▸ Option.mem_map_of_mem _ hmem, hle⟩
    · exact .inl rfl

/-- The fallback serves the value if it is within `stale_if_error` seconds of its expiry. -/
theorem fallback_cases {env : CacheEnvelope} {expiry : ℚ} (hpositive : env.isNegative = false)
    (hhard : env.hardExpiresAt = some expiry) :
    (context policy singleflight call.start 0).fallback (some env) = some env.value ∧
        (∃ stale ∈ policy.staleIfError, call.start ≤ expiry + stale.val) ∨
      (context policy singleflight call.start 0).fallback (some env) = none ∧
        ∀ stale ∈ policy.staleIfError, expiry + stale.val < call.start := by
  cases hstale : policy.staleIfError with
  | none => simp [ReadContext.fallback, context, hstale]
  | some stale =>
    by_cases hle : call.start ≤ expiry + stale.val
    · simp [ReadContext.fallback, context, hstale, hpositive, hhard, add_comm stale.val, hle]
    · simp [ReadContext.fallback, context, hstale, hpositive, hhard, add_comm stale.val, hle,
        not_le.mp hle]

/-! ## What a call serves -/

theorem Sourced.after (h : Sourced policy singleflight s) (call : ReadCall) :
    Sourced policy singleflight (s.readThrough policy singleflight call).after := by
  unfold readThrough
  dsimp only
  cases s.look policy singleflight call.start with
  | hit value => exact h
  | stale value =>
    dsimp only
    split_ifs
    · exact h.loadAndStore _
    · exact h.loadAndStore _
    · exact h
  | miss env =>
    dsimp only
    cases call.loading.result <;> exact h.loadAndStore _

section

variable {counts : HeldItem → Prop} {after : KeyReads} {foreground : List Loading} {v : PyValue}

theorem Allowed.loaded (hresult : call.loading.result = .ok v) :
    Allowed policy counts s call ⟨.ok v, [call.loading], after⟩ where
  once := le_rfl
  value := by
    rintro _ ⟨⟩
    exact .inl ⟨_, mem_singleton_self _, hresult⟩
  raises := by rintro _ ⟨⟩

theorem Allowed.served {l : Loading} (hforward : Forward s call) (hl : l ∈ s.loadings)
    (hresult : l.result = .ok v) (hone : foreground.length ≤ 1)
    (hpositive : v.isNone = false →
      Within policy l call.start (∃ l ∈ foreground, ∃ e, l.result = .error e))
    (hnegative : v.isNone = true → ∃ ttl ∈ policy.negativeTtl, call.start < l.time + ttl.val) :
    Allowed policy counts s call ⟨.ok v, foreground, after⟩ where
  once := hone
  value := by
    rintro _ ⟨⟩
    exact .inr ⟨l, hl, hresult, hforward.start l hl, hpositive, hnegative⟩
  raises := by rintro _ ⟨⟩

theorem Allowed.raised {e : PyException} (hresult : call.loading.result = .error e)
    (hnone : ∀ held ∈ s.held, counts held → held.Positive →
      ¬Within policy held.source call.start True) :
    Allowed policy counts s call ⟨.error e, [call.loading], after⟩ where
  once := le_rfl
  value := by rintro _ ⟨⟩
  raises := by
    rintro _ ⟨⟩
    exact ⟨⟨_, mem_singleton_self _, hresult⟩, hnone⟩

end

/-- **A call on a cache whose entry stems from an invocation** serves what the policy allows. -/
theorem Sourced.allowed (h : Sourced policy singleflight s) (hforward : Forward s call)
    (hplain : Plain policy s call) :
    Allowed policy (Readable policy singleflight call) s call
      (s.readThrough policy singleflight call) := by
  unfold readThrough
  dsimp only
  -- either the entry is found, or there is none that has not been dropped
  by_cases hlive : ∃ held ∈ s.held, held.live call.start = true
  · obtain ⟨held, hheld, hlive⟩ := hlive
    obtain ⟨hmem, v, hresult, hitem⟩ := h held hheld
    obtain ⟨found, hlook, hcases⟩ := look_of_live hheld hlive (hplain · held hheld hlive) hitem
    rw [hlook]
    rcases hcases with ⟨hnone, rfl, hnegative⟩ | ⟨hsome, hfresh, rfl | ⟨rfl, hdue⟩⟩ |
      ⟨hsome, ttl, httl, hexpired, env, rfl, hpositive, rfl, hhard⟩
    · obtain rfl : v = .none := by cases v <;> first | rfl | cases hnone
      exact .served hforward hmem hresult (Nat.zero_le _) (by rintro ⟨⟩) fun _ => hnegative
    · exact .served hforward hmem hresult (Nat.zero_le _) (fun _ => .inl hfresh) (by simp [hsome])
    · dsimp only
      split_ifs with hblocking
      · obtain ⟨hmode, hflights⟩ := Bool.and_eq_true_iff.mp hblocking
        cases hloading : call.loading.result with
        | ok value => exact .loaded hloading
        | error e =>
          refine .raised hloading fun other hother hread _ _ => ?_
          obtain rfl := Option.mem_unique hother hheld
          obtain ⟨ttl, httl, hle⟩ := hread.served (of_decide_eq_true hmode) hflights hdue
          exact absurd (hfresh ttl httl) (not_lt.mpr hle)
      all_goals
        exact .served hforward hmem hresult (Nat.zero_le _) (fun _ => .inl hfresh) (by simp [hsome])
    · dsimp only
      cases hloading : call.loading.result with
      | ok value => exact .loaded hloading
      | error e =>
        dsimp only
        rcases @fallback_cases policy singleflight call _ _ hpositive hhard with
          ⟨hfallback, stale, hstale, hle⟩ | ⟨hfallback, hlate⟩
        · rw [hfallback]
          refine .served hforward hmem hresult le_rfl
            (fun _ => .inr ⟨?_, ttl, httl, stale, hstale, hle⟩) (by simp [hsome])
          exact ⟨_, mem_singleton_self _, e, hloading⟩
        · rw [hfallback]
          refine .raised hloading fun other hother _ _ hwithin => ?_
          obtain rfl := Option.mem_unique hother hheld
          rcases hwithin with hfresh | ⟨-, ttl', httl', stale, hstale, hle⟩
          · exact absurd (hfresh ttl httl) (not_lt.mpr hexpired)
          · obtain rfl := Option.mem_unique httl httl'
            exact absurd hle (not_le.mpr (hlate stale hstale))
  · have hlook : s.look policy singleflight call.start = .miss none := by
      have hfound : s.found call.start = none := by
        rw [found, Option.map_eq_none_iff, Option.filter_eq_none_iff]
        exact fun held hheld hl => hlive ⟨held, hheld, hl⟩
      rw [look, ReadContext.look, ReadContext.get, hfound]
      rfl
    rw [hlook]
    dsimp only
    cases hloading : call.loading.result with
    | ok value => exact .loaded hloading
    | error e =>
      have hfallback : (context policy singleflight call.start 0).fallback none = none := by
        unfold ReadContext.fallback
        cases (context policy singleflight call.start 0).policy.staleIfError <;> rfl
      rw [hfallback]
      exact .raised hloading fun held hheld hread _ _ => hlive ⟨held, hheld, hread.live⟩

/-- **Read-through serves nothing older than its policy allows**, after any run, where the entry is
read as what it is; it raises only if the loader does and there is no value to serve that it reads
and that is not left to a blocking refresh. -/
theorem reads_allowed (policy : CachePolicy) (singleflight : Bool) {calls : List ReadCall}
    {s : KeyReads} (h : Run (Step policy singleflight) {} calls s) {call : ReadCall}
    (hforward : Forward s call) (hplain : Plain policy s call) :
    Allowed policy (Readable policy singleflight call) s call
      (s.readThrough policy singleflight call) := by
  have hsourced : Sourced policy singleflight s := by
    refine h.invariant (I := Sourced policy singleflight) ?_ (by rintro _ ⟨⟩)
    rintro t call' _ - ⟨-, rfl⟩ ht
    exact ht.after call'
  exact hsourced.allowed hforward hplain

/-! ## A call after a value was loaded -/

/-- A call that begins at `start`, with what its loader does. -/
def callAt (start : ℚ) (result : Except PyException PyValue) : ReadCall :=
  ⟨start, ⟨start, 0, result⟩, ⟨start, 0, result⟩⟩

/-- A call whose loader raises. -/
def failing (start : ℚ) : ReadCall := callAt start (.error ⟨"RuntimeError", "unavailable"⟩)

theorem jitter_zero : (0 : ℚ) ≤ 0 ∧ (0 : ℚ) < 1 := by decide +kernel

theorem lenient_soft : ∀ soft ∈ some (⟨1, "1.0"⟩ : PyFloat), ∀ hard ∈ some (⟨10, "10.0"⟩ : PyFloat),
    soft.val < hard.val := by decide +kernel

/-- `CachePolicy()` -/
def defaultPolicy : CachePolicy where
  jitter_range := jitter_zero
  soft_lt _ h := absurd h (Option.not_mem_none _)
  ttl_of_stale := id

def lenientPolicy (refreshMode : RefreshMode) : CachePolicy where
  ttl := some ⟨10, "10.0"⟩
  softTtl := some ⟨1, "1.0"⟩
  staleIfError := some ⟨5, "5.0"⟩
  singleflight := true
  refreshMode := refreshMode
  jitter_range := jitter_zero
  soft_lt := lenient_soft
  ttl_of_stale _ := Option.some_ne_none _

/-- What there is after `value` was loaded. -/
def loadedOnce (policy : CachePolicy) (value : PyValue) : KeyReads :=
  (readThrough policy true {} (callAt 0 (.ok value))).after

theorem loadedOnce_run (policy : CachePolicy) (value : PyValue) :
    Run (Step policy true) {} [callAt 0 (.ok value)] (loadedOnce policy value) :=
  .single ⟨⟨by rintro _ ⟨⟩, le_rfl, le_rfl⟩, rfl⟩

theorem reads_allowed_stale :
    Allowed (lenientPolicy .background) (Readable (lenientPolicy .background) true (failing 12))
      (loadedOnce (lenientPolicy .background) (.str "v")) (failing 12)
      ((loadedOnce (lenientPolicy .background) (.str "v")).readThrough
        (lenientPolicy .background) true (failing 12)) := by
  have hforward : Forward (loadedOnce (lenientPolicy .background) (.str "v")) (failing 12) := by
    refine ⟨fun l hl => ?_, le_rfl, le_rfl⟩
    rw [mem_singleton.mp hl]
    decide +kernel
  exact reads_allowed _ true (loadedOnce_run _ _) hforward (by rintro ⟨⟩)

/-- A call whose loader raises, after `value` was loaded, does something else than allowed. -/
def Breaks (policy : CachePolicy) (value : PyValue) (start : ℚ) : Prop :=
  ∃ s, Run (Step policy true) {} [callAt 0 (.ok value)] s ∧ Forward s (failing start) ∧
    ¬Allowed policy (fun _ => True) s (failing start) (s.readThrough policy true (failing start))

/-- A value is withheld that may be served. -/
theorem breaks_of_raise {policy : CachePolicy} {start : ℚ} {held : HeldItem}
    (hforward : Forward (loadedOnce policy (.str "v")) (failing start))
    (hheld : held ∈ (loadedOnce policy (.str "v")).held) (hpositive : held.Positive)
    (hraises : ((loadedOnce policy (.str "v")).readThrough policy true (failing start)).out.isOk =
      false)
    (hwithin : Within policy held.source start True) : Breaks policy (.str "v") start := by
  refine ⟨_, loadedOnce_run _ _, hforward, fun h => ?_⟩
  cases hout : ((loadedOnce policy (.str "v")).readThrough policy true (failing start)).out with
  | ok v =>
    rw [hout] at hraises
    cases hraises
  | error e => exact (h.raises e hout).2 _ hheld trivial hpositive hwithin

/-- **What is served or withheld against the policy**: a dict that looks like an envelope is opened,
a value is dropped at the end of its `stale_if_error` seconds, and a blocking refresh withholds a
value that has five seconds to go. -/
theorem reads_break :
    Breaks defaultPolicy (CacheEnvelope.wrap ⟨.str "v", 0, none, none, false⟩) 1 ∧
      Breaks (lenientPolicy .background) (.str "v") 15 ∧
      Breaks (lenientPolicy .blocking) (.str "v") 5 := by
  have hforward : ∀ (policy : CachePolicy) (value : PyValue) (start : ℚ), 0 ≤ start →
      (loadedOnce policy value).loadings = [⟨0, 0, .ok value⟩] →
      Forward (loadedOnce policy value) (failing start) := by
    intro policy value start hstart hloadings
    refine ⟨fun l hl => ?_, le_rfl, le_rfl⟩
    rw [hloadings] at hl
    rw [mem_singleton.mp hl]
    exact hstart
  refine ⟨⟨_, loadedOnce_run _ _, hforward _ _ _ (by decide +kernel) rfl, fun h => ?_⟩, ?_, ?_⟩
  · rcases h.value (.str "v") rfl with ⟨_, ⟨⟩, _⟩ | ⟨l, hl, hresult, -⟩
    rw [mem_singleton.mp hl] at hresult
    cases hresult
  · refine breaks_of_raise (hforward _ _ _ (by decide +kernel) rfl) rfl ⟨_, rfl, rfl⟩
      (by decide +kernel) (.inr ⟨trivial, _, rfl, _, rfl, ?_⟩)
    decide +kernel
  · refine breaks_of_raise (hforward _ _ _ (by decide +kernel) rfl) rfl ⟨_, rfl, rfl⟩
      (by decide +kernel) (.inl ?_)
    rintro _ ⟨⟩
    decide +kernel

end KeyReads

end Varco
