import Varco.Cache.RemoteAgreement

/-!
# Redis as a cache

When the calls of `RedisCache` are as good as the reference: each `ttl` is kept by the rounding to
milliseconds, no prefix contains a character that `SCAN MATCH` reads as more than itself, what is
written is not marked, and `get_many` finds nothing that is marked or `null`.
-/

namespace Varco

variable {V : Type}

/-- No character of the text means more than itself to `glob`. -/
def GlobFree (s : String) : Prop := ∀ c ∈ s.toList, c ∉ ['*', '?', '[', ']', '\\']

namespace RedisCache

/-- A `ttl` that is positive, and neither cut off by the rounding to milliseconds nor a second
longer. -/
def TtlKept (ttl : Option PyFloat) : Prop :=
  ∀ t, ttl = some t → 0 < t.val ∧ ∃ q : ℚ, Binary64.nearest (t.val * 1000) = .finite q ∧
    t.val * 1000 ≤ roundHalfEven q.num q.den ∧
    roundHalfEven q.num q.den < t.val * 1000 + 1000

def Careful (cfg : CacheSettings) (_ : List (ℚ × CacheCall V)) (s : RemoteCache V) :
    ℚ × CacheCall V → Prop
  | (now, .getMany keys) => s.Plain cfg now keys
  | (_, .set key _ ttl) => s.shouldInvalidate key = false ∧ TtlKept (cfg.effectiveTtl ttl)
  | (_, .setMany items ttl) =>
    (∀ item ∈ items.entries, s.shouldInvalidate item.1 = false) ∧ TtlKept (cfg.effectiveTtl ttl)
  | (_, .deletePrefix start) => GlobFree cfg.keyPrefix ∧ GlobFree start
  | (_, .clear) => GlobFree cfg.keyPrefix
  | (_, .invalidate _) => s.strategy.isSome = true
  | _ => True

end RedisCache

variable {cfg : CacheSettings} {r : ReferenceCache V} {s s' : RemoteCache V} {now t x : ℚ}
  {key key' start : String} {keys : List String} {v : Option V} {ttl expiry : Option ℚ}
  {p : String → Bool}

namespace RedisCache

variable {glob : String → String → Bool} {items : Dict String (Option V)} {ttl' : Option PyFloat}

/-- The expire time of a `ttl` that is kept. -/
theorem expireTime_of_kept (h : TtlKept (cfg.effectiveTtl ttl')) (method : String) (now : ℚ) :
    ∃ ms, expireTime cfg method ttl' = .ok ms ∧
      Fits now ((cfg.effectiveTtl ttl').map (·.val)) (ms.map fun ms => now + ms / 1000) := by
  unfold expireTime
  cases httl : cfg.effectiveTtl ttl' with
  | none => exact ⟨none, rfl, trivial⟩
  | some t =>
    obtain ⟨hpos, q, hq, hlow, hhigh⟩ := h t httl
    have hms : 0 < roundHalfEven q.num q.den := by
      have hlow' : (0 : ℚ) < roundHalfEven q.num q.den := by linarith
      exact_mod_cast hlow'
    refine ⟨some (roundHalfEven q.num q.den), ?_, ?_, ?_⟩
    · change (milliseconds method t).map some = _
      unfold milliseconds
      rw [hq]
      exact congrArg (Except.map some) (if_neg (not_le.mpr hms))
    · rw [add_le_add_iff_left, le_div_iff₀ (by norm_num)]
      exact hlow
    · rw [add_assoc, add_lt_add_iff_left, div_lt_iff₀ (by norm_num)]
      linarith

theorem agrees_foldl_store {ms : Option ℤ} {entries : List (String × Option V)}
    (h : s.Agrees cfg r) (hmark : ∀ item ∈ entries, s.shouldInvalidate item.1 = false)
    (hfits : Fits now ttl (ms.map fun ms => now + ms / 1000)) :
    (entries.foldl (fun s item => store cfg s now item.1 item.2 ms) s).Agrees cfg
      (entries.foldl (fun r item => r.write item.1 ⟨item.2, now, ttl⟩) r) := by
  induction entries generalizing r s with
  | nil => exact h
  | cons item entries ih =>
    refine ih (h.store (hmark item List.mem_cons_self) hfits s.registry) fun item' hitem' => ?_
    exact hmark item' (List.mem_cons_of_mem _ hitem')

/-- The two error texts apart, `set` and `set_many` take the same expire time. -/
theorem toOption_expireTime (cfg : CacheSettings) (ttl' : Option PyFloat)
    (method method' : String) :
    (expireTime cfg method ttl').toOption = (expireTime cfg method' ttl').toOption := by
  unfold expireTime
  cases cfg.effectiveTtl ttl' with
  | none => rfl
  | some t =>
    change ((milliseconds method t).map some).toOption =
      ((milliseconds method' t).map some).toOption
    unfold milliseconds
    cases Binary64.nearest (t.val * 1000) with
    | finite q =>
      dsimp only
      split_ifs <;> rfl
    | _ => rfl

/-- **`set_many` is `set` for each item.** -/
theorem setMany_eq_foldlM : (setMany cfg s now items ttl').toOption =
    (items.entries.foldlM (fun s item => set cfg s now item.1 item.2 ttl') s).toOption := by
  have hsame := toOption_expireTime cfg ttl' "set_many" "set"
  unfold setMany set
  cases hset : expireTime cfg "set" ttl' with
  | error e =>
    cases hmany : expireTime cfg "set_many" ttl' with
    | error e' =>
      cases hitems : items.entries with
      | nil => rfl
      | cons item entries => rfl
    | ok ms =>
      rw [hset, hmany] at hsame
      cases hsame
  | ok ms =>
    have hmany : expireTime cfg "set_many" ttl' = .ok ms := by
      cases hmany : expireTime cfg "set_many" ttl' with
      | error e' =>
        rw [hset, hmany] at hsame
        cases hsame
      | ok ms' =>
        rw [hset, hmany] at hsame
        cases hsame
        rfl
    have hfold : items.entries.foldlM
        (fun s item => Except.map (store cfg s now item.1 item.2) (.ok ms)) s =
          (.ok (items.entries.foldl (fun s item => store cfg s now item.1 item.2 ms) s) :
            Except PyException (RemoteCache V)) := List.foldlM_pure
    rw [hmany, hfold]
    split_ifs with hitems
    · rw [hitems]
      rfl
    · rfl

/-- **`delete_many` is `delete` for each key.** -/
theorem deleteMany_eq_foldl : deleteMany cfg s keys = keys.foldl (delete cfg) s := by
  have hfold : ∀ (keys : List String) (s : RemoteCache V),
      keys.foldl (delete cfg) s = { s with server :=
        ⟨fun k => if k ∈ keys.map cfg.fullKey then none else s.server.entries k⟩ } := by
    intro keys
    induction keys with
    | nil => exact fun s => by simp
    | cons key keys ih =>
      intro s
      have hentries : (fun k => if k ∈ keys.map cfg.fullKey then none
          else (delete cfg s key).server.entries k) =
          fun k => if k ∈ (key :: keys).map cfg.fullKey then none else s.server.entries k := by
        funext k
        by_cases hk : k = cfg.fullKey key
        · simp [delete, Expiring.del, hk]
        · simp [delete, Expiring.del, hk]
      rw [List.foldl_cons, ih, hentries]
      rfl
  exact (hfold keys s).symm

variable {past : List (ℚ × CacheCall V)}

theorem answers (h : s.Agrees cfg r) (hnow : s.time ≤ now)
    {c : CacheCall V} (hok : Careful cfg past s (now, c)) :
    s.Answers (call glob cfg) cfg r now c := by
  cases c with
  | get key => exact ⟨_, h now hnow key, RemoteCache.get_fst⟩
  | exists_ key => exact ⟨_, h now hnow key, RemoteCache.exists_eq⟩
  | getMany keys => exact fun key v => RemoteCache.getMany_of_plain hok
  | setMany items ttl => exact setMany_eq_foldlM
  | deleteMany keys =>
    have hfold : keys.foldlM (fun s key => call glob cfg s now (.delete key)) s =
        .ok (keys.foldl (delete cfg) s) := List.foldlM_pure
    change (Except.ok (deleteMany cfg s keys) : Except PyException (RemoteCache V)).toOption = _
    rw [hfold, deleteMany_eq_foldl]
  | set | delete | deletePrefix | clear | invalidate => trivial

theorem call_ok {c : CacheCall V}
    (hok : Careful cfg past s (now, c)) : ∃ s', call glob cfg s now c = .ok s' := by
  cases c with
  | set key value ttl =>
    obtain ⟨ms, hms, -⟩ := expireTime_of_kept hok.2 "set" now
    refine ⟨store cfg s now key value ms, ?_⟩
    change (expireTime cfg "set" ttl).map _ = _
    rw [hms]
    rfl
  | setMany items ttl =>
    obtain ⟨ms, hms, -⟩ := expireTime_of_kept hok.2 "set_many" now
    change ∃ s', setMany cfg s now items ttl = .ok s'
    unfold setMany
    rw [hms]
    split_ifs
    · exact ⟨s, rfl⟩
    · exact ⟨_, rfl⟩
  | get | getMany | exists_ | delete | deleteMany | deletePrefix | clear | invalidate =>
    exact ⟨_, rfl⟩

/-- What `SCAN MATCH` finds: the keys that begin with a text without special characters. -/
def ScansStart (glob : String → String → Bool) : Prop :=
  ∀ start key, GlobFree start → glob (start ++ "*") key = start.toList.isPrefixOf key.toList

theorem globFree_append {a b : String} (ha : GlobFree a) (hb : GlobFree b) : GlobFree (a ++ b) := by
  intro c hc
  rw [String.toList_append] at hc
  exact (List.mem_append.mp hc).elim (ha c) (hb c)

/-- **Each call keeps the agreement**, and the keys of others. -/
theorem call_agrees (hglob : ScansStart glob) (h : s.Agrees cfg r) (hnow : s.time ≤ now)
    {c : CacheCall V} (hok : Careful cfg past s (now, c))
    (hcall : call glob cfg s now c = .ok s') :
    ({ s' with time := now } : RemoteCache V).Agrees cfg (r.after cfg now c) ∧
      ∀ k, Foreign cfg k → s'.server.entries k = s.server.entries k := by
  have hwait := h.wait hnow
  cases c with
  | get key =>
    cases hcall
    refine ⟨?_, fun k hk => (RemoteCache.entries_get k).resolve_right fun heq => hk key heq.1⟩
    rw [RemoteCache.get_setTime]
    exact hwait.get
  | getMany | exists_ =>
    cases hcall
    exact ⟨hwait, fun _ _ => rfl⟩
  | set key value ttl =>
    obtain ⟨hmark, hkept⟩ := hok
    obtain ⟨ms, hms, hfits⟩ := expireTime_of_kept hkept "set" now
    have hset : call glob cfg s now (.set key value ttl) = .ok (store cfg s now key value ms) := by
      change (expireTime cfg "set" ttl).map _ = _
      rw [hms]
      rfl
    cases hset.symm.trans hcall
    exact ⟨hwait.store hmark hfits s.registry, fun k hk => Function.update_of_ne (hk key) ..⟩
  | setMany items ttl =>
    obtain ⟨hmark, hkept⟩ := hok
    obtain ⟨ms, hms, hfits⟩ := expireTime_of_kept hkept "set_many" now
    have hset : call glob cfg s now (.setMany items ttl) =
        .ok (items.entries.foldl (fun s item => store cfg s now item.1 item.2 ms) s) := by
      change setMany cfg s now items ttl = _
      unfold setMany
      split_ifs with hitems
      · rw [hitems]
        rfl
      · rw [hms]
        rfl
    cases hset.symm.trans hcall
    refine ⟨?_, fun k hk => RemoteCache.entries_foldl
      (fun s item => Function.update_of_ne (hk item.1) ..) items.entries s⟩
    rw [RemoteCache.foldl_setTime fun _ _ => rfl]
    exact agrees_foldl_store hwait hmark hfits
  | delete key =>
    cases hcall
    exact ⟨hwait.del s.registry, fun k hk => Function.update_of_ne (hk key) ..⟩
  | deleteMany keys =>
    cases hcall
    refine ⟨hwait.remove _ rfl rfl rfl (fun key' hkey => ?_) fun key' hkey => ?_, fun k hk => ?_⟩
    · exact if_pos (List.mem_map_of_mem (of_decide_eq_true hkey))
    · refine if_neg fun hmem => of_decide_eq_false hkey ?_
      obtain ⟨key, hmem, heq⟩ := List.mem_map.mp hmem
      rwa [← CacheSettings.fullKey_inj heq]
    · refine if_neg fun hmem => ?_
      obtain ⟨key, -, heq⟩ := List.mem_map.mp hmem
      exact hk key heq.symm
  | deletePrefix start =>
    cases hcall
    have hfree := globFree_append hok.1 hok.2
    refine ⟨hwait.remove _ rfl rfl rfl (fun key hkey => ?_) fun key hkey => ?_, fun k hk => ?_⟩
    · refine if_pos ?_
      rw [hglob _ _ hfree, pyStartsWith_fullKey]
      exact hkey
    · refine if_neg ?_
      rw [hglob _ _ hfree, pyStartsWith_fullKey, hkey]
      exact Bool.false_ne_true
    · refine if_neg ?_
      rw [hglob _ _ hfree, not_startsWith_of_foreign hk]
      exact Bool.false_ne_true
  | clear =>
    cases hcall
    have hempty : cfg.keyPrefix ++ "" = cfg.keyPrefix := String.append_empty
    refine ⟨hwait.remove (fun _ => true) rfl rfl rfl (fun key _ => ?_) nofun, fun k hk => ?_⟩
    · refine if_pos ?_
      rw [hglob _ _ hok, ← hempty, pyStartsWith_fullKey]
      rfl
    · refine if_neg ?_
      rw [hglob _ _ hok, ← hempty, not_startsWith_of_foreign hk]
      exact Bool.false_ne_true
  | invalidate key =>
    cases hcall
    exact ⟨hwait.invalidate hok, fun _ _ => rfl⟩

end RedisCache

end Varco
