import Varco.Cache.RemoteAgreement

/-!
# Memcached as a cache

When the calls of `MemcachedCache` are as good as the reference: each `ttl` is one that the server
counts from now, the keys are admitted and, for `get_many`, different, what is written is not
marked, and `get_many` finds nothing that is marked or `null`. The keys that `delete_prefix` and
`clear` look for are those of the registry, which holds every key of the cache (`Tracked`).
-/

namespace Varco

open Function List

variable {V : Type}

namespace MemcachedCache

/-- A `ttl` that is positive, and that the server counts from now. -/
def TtlKept (ttl : Option PyFloat) : Prop :=
  ∀ t, ttl = some t → 0 < t.val ∧ t.val ≤ relativeLimit

def Admitted (cfg : CacheSettings) (key : String) : Prop := validateMcKey cfg key = .ok ()

/-- The calls for which Memcached is as good as the reference; `multi_get` wants the keys to be
different. -/
def Careful (cfg : CacheSettings) (_ : List (ℚ × CacheCall V)) (s : RemoteCache V) :
    ℚ × CacheCall V → Prop
  | (_, .get key) | (_, .exists_ key) | (_, .delete key) => Admitted cfg key
  | (_, .deleteMany keys) => ∀ key ∈ keys, Admitted cfg key
  | (now, .getMany keys) =>
    keys.Nodup ∧ (∀ key ∈ keys, Admitted cfg key) ∧ s.Plain cfg now keys
  | (_, .set key _ ttl) =>
    Admitted cfg key ∧ s.shouldInvalidate key = false ∧ TtlKept (cfg.effectiveTtl ttl)
  | (_, .setMany items ttl) =>
    (∀ item ∈ items.entries, Admitted cfg item.1 ∧ s.shouldInvalidate item.1 = false) ∧
      TtlKept (cfg.effectiveTtl ttl)
  | (_, .deletePrefix _) | (_, .clear) => True
  | (_, .invalidate _) => s.strategy.isSome = true

end MemcachedCache

variable {cfg : CacheSettings} {r : ReferenceCache V} {s s' : RemoteCache V} {now t x : ℚ}
  {key key' start : String} {keys : List String} {v : Option V} {ttl expiry : Option ℚ}
  {p : String → Bool}

namespace MemcachedCache

variable {items : Dict String (Option V)} {ttl' : Option PyFloat}

def Tracked (cfg : CacheSettings) (s : RemoteCache V) : Prop :=
  ∀ key, s.server.entries (cfg.fullKey key) ≠ none → key ∈ s.registry

/-- The `exptime` of a `ttl` that is kept. -/
theorem fits_of_kept (h : TtlKept (cfg.effectiveTtl ttl')) :
    Fits now ((cfg.effectiveTtl ttl').map (·.val))
      (MemcachedCache.expiry now (exptime cfg ttl')) := by
  unfold exptime
  cases httl : cfg.effectiveTtl ttl' with
  | none => trivial
  | some t =>
    obtain ⟨hpos, hlimit⟩ := h t httl
    have hceil : 0 < ⌈t.val⌉ := Int.ceil_pos.mpr hpos
    have hrelative : ⌈t.val⌉ ≤ relativeLimit := Int.ceil_le.mpr hlimit
    have hexpiry : MemcachedCache.expiry now ⌈t.val⌉ = some (now + ⌈t.val⌉) := by
      unfold MemcachedCache.expiry
      rw [if_neg hceil.ne', if_pos hrelative]
    dsimp only
    rw [if_pos hpos, hexpiry]
    have hlow := Int.le_ceil t.val
    have hhigh := Int.ceil_lt_add_one t.val
    constructor <;> linarith

theorem agrees_foldl_set {entries : List (String × Option V)} (h : s.Agrees cfg r)
    (hmark : ∀ item ∈ entries, s.shouldInvalidate item.1 = false)
    (hkept : TtlKept (cfg.effectiveTtl ttl')) :
    (entries.foldl (fun s item => set cfg s now item.1 item.2 ttl') s).Agrees cfg
      (entries.foldl (fun r item =>
        r.write item.1 ⟨item.2, now, (cfg.effectiveTtl ttl').map (·.val)⟩) r) := by
  induction entries generalizing r s with
  | nil => exact h
  | cons item entries ih =>
    refine ih (h.store (hmark item mem_cons_self) (fits_of_kept hkept) _)
      fun item' hitem' => ?_
    exact hmark item' (mem_cons_of_mem _ hitem')

theorem foldl_delete (cfg : CacheSettings) (keys : List String) (s : RemoteCache V) :
    (keys.foldl (delete cfg) s).server.entries =
        (fun k => if k ∈ keys.map cfg.fullKey then none else s.server.entries k) ∧
      (keys.foldl (delete cfg) s).strategy = s.strategy ∧
      (keys.foldl (delete cfg) s).findsExpiring = s.findsExpiring ∧
      (keys.foldl (delete cfg) s).time = s.time := by
  induction keys generalizing s with
  | nil => exact ⟨by simp, rfl, rfl, rfl⟩
  | cons key keys ih =>
    obtain ⟨hentries, hrest⟩ := ih (delete cfg s key)
    refine ⟨?_, hrest⟩
    rw [foldl_cons, hentries]
    funext k
    by_cases hk : k = cfg.fullKey key
    · simp [delete, Expiring.del, hk]
    · simp [delete, Expiring.del, hk]

theorem entries_foldl_delete (key : String) :
    (keys.foldl (delete cfg) s).server.entries (cfg.fullKey key) =
      if key ∈ keys then none else s.server.entries (cfg.fullKey key) := by
  have hmem : cfg.fullKey key ∈ keys.map cfg.fullKey ↔ key ∈ keys := by
    refine mem_map_of_injective ?_
    exact fun _ _ heq => CacheSettings.fullKey_inj heq
  rw [(foldl_delete cfg keys s).1]
  simp only [hmem]

theorem Tracked.set (h : Tracked cfg s) (v : Option V) (ttl' : Option PyFloat) :
    Tracked cfg (set cfg s now key v ttl') := by
  intro key' hentry
  by_cases hkey : key' = key
  · exact mem_insert_iff.mpr (Or.inl hkey)
  · refine mem_insert_iff.mpr (Or.inr (h key' ?_))
    have hsame : (MemcachedCache.set cfg s now key v ttl').server.entries (cfg.fullKey key') =
        s.server.entries (cfg.fullKey key') :=
      update_of_ne (fun heq => hkey (CacheSettings.fullKey_inj heq)) ..
    rwa [← hsame]

theorem Tracked.delete (h : Tracked cfg s) (key : String) : Tracked cfg (delete cfg s key) := by
  intro key' hentry
  have hne : key' ≠ key := by
    rintro rfl
    exact hentry (update_self ..)
  refine (mem_erase_of_ne hne).mpr (h key' ?_)
  have hsame : (MemcachedCache.delete cfg s key).server.entries (cfg.fullKey key') =
      s.server.entries (cfg.fullKey key') :=
    update_of_ne (fun heq => hne (CacheSettings.fullKey_inj heq)) ..
  rwa [← hsame]

theorem Tracked.foldl_set {entries : List (String × Option V)} (h : Tracked cfg s) :
    Tracked cfg (entries.foldl
      (fun s item => MemcachedCache.set cfg s now item.1 item.2 ttl') s) := by
  induction entries generalizing s with
  | nil => exact h
  | cons item entries ih => exact ih (h.set item.2 ttl')

theorem Tracked.foldl_delete (h : Tracked cfg s) (keys : List String) :
    Tracked cfg (keys.foldl (MemcachedCache.delete cfg) s) := by
  induction keys generalizing s with
  | nil => exact h
  | cons key keys ih => exact ih (h.delete key)

theorem setMany_of_admitted (h : ∀ item ∈ items.entries, Admitted cfg item.1) :
    setMany cfg s now items ttl' =
      .ok (items.entries.foldl (fun s item => set cfg s now item.1 item.2 ttl') s) := by
  have hcheck : ∀ entries : List (String × Option V), (∀ item ∈ entries, Admitted cfg item.1) →
      (entries.forM fun item => validateMcKey cfg item.1) = .ok () := by
    intro entries
    induction entries with
    | nil => exact fun _ => rfl
    | cons item entries ih =>
      intro h
      change (validateMcKey cfg item.1 >>= fun _ => entries.forM fun item =>
        validateMcKey cfg item.1) = _
      rw [h item mem_cons_self]
      exact ih fun item' hitem' => h item' (mem_cons_of_mem _ hitem')
  unfold setMany
  rw [hcheck _ h]
  rfl

variable {past : List (ℚ × CacheCall V)}

theorem answers (h : s.Agrees cfg r) (hnow : s.time ≤ now)
    {c : CacheCall V} (hok : Careful cfg past s (now, c)) : s.Answers (call cfg) cfg r now c := by
  cases c with
  | get key => exact ⟨_, h now hnow key, RemoteCache.get_fst⟩
  | exists_ key => exact ⟨_, h now hnow key, RemoteCache.exists_eq⟩
  | getMany keys => exact fun key v => RemoteCache.getMany_of_plain hok.2.2
  | setMany items ttl =>
    have hfold : items.entries.foldlM
        (fun s item => call cfg s now (.set item.1 item.2 ttl)) s =
          .ok (items.entries.foldl (fun s item => set cfg s now item.1 item.2 ttl) s) :=
      foldlM_pure
    change (setMany cfg s now items ttl).toOption = _
    rw [hfold, setMany_of_admitted fun item hitem => (hok.1 item hitem).1]
  | deleteMany keys =>
    have hfold : keys.foldlM (fun s key => call cfg s now (.delete key)) s =
        .ok (keys.foldl (delete cfg) s) := foldlM_pure
    change (Except.ok (deleteMany cfg s keys) : Except PyException (RemoteCache V)).toOption = _
    rw [hfold, deleteMany]
  | set | delete | deletePrefix | clear | invalidate => trivial

/-- Keys deleted one by one: those that the reference removes, or that are not there. -/
theorem agrees_foldl_delete (h : s.Agrees cfg r) (p : String → Bool)
    (hgone : ∀ key, p key = true → s.server.entries (cfg.fullKey key) ≠ none → key ∈ keys)
    (hkept : ∀ key ∈ keys, p key = true) :
    (keys.foldl (delete cfg) s).Agrees cfg (r.remove p) := by
  obtain ⟨-, hstrategy, hfinds, htime⟩ := foldl_delete cfg keys s
  refine h.remove p htime hstrategy hfinds (fun key hp => ?_) fun key hp => ?_
  · rw [entries_foldl_delete]
    by_cases hentry : s.server.entries (cfg.fullKey key) = none
    · rw [hentry, ite_self]
    · exact if_pos (hgone key hp hentry)
  · rw [entries_foldl_delete]
    refine if_neg fun hmem => ?_
    rw [hkept key hmem] at hp
    cases hp

/-- **Each call keeps the agreement**, the registry, and the keys of others. -/
theorem call_agrees (h : s.Agrees cfg r) (htracked : Tracked cfg s) (hnow : s.time ≤ now)
    {c : CacheCall V} (hok : Careful cfg past s (now, c))
    (hcall : call cfg s now c = .ok s') :
    ({ s' with time := now } : RemoteCache V).Agrees cfg (r.after cfg now c) ∧ Tracked cfg s' ∧
      ∀ k, Foreign cfg k → s'.server.entries k = s.server.entries k := by
  have hwait := h.wait hnow
  cases c with
  | get key =>
    cases hcall
    have hregistry : (s.get cfg now key).2.registry = s.registry := by
      unfold RemoteCache.get
      split_ifs <;> rfl
    refine ⟨?_, fun key' hentry => ?_,
      fun k hk => (RemoteCache.entries_get k).resolve_right fun heq => hk key heq.1⟩
    · rw [RemoteCache.get_setTime]
      exact hwait.get
    · have hkept := (RemoteCache.entries_get (cfg.fullKey key')).resolve_right
        fun heq => hentry heq.2
      rw [hregistry]
      exact htracked key' (hkept ▸ hentry)
  | getMany | exists_ =>
    cases hcall
    exact ⟨hwait, htracked, fun _ _ => rfl⟩
  | set key value ttl =>
    cases hcall
    refine ⟨hwait.store hok.2.1 (fits_of_kept hok.2.2) _, htracked.set value ttl, fun k hk => ?_⟩
    exact update_of_ne (hk key) ..
  | setMany items ttl =>
    obtain ⟨hitems, hkept⟩ := hok
    have hset : call cfg s now (.setMany items ttl) =
        .ok (items.entries.foldl (fun s item => set cfg s now item.1 item.2 ttl) s) :=
      setMany_of_admitted fun item hitem => (hitems item hitem).1
    cases hset.symm.trans hcall
    refine ⟨?_, htracked.foldl_set, fun k hk => RemoteCache.entries_foldl
      (fun s item => update_of_ne (hk item.1) ..) items.entries s⟩
    rw [RemoteCache.foldl_setTime fun _ _ => rfl]
    exact agrees_foldl_set hwait (fun item hitem => (hitems item hitem).2) hkept
  | delete key =>
    cases hcall
    exact ⟨hwait.del _, htracked.delete key, fun k hk => update_of_ne (hk key) ..⟩
  | deleteMany keys =>
    cases hcall
    refine ⟨?_, htracked.foldl_delete keys, fun k hk => RemoteCache.entries_foldl
      (fun _ key => update_of_ne (hk key) ..) _ s⟩
    rw [deleteMany, RemoteCache.foldl_setTime fun _ _ => rfl]
    exact agrees_foldl_delete hwait _ (fun key hkey _ => of_decide_eq_true hkey)
      fun key hkey => decide_eq_true hkey
  | deletePrefix start =>
    cases hcall
    refine ⟨?_, htracked.foldl_delete _, fun k hk => RemoteCache.entries_foldl
      (fun _ key => update_of_ne (hk key) ..) _ s⟩
    rw [deletePrefix, RemoteCache.foldl_setTime fun _ _ => rfl]
    exact agrees_foldl_delete hwait _
      (fun key hkey hentry => mem_filter.mpr ⟨htracked key hentry, hkey⟩)
      fun key hkey => (mem_filter.mp hkey).2
  | clear =>
    cases hcall
    refine ⟨?_, htracked.foldl_delete _, fun k hk => RemoteCache.entries_foldl
      (fun _ key => update_of_ne (hk key) ..) _ s⟩
    rw [clear, RemoteCache.foldl_setTime fun _ _ => rfl]
    exact agrees_foldl_delete hwait (fun _ => true) (fun key _ hentry => htracked key hentry)
      fun _ _ => rfl
  | invalidate key =>
    cases hcall
    exact ⟨hwait.invalidate hok, htracked, fun _ _ => rfl⟩

theorem call_ok {c : CacheCall V}
    (hok : Careful cfg past s (now, c)) : ∃ s', call cfg s now c = .ok s' := by
  cases c with
  | setMany items ttl => exact ⟨_, setMany_of_admitted fun item hitem => (hok.1 item hitem).1⟩
  | get | getMany | exists_ | set | delete | deleteMany | deletePrefix | clear | invalidate =>
    exact ⟨_, rfl⟩

end MemcachedCache

end Varco
