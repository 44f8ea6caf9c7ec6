import Varco.Encryption.Places

/-!
# Rotation and what can still be read

A rotation keeps the old key in the store, but `build_tenant_registry` and `build_scoped_registry`
load one primary key of a tenant or a scope and nothing else. So a ciphertext can be read as long as
its key is the primary one (`decrypts_iff_primary`), and the first rotation loses every ciphertext
made before it (`rotated_unreadable`). In runs that never demote a key, and never give a scope a
second one, every ciphertext can be read.
-/

namespace Varco

open List EncryptionKeyManager InMemoryEncryptionKeyStore

variable {F : Fernet} {master : Option (FernetFieldEncryptor F)}

/-! ## Conditions -/

def NoDestroy (a : KeyEnd F) : Prop := ∀ scope actor, a.call.op ≠ .destroyScope scope actor

def KeepsTenant (tenantId : String) (_ : List (KeyEnd F)) (w : KeyWorld F) (a : KeyEnd F) : Prop :=
  NoDestroy a ∧ ∀ e, DemotesKey w a.call e → e.tenantId ≠ some tenantId

/-- No key of the scope is demoted, and none is made for a scope that has one. -/
def KeepsScope (master : Option (FernetFieldEncryptor F)) (scope : String) (_ : List (KeyEnd F))
    (w : KeyWorld F) (a : KeyEnd F) : Prop :=
  NoDestroy a ∧ (∀ e, DemotesKey w a.call e → e.scope ≠ some scope) ∧
    ∀ n, MakesKey master w a.call n → n.scope = some scope →
      ∀ e ∈ w.store.values, e.scope ≠ some scope

/-! ## What is read -/

/-- A call has returned the encryptor for the tenant, or a registry with it. -/
def HandsOut (tenantId : String) (enc : FernetFieldEncryptor F) (a : KeyEnd F) : Prop :=
  ((a.call.op = .getOrCreateEncryptor (some tenantId) ∨ a.call.op = .rotate (some tenantId)) ∧
      a.result = .ok (.encryptor enc)) ∨
    ∃ registry, a.result = .ok (.tenants registry) ∧
      TenantAwareEncryptorRegistry.resolve registry (some tenantId) = .ok enc

/-- The registry that `build_tenant_registry` returns now decrypts what the encryptor encrypts. -/
def TenantReads (master : Option (FernetFieldEncryptor F)) (w : KeyWorld F) (tenantId : String)
    (enc : FernetFieldEncryptor F) : Prop :=
  ∀ manager draw r w', Calls master w ⟨⟨manager, .buildTenantRegistry, draw⟩, r⟩ w' →
    ∃ registry, r = .ok (.tenants registry) ∧ ∀ plaintext random,
      TenantAwareEncryptorRegistry.decrypt registry (enc.encrypt plaintext random) (some tenantId) =
        .ok plaintext

/-- The registry that `build_scoped_registry` returns now decrypts the ciphertext. -/
def ScopeReads (master : Option (FernetFieldEncryptor F)) (w : KeyWorld F) (scope : String)
    (ciphertext plaintext : Bytes) : Prop :=
  ∀ manager draw r w', Calls master w ⟨⟨manager, .buildScopedRegistry scope, draw⟩, r⟩ w' →
    ∃ registry, r = .ok (.scoped manager registry) ∧
      w'.decryptScoped manager registry ciphertext (some scope) = .ok plaintext

/-- A key of the entries `p` belongs to the encryptor. -/
def Belongs (master : Option (FernetFieldEncryptor F)) (store : InMemoryEncryptionKeyStore)
    (p : EncryptionKeyEntry → Prop) (enc : FernetFieldEncryptor F) : Prop :=
  ∃ e ∈ store.values, p e ∧ materialize master e = .ok enc

section

variable {w w' : KeyWorld F} {tenantId : String} {enc : FernetFieldEncryptor F}

theorem decrypt_self (hF : F.Lawful) (enc : FernetFieldEncryptor F) (plaintext random : Bytes)
    (context : Option String) :
    enc.decrypt (enc.encrypt plaintext random) context = .ok plaintext := by
  unfold FernetFieldEncryptor.decrypt FernetFieldEncryptor.encrypt
  rw [hF.decrypt_encrypt]

/-- Only the encryptor itself decrypts what it encrypts. -/
theorem eq_of_decrypt (hF : F.Lawful) {enc' : FernetFieldEncryptor F}
    {plaintext plaintext' random : Bytes} {context : Option String}
    (h : enc'.decrypt (enc.encrypt plaintext random) context = .ok plaintext') : enc' = enc := by
  have hkey : enc'.key = enc.key := by
    by_contra hne
    unfold FernetFieldEncryptor.decrypt FernetFieldEncryptor.encrypt at h
    rw [hF.decrypt_ne _ _ _ _ hne] at h
    cases h
  cases enc'
  cases enc
  cases hkey
  rfl

theorem resolve_tenant {registry : TenantAwareEncryptorRegistry (FernetFieldEncryptor F)}
    (hdefault : registry.default = none) :
    TenantAwareEncryptorRegistry.resolve registry (some tenantId) = .ok enc ↔
      registry.registry.get? tenantId = some enc := by
  unfold TenantAwareEncryptorRegistry.resolve ContextRegistry.resolve
  rw [hdefault, Option.or_none, Option.bind_some]
  cases registry.registry.get? tenantId <;> simp

/-- What `build_tenant_registry` has for a tenant. -/
theorem resolve_of_registers {r : Except EncryptionExc
      (TenantAwareEncryptorRegistry (FernetFieldEncryptor F))} {manager : ℕ}
    {cache : Dict (Option String) (FernetFieldEncryptor F)}
    (h : RegistersTenants master w manager w.store.listTenants {} r cache)
    {registry : TenantAwareEncryptorRegistry (FernetFieldEncryptor F)} (hr : r = .ok registry) :
    TenantAwareEncryptorRegistry.resolve registry (some tenantId) = .ok enc ↔
      tenantKey master w.store tenantId = some (.ok enc) := by
  rw [resolve_tenant (h.default_eq registry hr)]
  constructor
  · intro hget
    rcases h.registry_spec registry hr tenantId enc hget with hold | hkey
    · cases hold
    · exact hkey
  · intro hkey
    refine h.registered registry hr tenantId enc hkey (.inl ?_)
    obtain ⟨e, he, -⟩ := Option.map_eq_some_iff.mp hkey
    obtain ⟨hvalues, htenant, -⟩ := tenantPrimary_spec he
    exact mem_listTenants.mpr ⟨e, hvalues, htenant⟩

/-- **The registry of now reads what the primary keys have written, and no more.** -/
theorem decrypts_iff_primary (hF : F.Lawful) {kids : List String}
    (h : Orderly master kids w.store) (halive : ∀ e ∈ w.store.values, e.isDestroyed = false) :
    TenantReads master w tenantId enc ↔
      Belongs master w.store (fun e => e.tenantId = some tenantId ∧ e.isPrimary = true) enc := by
  constructor
  · intro hreads
    obtain ⟨result, w', hcalls⟩ :=
      calls_total master w ⟨0, .buildTenantRegistry, ⟨"", enc, [], 0⟩⟩
    obtain ⟨registry, hr, hdecrypt⟩ := hreads _ _ _ _ hcalls
    obtain ⟨r, cache, hspec, hres, -⟩ := registers_of_calls hcalls rfl
    have hok : r = .ok registry := by
      have heq : KeyResult.tenants <$> r = .ok (.tenants registry) := hres.symm.trans hr
      cases r with
      | error e => cases heq
      | ok registry' =>
        cases heq
        rfl
    -- the encryptor of the registry has decrypted a token of the encryptor
    have hempty := hdecrypt [] []
    unfold TenantAwareEncryptorRegistry.decrypt at hempty
    cases hresolve : TenantAwareEncryptorRegistry.resolve registry (some tenantId) with
    | error e =>
      rw [hresolve] at hempty
      cases hempty
    | ok enc' =>
      rw [hresolve] at hempty
      rw [eq_of_decrypt hF hempty] at hresolve
      obtain ⟨e, he, hmat⟩ :=
        Option.map_eq_some_iff.mp ((resolve_of_registers hspec hok).mp hresolve)
      obtain ⟨hvalues, htenant, hprimary⟩ := tenantPrimary_spec he
      exact ⟨e, hvalues, ⟨htenant, hprimary⟩, hmat⟩
  · rintro ⟨e, he, ⟨htenant, hprimary⟩, hmat⟩ manager draw r w' hcalls
    obtain ⟨r', cache, hspec, rfl, -⟩ := registers_of_calls hcalls rfl
    have hkey : tenantKey master w.store tenantId = some (.ok enc) := by
      rw [tenantKey, h.tenantPrimary_eq he htenant hprimary, Option.map_some, hmat]
    cases r' with
    | error exc =>
      obtain ⟨t, -, hbad⟩ := hspec.unreadable exc rfl
      obtain ⟨e', he', hmat'⟩ := Option.map_eq_some_iff.mp hbad
      have hvalues := (tenantPrimary_spec he').1
      obtain ⟨enc', henc'⟩ := h.readable e' hvalues (halive e' hvalues)
      rw [henc'] at hmat'
      cases hmat'
    | ok registry =>
      refine ⟨registry, rfl, fun plaintext random => ?_⟩
      unfold TenantAwareEncryptorRegistry.decrypt
      rw [(resolve_of_registers hspec rfl).mpr hkey]
      exact decrypt_self hF enc plaintext random _

end

section

variable {w w' : KeyWorld F} {a : KeyEnd F} {store' : InMemoryEncryptionKeyStore}
  {q : EncryptionKeyEntry → Prop} {enc : FernetFieldEncryptor F} {tenantId : String}

/-- As long as no key is demoted, all of them are primary. -/
theorem primary_of_storeStep (hno : NoDestroy a) (hkeep : ∀ e, DemotesKey w a.call e → ¬q e)
    (hq : ∀ e : EncryptionKeyEntry, q e.demoted → q e)
    (halive : ∀ e ∈ w.store.values, e.isDestroyed = false)
    (hprimary : ∀ e ∈ w.store.values, q e → e.isPrimary = true)
    (hst : StoreStep master w a.call store') :
    ∀ e ∈ store'.values, e.isDestroyed = false ∧ (q e → e.isPrimary = true) := by
  have hmade : ∀ n, MakesKey master w a.call n → n.isDestroyed = false ∧ n.isPrimary = true := by
    intro n hmakes
    obtain ⟨_, _, rfl⟩ := hmakes.generated
    exact ⟨rfl, rfl⟩
  intro e he
  cases hst with
  | same => exact ⟨halive e he, hprimary e he⟩
  | adds n hmakes hfree =>
    rcases mem_values_save he with rfl | ⟨kid, -, hload⟩
    · exact ⟨(hmade _ hmakes).1, fun _ => (hmade _ hmakes).2⟩
    · exact ⟨halive e (mem_values_of_load hload), hprimary e (mem_values_of_load hload)⟩
  | replaces e₀ n hdemotes hmakes htenant =>
    rcases mem_values_save he with rfl | ⟨kid, -, hload⟩
    · exact ⟨(hmade _ hmakes).1, fun _ => (hmade _ hmakes).2⟩
    · rcases mem_values_save (mem_values_of_load hload) with rfl | ⟨kid, -, hload⟩
      · exact ⟨halive e₀ hdemotes.spec.1, fun hqe => absurd (hq e₀ hqe) (hkeep e₀ hdemotes)⟩
      · exact ⟨halive e (mem_values_of_load hload), hprimary e (mem_values_of_load hload)⟩
  | destroys scope actor hop => exact absurd hop (hno scope actor)

theorem belongs_of_storeStep {kids : List String} (h : Orderly master kids w.store)
    (hfresh : a.call.draw.kid ∉ kids) (hst : StoreStep master w a.call store')
    (halive : ∀ e ∈ store'.values, e.isDestroyed = false)
    (hq : ∀ e e', Becomes e e' → q e → q e') (hbelongs : Belongs master w.store q enc) :
    Belongs master store' q enc := by
  obtain ⟨e, he, hqe, hmat⟩ := hbelongs
  obtain ⟨e', he', hbecomes⟩ := becomes_of_storeStep h hfresh hst he
  refine ⟨e', he', hq e e' hbecomes hqe, ?_⟩
  rw [(hbecomes.materialize_eq (halive e' he')).1, hmat]

variable {manager : ℕ}

/-- What a manager has cached after it has cached one more encryptor. -/
theorem cache_caching {w₁ : KeyWorld F} (hmemory : w₁.memory = w.memory) {manager' : ℕ}
    {t : Option String} {enc' : FernetFieldEncryptor F}
    (h : ((w₁.caching manager t enc').memory manager').cache.get? (some tenantId) = some enc) :
    (w.memory manager').cache.get? (some tenantId) = some enc ∨
    (t = some tenantId ∧ enc = enc') := by
  by_cases hmanager : manager' = manager
  · subst hmanager
    rw [KeyWorld.caching, KeyWorld.on_memory_self, Dict.get?_set, hmemory] at h
    split at h
    · cases h
      exact .inr ⟨Eq.symm ‹_›, rfl⟩
    · exact .inl h
  · rw [KeyWorld.caching, KeyWorld.on_memory_of_ne _ _ _ hmanager, hmemory] at h
    exact .inl h

/-- The loop over the tenants caches and registers their keys. -/
theorem belongs_of_registers (h : Calls master w a w') (hop : a.call.op = .buildTenantRegistry) :
    (∀ manager enc, (w'.memory manager).cache.get? (some tenantId) = some enc →
      (w.memory manager).cache.get? (some tenantId) = some enc ∨
        Belongs master w'.store (·.tenantId = some tenantId) enc) ∧
      ∀ enc, HandsOut tenantId enc a →
        Belongs master w'.store (·.tenantId = some tenantId) enc := by
  obtain ⟨r, cache, hspec, hres, rfl⟩ := registers_of_calls h hop
  have hkey : ∀ t enc, tenantKey master w.store t = some (.ok enc) →
      Belongs master w.store (·.tenantId = some t) enc := by
    intro t enc hkey
    obtain ⟨e, he, hmat⟩ := Option.map_eq_some_iff.mp hkey
    obtain ⟨hvalues, htenant, -⟩ := tenantPrimary_spec he
    exact ⟨e, hvalues, htenant, hmat⟩
  refine ⟨fun manager enc hget => ?_, fun enc hhands => ?_⟩
  · by_cases hmanager : manager = a.call.manager
    · subst hmanager
      rw [KeyWorld.on_memory_self] at hget
      refine (hspec.cache_spec _ enc hget).imp_right ?_
      rintro ⟨t, ⟨⟩, hnew⟩
      exact hkey tenantId enc hnew
    · rw [KeyWorld.on_memory_of_ne _ _ _ hmanager] at hget
      exact .inl hget
  · rcases hhands with ⟨hop', -⟩ | ⟨registry, hresult, hresolve⟩
    · rw [hop] at hop'
      rcases hop' with hop' | hop' <;> cases hop'
    · cases r with
      | error e =>
        rw [hres] at hresult
        cases hresult
      | ok registry' =>
        have heq : registry' = registry := by
          rw [hres] at hresult
          cases hresult
          rfl
        subst heq
        exact hkey tenantId enc ((resolve_of_registers hspec rfl).mp hresolve)

theorem not_handsOut {op : KeyOp} {draw : KeyDraw F}
    {result : Except EncryptionExc (KeyResult F)}
    (hresult : ∀ x, result = .ok (.encryptor x) → ∃ scope, op = .rotateScope scope)
    (htenants : ∀ registry, result ≠ .ok (.tenants registry)) :
    ¬HandsOut tenantId enc ⟨⟨manager, op, draw⟩, result⟩ := by
  rintro (⟨hop, hres⟩ | ⟨registry, hres, -⟩)
  · obtain ⟨scope, rfl⟩ := hresult enc hres
    rcases hop with hop | hop <;> cases hop
  · exact htenants registry hres

theorem handsOut_encryptor {op : KeyOp} {draw : KeyDraw F} {t : Option String}
    {x : FernetFieldEncryptor F} (hop : op = .getOrCreateEncryptor t ∨ op = .rotate t)
    (h : HandsOut tenantId enc ⟨⟨manager, op, draw⟩, .ok (.encryptor x)⟩) :
    t = some tenantId ∧ enc = x := by
  rcases h with ⟨hop', hres⟩ | ⟨registry, hres, -⟩
  · cases hres
    refine ⟨?_, rfl⟩
    rcases hop with rfl | rfl <;> rcases hop' with hop' | hop' <;> cases hop' <;> rfl
  · cases hres

/-- **What is cached or returned for a tenant belongs to a key of the tenant.** -/
theorem belongs_of_calls (hF : F.Lawful) (h : Calls master w a w')
    (hcached : ∀ manager enc, (w.memory manager).cache.get? (some tenantId) = some enc →
      Belongs master w'.store (·.tenantId = some tenantId) enc) :
    (∀ manager enc, (w'.memory manager).cache.get? (some tenantId) = some enc →
      Belongs master w'.store (·.tenantId = some tenantId) enc) ∧
      ∀ enc, HandsOut tenantId enc a →
        Belongs master w'.store (·.tenantId = some tenantId) enc := by
  by_cases hop : a.call.op = .buildTenantRegistry
  · obtain ⟨hcache, hhands⟩ := belongs_of_registers h hop
    exact ⟨fun manager enc hget => (hcache manager enc hget).elim (hcached manager enc) id, hhands⟩
  obtain ⟨⟨manager, op, draw⟩, result⟩ := a
  have hout : KeyOutcome master w manager draw op result w' := outcome_of_calls h hop
  -- an encryptor is cached and returned for the tenant `t`
  have hnew : ∀ {w₁ : KeyWorld F} {t : Option String} {x : FernetFieldEncryptor F},
      w₁.memory = w.memory → w₁.caching manager t x = w' →
      (t = some tenantId → Belongs master w'.store (·.tenantId = some tenantId) x) →
      ∀ m enc, (w'.memory m).cache.get? (some tenantId) = some enc →
        Belongs master w'.store (·.tenantId = some tenantId) enc := by
    intro w₁ t x hmemory hw' hbelongs m enc hget
    rw [← hw'] at hget
    rcases cache_caching hmemory hget with hold | ⟨ht, rfl⟩
    · exact hcached m enc hold
    · exact hbelongs ht
  cases hout with
  | cached t x hget =>
    refine ⟨hcached, fun enc hhands => ?_⟩
    obtain ⟨rfl, rfl⟩ := handsOut_encryptor (.inl rfl) hhands
    exact hcached manager enc hget
  | unreadable | unrotated | scopeUnreadable | scopeUnrotated =>
    exact ⟨hcached, fun enc hhands =>
      absurd hhands (not_handsOut (by rintro _ ⟨⟩) (by rintro _ ⟨⟩))⟩
  | found t primary x hcache hfirst hmat =>
    have hbelongs : t = some tenantId → Belongs master w.store (·.tenantId = some tenantId) x := by
      rintro rfl
      obtain ⟨hvalues, htenant, -⟩ := firstOfTenant_spec hfirst
      exact ⟨primary, hvalues, htenant, hmat⟩
    refine ⟨hnew rfl rfl hbelongs, fun enc hhands => ?_⟩
    obtain ⟨ht, rfl⟩ := handsOut_encryptor (.inl rfl) hhands
    exact hbelongs ht
  | created t hcache hnone =>
    have hbelongs : t = some tenantId → Belongs master
        (w.store.save (generate master draw t true).2) (·.tenantId = some tenantId) draw.key :=
      fun ht => ⟨_, self_mem_save, ht, materialize_generate hF⟩
    refine ⟨hnew (KeyWorld.saving_memory ..) rfl hbelongs, fun enc hhands => ?_⟩
    obtain ⟨ht, rfl⟩ := handsOut_encryptor (.inl rfl) hhands
    exact hbelongs ht
  | rotated t primary hfirst =>
    have hbelongs : t = some tenantId → Belongs master
        ((w.store.save primary.demoted).save (generate master draw t true).2)
        (·.tenantId = some tenantId) draw.key :=
      fun ht => ⟨_, self_mem_save, ht, materialize_generate hF⟩
    have hmemory : ((w.saving primary.demoted).saving (generate master draw t true).2).memory =
      w.memory := rfl
    refine ⟨hnew hmemory rfl hbelongs, fun enc hhands => ?_⟩
    obtain ⟨ht, rfl⟩ := handsOut_encryptor (.inr rfl) hhands
    exact hbelongs ht
  | scopeFound scope primary x hprimary hmat =>
    refine ⟨fun m enc hget => hcached m enc ?_, fun enc hhands => ?_⟩
    · rwa [KeyWorld.adding_cache] at hget
    · exact absurd hhands (not_handsOut (by rintro _ ⟨⟩) (by rintro _ ⟨⟩))
  | scopeCreated scope hnone =>
    refine ⟨fun m enc hget => hcached m enc ?_, fun enc hhands => ?_⟩
    · rwa [KeyWorld.adding_cache] at hget
    · exact absurd hhands (not_handsOut (by rintro _ ⟨⟩) (by rintro _ ⟨⟩))
  | scopeRotated scope primary hfirst =>
    refine ⟨fun m enc hget => hcached m enc ?_, fun enc hhands => ?_⟩
    · rwa [KeyWorld.updatingMulti_cache] at hget
    · exact absurd hhands (not_handsOut (fun _ _ => ⟨scope, rfl⟩) (by rintro _ ⟨⟩))
  | destroyed scope actor =>
    refine ⟨fun m enc hget => hcached m enc ?_, fun enc hhands => ?_⟩
    · by_cases hm : m = manager
      · subst hm
        rw [KeyWorld.on_memory_self, Dict.get?_erase, KeyWorld.updatingMulti_cache] at hget
        split at hget
        · cases hget
        · exact hget
      · rwa [KeyWorld.on_memory_of_ne _ _ _ hm, KeyWorld.updatingMulti_cache] at hget
    · exact absurd hhands (not_handsOut (by rintro _ ⟨⟩) (by rintro _ ⟨⟩))

end

/-! ## Runs: tenants -/

/-- What is known of a run that keeps the keys of the tenant. -/
structure TenantKept (master : Option (FernetFieldEncryptor F)) (tenantId : String)
    (l : List (KeyEnd F)) (w : KeyWorld F) : Prop where
  alive : ∀ e ∈ w.store.values, e.isDestroyed = false
  primary : ∀ e ∈ w.store.values, e.tenantId = some tenantId → e.isPrimary = true
  cached : ∀ manager enc, (w.memory manager).cache.get? (some tenantId) = some enc →
    Belongs master w.store (·.tenantId = some tenantId) enc
  handed : ∀ a ∈ l, ∀ enc, HandsOut tenantId enc a →
    Belongs master w.store (·.tenantId = some tenantId) enc

section

variable {w w' : KeyWorld F} {l : List (KeyEnd F)} {a : KeyEnd F} {tenantId scope : String}

theorem tenantKept_snoc (hF : F.Lawful) (horderly : Orderly master (drawnKids l) w.store)
    (hfresh : a.call.draw.kid ∉ drawnKids l) (hkept : TenantKept master tenantId l w)
    (hkeep : KeepsTenant tenantId l w a) (h : Calls master w a w') :
    TenantKept master tenantId (l ++ [a]) w' := by
  have hst := storeStep_of_calls h
  have hprimary :=
    primary_of_storeStep hkeep.1 hkeep.2 (fun _ hq => hq) hkept.alive hkept.primary hst
  have halive : ∀ e ∈ w'.store.values, e.isDestroyed = false := fun e he => (hprimary e he).1
  have hbelongs : ∀ {enc}, Belongs master w.store (·.tenantId = some tenantId) enc →
      Belongs master w'.store (·.tenantId = some tenantId) enc :=
    belongs_of_storeStep horderly hfresh hst halive
      fun e e' hbecomes ht => hbecomes.fields_eq.2.1.trans ht
  obtain ⟨hcached, hhanded⟩ :=
    belongs_of_calls hF h fun manager enc hget => hbelongs (hkept.cached manager enc hget)
  refine ⟨halive, fun e he => (hprimary e he).2, hcached, fun b hb enc hhands => ?_⟩
  rcases mem_append.mp hb with hb | hb
  · exact hbelongs (hkept.handed b hb enc hhands)
  · rw [mem_singleton.mp hb] at hhands
    exact hhanded enc hhands

theorem tenantKept_of_run (hF : F.Lawful) (hkids : (drawnKids l).Nodup)
    (h : Guarded (Calls master) (KeepsTenant tenantId) {} l w) :
    TenantKept master tenantId l w := by
  induction h with
  | nil =>
    refine ⟨fun e he => ?_, fun e he => ?_, fun manager enc hget => ?_, fun a ha => ?_⟩
    · cases he
    · cases he
    · cases hget
    · cases ha
  | @snoc l w w' a hrun hkeep hst ih =>
    have hprev : (drawnKids l).Nodup := hkids.sublist ((sublist_append_left l [a]).map _)
    exact tenantKept_snoc hF (orderly_of_run hF hrun.run) (fresh_of_nodup hkids)
      (ih hprev) hkeep hst

/-- **Tenants**: as long as no key of the tenant is demoted, everything can be read. -/
theorem tenant_reads (hF : F.Lawful) (hkids : (drawnKids l).Nodup)
    (h : Guarded (Calls master) (KeepsTenant tenantId) {} l w) (ha : a ∈ l)
    {enc : FernetFieldEncryptor F} (hhands : HandsOut tenantId enc a) :
    TenantReads master w tenantId enc := by
  have hkept := tenantKept_of_run hF hkids h
  obtain ⟨e, he, htenant, hmat⟩ := hkept.handed a ha enc hhands
  refine (decrypts_iff_primary hF (orderly_of_run hF h.run) hkept.alive).mpr ?_
  exact ⟨e, he, ⟨htenant, hkept.primary e he htenant⟩, hmat⟩

/-! ## Runs: scopes -/

/-- What is known of a run that keeps the one key of the scope. -/
structure ScopeKept (master : Option (FernetFieldEncryptor F)) (scope : String)
    (l : List (KeyEnd F)) (w : KeyWorld F) : Prop where
  alive : ∀ e ∈ w.store.values, e.isDestroyed = false
  primary : ∀ e ∈ w.store.values, e.scope = some scope → e.isPrimary = true
  sole : ∀ e ∈ w.store.values, ∀ e' ∈ w.store.values, e.scope = some scope →
    e'.scope = some scope → e = e'
  built : ∀ l₁ l₂ w₁, l = l₁ ++ l₂ → Run (Calls master) {} l₁ w₁ → ∀ manager place,
    BuiltFor l₁ manager place scope → ∃ kid enc, w₁.multi manager place = .new kid enc ∧
      Belongs master w.store (fun e => e.scope = some scope ∧ e.kid = kid) enc

theorem sole_of_storeStep (hkeep : KeepsScope master scope l w a)
    (hsole : ∀ e ∈ w.store.values, ∀ e' ∈ w.store.values, e.scope = some scope →
      e'.scope = some scope → e = e')
    {store' : InMemoryEncryptionKeyStore} (hst : StoreStep master w a.call store') :
    ∀ e ∈ store'.values, ∀ e' ∈ store'.values, e.scope = some scope → e'.scope = some scope →
      e = e' := by
  intro e he e' he' hs hs'
  cases hst with
  | same => exact hsole e he e' he' hs hs'
  | adds n hmakes hfree =>
    have hnew := hkeep.2.2 n hmakes
    rcases mem_values_save he with rfl | ⟨kid, -, hload⟩ <;>
      rcases mem_values_save he' with rfl | ⟨kid', -, hload'⟩
    · rfl
    · exact absurd hs' (hnew hs e' (mem_values_of_load hload'))
    · exact absurd hs (hnew hs' e (mem_values_of_load hload))
    · exact hsole e (mem_values_of_load hload) e' (mem_values_of_load hload') hs hs'
  | replaces e₀ n hdemotes hmakes htenant =>
    have hnew := hkeep.2.2 n hmakes
    -- the demoted key is of another scope
    have hold : ∀ {x kid}, (w.store.save e₀.demoted).load kid = some x → x.scope = some scope →
        x ∈ w.store.values := by
      intro x kid hload hx
      rcases mem_values_save (mem_values_of_load hload) with rfl | ⟨kid, -, hload⟩
      · exact absurd hx (hkeep.2.1 e₀ hdemotes)
      · exact mem_values_of_load hload
    rcases mem_values_save he with rfl | ⟨kid, -, hload⟩ <;>
      rcases mem_values_save he' with rfl | ⟨kid', -, hload'⟩
    · rfl
    · exact absurd hs' (hnew hs e' (hold hload' hs'))
    · exact absurd hs (hnew hs' e (hold hload hs))
    · exact hsole e (hold hload hs) e' (hold hload' hs') hs hs'
  | destroys scope' actor hop => exact absurd hop (hkeep.1 scope' actor)

/-- The registries of the scope have its key, after one more call. -/
theorem built_snoc (hF : F.Lawful) (hplaced : Placed l w) (hkeep : KeepsScope master scope l w a)
    (h : Calls master w a w')
    (hbuilt : ∀ manager place, BuiltFor l manager place scope →
      ∃ kid enc, w.multi manager place = .new kid enc ∧
        Belongs master w'.store (fun e => e.scope = some scope ∧ e.kid = kid) enc)
    (hnew : ∀ e enc, scopePrimary w.store scope = some e ∨ MakesKey master w a.call e →
      a.call.op = .buildScopedRegistry scope → materialize master e = .ok enc →
      Belongs master w'.store (fun e' => e'.scope = some scope ∧ e'.kid = e.kid) enc)
    {manager place : ℕ} (hb : BuiltFor (l ++ [a]) manager place scope) :
    ∃ kid enc, w'.multi manager place = .new kid enc ∧
      Belongs master w'.store (fun e => e.scope = some scope ∧ e.kid = kid) enc := by
  have hold : BuiltFor l manager place scope →
      ∃ kid enc, w'.multi manager place = .new kid enc ∧
        Belongs master w'.store (fun e => e.scope = some scope ∧ e.kid = kid) enc := by
    intro hb
    have hat := multiAt_of_calls hF hplaced h hb
    generalize w'.multi manager place = multi at hat ⊢
    cases hat with
    | same => exact hbuilt manager place hb
    | rotated hmanager hop hfirst hget =>
      obtain ⟨primary, hfirst⟩ := hfirst
      exact absurd (firstOfScope_spec hfirst).2.1
        (hkeep.2.1 primary (.scopeRotated scope primary hop hfirst))
    | destroyed actor hmanager hop hget => exact absurd hop (hkeep.1 scope actor)
  cases multiStep_of_calls hF h with
  | same hmulti hmultis hres hop => exact hold (builtFor_snoc_of_ne hres hb)
  | builds scope' primary enc hmulti hmultis hop hres hprimary henc =>
    rcases builtFor_snoc hop hres hb with hb | ⟨rfl, rfl, rfl⟩
    · exact hold hb
    · exact ⟨primary.kid, enc, multi_of_builds hmultis, hnew primary enc hprimary hop henc⟩
  | rotates scope' place' hmulti hget hmultis hop hfirst hres =>
    refine hold (builtFor_snoc_of_ne (fun _ _ heq => ?_) hb)
    rw [hres] at heq
    cases heq
  | destroys scope' actor place' hmulti hget hmultis hop hres =>
    exact absurd hop (hkeep.1 scope' actor)

/-- The key that `build_scoped_registry` makes is saved. -/
theorem makesKey_mem (h : Calls master w a w') (hop : a.call.op = .buildScopedRegistry scope)
    {n : EncryptionKeyEntry} (hmakes : MakesKey master w a.call n) :
    n ∈ w'.store.values ∧ n.scope = some scope := by
  obtain ⟨⟨manager, op, draw⟩, result⟩ := a
  cases hop
  have hout : KeyOutcome master w manager draw (.buildScopedRegistry scope) result w' :=
    outcome_of_calls h nofun
  cases hmakes with
  | scopeCreated scope' hop hnone =>
    cases hop
    cases hout with
    | scopeCreated _ _ => exact ⟨self_mem_save, rfl⟩
    | scopeFound _ primary enc hprimary henc =>
      rw [hnone] at hprimary
      cases hprimary
    | scopeUnreadable _ primary e hprimary henc =>
      rw [hnone] at hprimary
      cases hprimary
  | created tenantId hop => cases hop
  | rotated tenantId primary hop => cases hop
  | scopeRotated scope' primary hop => cases hop

theorem scopeKept_snoc (hF : F.Lawful) (hrun : Run (Calls master) {} l w)
    (hfresh : a.call.draw.kid ∉ drawnKids l) (hkept : ScopeKept master scope l w)
    (hkeep : KeepsScope master scope l w a) (h : Calls master w a w') :
    ScopeKept master scope (l ++ [a]) w' := by
  have horderly := orderly_of_run hF hrun
  have hst := storeStep_of_calls h
  have hprimary := primary_of_storeStep hkeep.1 hkeep.2.1 (fun _ hq => hq) hkept.alive
    hkept.primary hst
  have halive : ∀ e ∈ w'.store.values, e.isDestroyed = false := fun e he => (hprimary e he).1
  have hbelongs : ∀ {kid enc},
      Belongs master w.store (fun e => e.scope = some scope ∧ e.kid = kid) enc →
      Belongs master w'.store (fun e => e.scope = some scope ∧ e.kid = kid) enc := by
    refine fun {kid enc} => belongs_of_storeStep horderly hfresh hst halive ?_
    intro e e' hbecomes hq
    obtain ⟨hkid, -, hscope, -⟩ := hbecomes.fields_eq
    exact ⟨hscope.trans hq.1, hkid.trans hq.2⟩
  refine ⟨halive, fun e he => (hprimary e he).2, sole_of_storeStep hkeep hkept.sole hst, ?_⟩
  intro l₁ l₂ w₁ hl hrun₁ manager place hb
  rcases eq_nil_or_concat l₂ with rfl | ⟨l₃, b, rfl⟩
  · -- the registry as it is after this call
    rw [append_nil] at hl
    subst hl
    have hw₁ : w₁ = w' := run_det hrun₁ (hrun.append (.single h))
    subst hw₁
    refine built_snoc hF (placed_of_run hF hrun) hkeep h (fun manager place hb => ?_) ?_ hb
    · obtain ⟨kid, enc, hmulti, hkey⟩ := hkept.built l [] w (by simp) hrun manager place hb
      exact ⟨kid, enc, hmulti, hbelongs hkey⟩
    · intro e enc hcase hop hmat
      rcases hcase with hfound | hmakes
      · obtain ⟨he, hs, -⟩ := scopePrimary_spec hfound
        exact hbelongs ⟨e, he, ⟨hs, rfl⟩, hmat⟩
      · obtain ⟨he, hs⟩ := makesKey_mem h hop hmakes
        exact ⟨e, he, ⟨hs, rfl⟩, hmat⟩
  · rw [concat_eq_append, ← append_assoc] at hl
    obtain ⟨rfl, -⟩ := append_inj' hl rfl
    obtain ⟨kid, enc, hmulti, hkey⟩ := hkept.built l₁ l₃ w₁ rfl hrun₁ manager place hb
    exact ⟨kid, enc, hmulti, hbelongs hkey⟩

theorem scopeKept_of_run (hF : F.Lawful) (hkids : (drawnKids l).Nodup)
    (h : Guarded (Calls master) (KeepsScope master scope) {} l w) : ScopeKept master scope l w := by
  induction h with
  | nil =>
    refine ⟨fun e he => ?_, fun e he => ?_, fun e he => ?_,
      fun l₁ l₂ w₁ hl _ manager place hb => ?_⟩
    · cases he
    · cases he
    · cases he
    · obtain ⟨rfl, -⟩ := append_eq_nil_iff.mp hl.symm
      obtain ⟨a, ha, -⟩ := hb
      cases ha
  | @snoc l w w' a hrun hkeep hst ih =>
    have hprev : (drawnKids l).Nodup := hkids.sublist ((sublist_append_left l [a]).map _)
    exact scopeKept_snoc hF hrun.run (fresh_of_nodup hkids) (ih hprev) hkeep hst

theorem encrypt_new (kid : String) (enc : FernetFieldEncryptor F) (plaintext random : Bytes)
    (context : Option String) :
    (MultiKeyEncryptorRegistry.new kid enc).encrypt plaintext context random =
      .ok (packCiphertext kid (enc.encrypt plaintext random)) := by
  unfold MultiKeyEncryptorRegistry.encrypt MultiKeyEncryptorRegistry.new
  rw [Dict.get?_set_self]
  rfl

/-- **A registry with the key decrypts it.** -/
theorem decrypt_new (hF : F.Lawful) {kid : String} (hkid : (encodeKid kid).length < 2 ^ 32)
    (enc : FernetFieldEncryptor F) (plaintext random : Bytes) (context : Option String) :
    (MultiKeyEncryptorRegistry.new kid enc).decrypt
      (packCiphertext kid (enc.encrypt plaintext random)) context = .ok plaintext := by
  refine (MultiKeyEncryptorRegistry.decrypt_of_registered hkid not_mem_nil
    (Dict.get?_set_self ..)).trans ?_
  exact decrypt_self hF enc plaintext random context

/-- **Scopes**: as long as no key of the scope is demoted and it gets no second one, everything can
be read. -/
theorem scope_reads (hF : F.Lawful) {l₁ l₂ : List (KeyEnd F)} {w₁ : KeyWorld F}
    (hkids : (drawnKids (l₁ ++ l₂)).Nodup)
    (hshort : ∀ kid ∈ drawnKids (l₁ ++ l₂), (encodeKid kid).length < 2 ^ 32)
    (h : Guarded (Calls master) (KeepsScope master scope) {} (l₁ ++ l₂) w)
    (h₁ : Run (Calls master) {} l₁ w₁) {manager place : ℕ} (hb : BuiltFor l₁ manager place scope)
    {plaintext random ciphertext : Bytes}
    (hencrypt : w₁.encryptScoped manager
      (({} : ScopedEncryptorRegistry ℕ).register scope place) plaintext (some scope) random =
        .ok ciphertext) :
    ScopeReads master w scope ciphertext plaintext := by
  have hkept := scopeKept_of_run hF hkids h
  have horderly := orderly_of_run hF h.run
  obtain ⟨kid, enc, hmulti, e, he, ⟨hs, rfl⟩, hmat⟩ := hkept.built l₁ l₂ w₁ rfl h₁ manager place hb
  -- the ciphertext is framed with the one key of the scope
  have hciphertext : ciphertext = packCiphertext e.kid (enc.encrypt plaintext random) := by
    unfold KeyWorld.encryptScoped at hencrypt
    rw [resolve_scope] at hencrypt
    change (w₁.multi manager place).encrypt _ _ _ = _ at hencrypt
    rw [hmulti, encrypt_new] at hencrypt
    exact (Except.ok.inj hencrypt).symm
  have hkid := hshort e.kid (horderly.drawn e.kid e (horderly.load_of_mem he))
  have hprimary : scopePrimary w.store scope = some e := by
    cases hfound : scopePrimary w.store scope with
    | none =>
      exact absurd ⟨hkept.primary e he hs, hkept.alive e he⟩ (scopePrimary_eq_none hfound he hs)
    | some e' =>
      obtain ⟨he', hs', -⟩ := scopePrimary_spec hfound
      rw [hkept.sole e' he' e he hs' hs]
  intro manager' draw r w' hcalls
  have hout : KeyOutcome master w manager' draw (.buildScopedRegistry scope) r w' :=
    outcome_of_calls hcalls nofun
  cases hout with
  | scopeFound _ primary enc' hfound henc' =>
    cases hprimary.symm.trans hfound
    cases hmat.symm.trans henc'
    refine ⟨_, rfl, ?_⟩
    unfold KeyWorld.decryptScoped
    rw [resolve_scope]
    change ((w.adding manager' scope e.kid enc).multi manager' _).decrypt _ _ = _
    rw [multi_of_builds (by rw [KeyWorld.adding, KeyWorld.on_memory_self]), hciphertext]
    exact decrypt_new hF hkid enc plaintext random _
  | scopeUnreadable _ primary exc hfound henc' =>
    cases hprimary.symm.trans hfound
    cases hmat.symm.trans henc'
  | scopeCreated _ hnone =>
    rw [hprimary] at hnone
    cases hnone

/-- **Rotation and reading.** In every run without destruction: as long as no key of a tenant is
demoted, the registry of now decrypts what any encryptor that was returned for the tenant has
encrypted; as long as no key of a scope is demoted and the scope gets no second one, the registry of
now decrypts what any registry of the scope has encrypted at any time. -/
theorem undemoted_keys_read (hF : F.Lawful) (hkids : (drawnKids l).Nodup)
    (hshort : ∀ kid ∈ drawnKids l, (encodeKid kid).length < 2 ^ 32) :
    (∀ tenantId, Guarded (Calls master) (KeepsTenant tenantId) {} l w →
      ∀ a ∈ l, ∀ enc, HandsOut tenantId enc a → TenantReads master w tenantId enc) ∧
    (∀ scope, Guarded (Calls master) (KeepsScope master scope) {} l w →
      ∀ l₁ l₂ w₁, l = l₁ ++ l₂ → Run (Calls master) {} l₁ w₁ →
      ∀ manager place, BuiltFor l₁ manager place scope → ∀ plaintext random ciphertext,
        w₁.encryptScoped manager (({} : ScopedEncryptorRegistry ℕ).register scope place) plaintext
          (some scope) random = .ok ciphertext →
        ScopeReads master w scope ciphertext plaintext) := by
  refine ⟨fun tenantId h a ha enc hhands => tenant_reads hF hkids h ha hhands, ?_⟩
  intro scope h l₁ l₂ w₁ hl h₁ manager place hb plaintext random ciphertext hencrypt
  subst hl
  exact scope_reads hF hkids hshort h h₁ hb hencrypt

end

/-! ## Runs -/

def acmeDraw : Fin 4 → KeyDraw Fernet.plain
  | 0 => ⟨"a", ⟨List.replicate 32 1, rfl⟩, [], 0⟩
  | 1 => ⟨"b", ⟨List.replicate 32 2, rfl⟩, [], 1⟩
  | 2 => ⟨"c", ⟨List.replicate 32 5, rfl⟩, [], 2⟩
  | 3 => ⟨"d", ⟨List.replicate 32 6, rfl⟩, [], 3⟩

/-- Two tenants get keys, and a fresh manager rotates one of them and makes a key for a scope. -/
def acmeSetup : List (KeyEnd Fernet.plain) :=
  [⟨⟨0, .getOrCreateEncryptor (some "acme"), acmeDraw 0⟩, .ok (.encryptor (acmeDraw 0).key)⟩,
    ⟨⟨0, .getOrCreateEncryptor (some "globex"), acmeDraw 1⟩, .ok (.encryptor (acmeDraw 1).key)⟩,
    ⟨⟨1, .rotate (some "globex"), acmeDraw 2⟩, .ok (.encryptor (acmeDraw 2).key)⟩,
    ⟨⟨1, .buildScopedRegistry "alice", acmeDraw 3⟩,
      .ok (.scoped 1 (({} : ScopedEncryptorRegistry ℕ).register "alice" 0))⟩]

def acmeRotation : List (KeyEnd Fernet.plain) :=
  [⟨⟨0, .getOrCreateEncryptor (some "acme"), acmeDraw 0⟩, .ok (.encryptor (acmeDraw 0).key)⟩,
    ⟨⟨0, .rotate (some "acme"), acmeDraw 1⟩, .ok (.encryptor (acmeDraw 1).key)⟩]

theorem keepsScope_of_forall {scope : String} {a : KeyEnd F} {l : List (KeyEnd F)}
    (hno : NoDestroy a) (h : ∀ e ∈ w.store.values, e.scope ≠ some scope) :
    KeepsScope master scope l w a :=
  ⟨hno, fun e he => h e he.spec.1, fun _ _ _ => h⟩

theorem guarded_acmeSetup : ∃ w,
    Guarded (Calls none) (KeepsTenant "acme") {} acmeSetup w ∧
      Guarded (Calls none) (KeepsScope none "alice") {} acmeSetup w := by
  have hsteps : ∃ w₁ w₂ w₃ w, Calls none {} acmeSetup[0] w₁ ∧ Calls none w₁ acmeSetup[1] w₂ ∧
      Calls none w₂ acmeSetup[2] w₃ ∧ Calls none w₃ acmeSetup[3] w ∧
      ∀ w' ∈ [w₁, w₂, w₃], ∀ e ∈ w'.store.values, e.scope ≠ some "alice" :=
    ⟨_, _, _, _, rfl, rfl, rfl, rfl, by decide +kernel⟩
  obtain ⟨w₁, w₂, w₃, w, h₁, h₂, h₃, h₄, hnone⟩ := hsteps
  refine ⟨w, .snoc (.snoc (.snoc (.snoc .nil ⟨nofun, ?_⟩ h₁) ⟨nofun, ?_⟩ h₂) ⟨nofun, ?_⟩ h₃)
    ⟨nofun, ?_⟩ h₄, .snoc (.snoc (.snoc (.snoc .nil ?_ h₁) ?_ h₂) ?_ h₃) ?_ h₄⟩
  · rintro e (⟨_, _, ⟨⟩⟩ | ⟨_, _, ⟨⟩⟩)
  · rintro e (⟨_, _, ⟨⟩⟩ | ⟨_, _, ⟨⟩⟩)
  · rintro e (⟨_, _, ⟨⟩, h⟩ | ⟨_, _, ⟨⟩⟩)
    rw [(firstOfTenant_spec h).2.1]
    decide
  · rintro e (⟨_, _, ⟨⟩⟩ | ⟨_, _, ⟨⟩⟩)
  · exact keepsScope_of_forall nofun nofun
  · exact keepsScope_of_forall nofun (hnone w₁ (by simp))
  · exact keepsScope_of_forall nofun (hnone w₂ (by simp))
  · exact keepsScope_of_forall nofun (hnone w₃ (by simp))

/-- What is encrypted with the keys of the tenant and of the scope can be read after the calls. -/
theorem undemoted_keys_read_acme : ∃ w ciphertext,
    Run (Calls none) {} acmeSetup w ∧ TenantReads none w "acme" (acmeDraw 0).key ∧
      w.encryptScoped 1 (({} : ScopedEncryptorRegistry ℕ).register "alice" 0) [7] (some "alice")
        [] = .ok ciphertext ∧
      ScopeReads none w "alice" ciphertext [7] := by
  obtain ⟨w, htenant, hscope⟩ := guarded_acmeSetup
  have hkids : (drawnKids acmeSetup).Nodup := by decide
  have hshort : ∀ kid ∈ drawnKids acmeSetup, (encodeKid kid).length < 2 ^ 32 := by decide
  obtain ⟨hreads, hscoped⟩ :=
    @undemoted_keys_read _ none w _ Fernet.plain_lawful hkids hshort
  have hb : BuiltFor acmeSetup 1 0 "alice" := ⟨acmeSetup[3], by simp [acmeSetup], rfl, rfl, rfl⟩
  have hencrypt : ∃ w' ciphertext, Run (Calls none) {} acmeSetup w' ∧
      w'.encryptScoped 1 (({} : ScopedEncryptorRegistry ℕ).register "alice" 0) [7] (some "alice")
        [] = .ok ciphertext :=
    ⟨_, _, .cons rfl (.cons rfl (.cons rfl (.cons rfl (.nil _)))), rfl⟩
  obtain ⟨w', ciphertext, hrun', hencrypt⟩ := hencrypt
  obtain rfl : w' = w := run_det hrun' hscope.run
  refine ⟨w', ciphertext, hrun', ?_, hencrypt, ?_⟩
  · exact hreads "acme" htenant acmeSetup[0] (by simp [acmeSetup]) _ (.inl ⟨.inl rfl, rfl⟩)
  · exact hscoped "alice" hscope acmeSetup [] w' (by simp) hrun' 1 0 hb [7] [] ciphertext hencrypt

/-- What was encrypted before a rotation cannot be read after it. -/
theorem rotated_unreadable : ∃ w enc,
    Fernet.plain.Lawful ∧ Run (Calls none) {} acmeRotation w ∧ (drawnKids acmeRotation).Nodup ∧
      (∀ a ∈ acmeRotation, NoDestroy a) ∧ (∃ a ∈ acmeRotation, HandsOut "acme" enc a) ∧
      ¬TenantReads none w "acme" enc := by
  have hrun : ∃ w, Run (Calls none) {} acmeRotation w ∧
      w.store.values = [(generate none (acmeDraw 0) (some "acme") true).2.demoted,
        (generate none (acmeDraw 1) (some "acme") true).2] :=
    ⟨_, .cons rfl (.cons rfl (.nil _)), rfl⟩
  obtain ⟨w, hrun, hvalues⟩ := hrun
  refine ⟨w, (acmeDraw 0).key, Fernet.plain_lawful, hrun, by decide, ?_, ?_, fun hreads => ?_⟩
  · simp [acmeRotation, NoDestroy]
  · exact ⟨acmeRotation[0], by simp [acmeRotation], .inl ⟨.inl rfl, rfl⟩⟩
  · have halive : ∀ e ∈ w.store.values, e.isDestroyed = false := by
      rw [hvalues]
      decide
    obtain ⟨e, he, ⟨-, hprimary⟩, hmat⟩ := (decrypts_iff_primary Fernet.plain_lawful
      (orderly_of_run Fernet.plain_lawful hrun) halive).mp hreads
    rw [hvalues] at he
    rcases mem_pair.mp he with rfl | rfl
    · cases hprimary
    · rw [materialize_generate Fernet.plain_lawful] at hmat
      exact absurd (Except.ok.inj hmat) (by decide)

end Varco
