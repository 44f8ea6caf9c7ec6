import Varco.Encryption.KeyManager

/-!
# Calls one after the other

The methods of key managers when no two of them overlap. A call is run to its end, and
`KeyOutcome` lists what each method can do: what it finds, what it returns and what it leaves.
`build_tenant_registry` loops over the tenants, so what it does is said by an induction over them
(`eval_registerTenants`).
-/

namespace Varco

open EncryptionKeyManager InMemoryEncryptionKeyStore KeyWorld

variable {F : Fernet}

/-! ## Changes of a world -/

namespace KeyWorld

def saving (w : KeyWorld F) (entry : EncryptionKeyEntry) : KeyWorld F :=
  { w with store := w.store.save entry }

def on (w : KeyWorld F) (manager : ℕ) (f : ManagerMemory F → ManagerMemory F) : KeyWorld F :=
  { w with memory := Function.update w.memory manager (f (w.memory manager)) }

def caching (w : KeyWorld F) (manager : ℕ) (tenantId : Option String)
    (enc : FernetFieldEncryptor F) : KeyWorld F :=
  w.on manager fun m => { m with cache := m.cache.set tenantId enc }

def adding (w : KeyWorld F) (manager : ℕ) (scope kid : String) (enc : FernetFieldEncryptor F) :
    KeyWorld F :=
  w.on manager fun m => { m with
    scopedMulti := m.scopedMulti.set scope (w.memory manager).multis.length
    multis := m.multis ++ [.new kid enc] }

def updatingMulti (w : KeyWorld F) (manager : ℕ) (scope : String)
    (f : MultiKeyEncryptorRegistry (FernetFieldEncryptor F) →
      MultiKeyEncryptorRegistry (FernetFieldEncryptor F)) : KeyWorld F :=
  match (w.memory manager).scopedMulti.get? scope with
  | none => w
  | some multi => w.on manager fun m => { m with multis := m.multis.modify multi f }

section

variable (w : KeyWorld F) (manager : ℕ) (f : ManagerMemory F → ManagerMemory F)

@[simp] theorem saving_store (entry : EncryptionKeyEntry) :
    (w.saving entry).store = w.store.save entry := rfl

@[simp] theorem saving_memory (entry : EncryptionKeyEntry) : (w.saving entry).memory = w.memory :=
  rfl

@[simp] theorem on_store : (w.on manager f).store = w.store := rfl

@[simp] theorem on_memory_self : (w.on manager f).memory manager = f (w.memory manager) :=
  Function.update_self ..

theorem on_memory_of_ne {manager' : ℕ} (h : manager' ≠ manager) :
    (w.on manager f).memory manager' = w.memory manager' :=
  Function.update_of_ne h ..

@[simp] theorem caching_store (tenantId : Option String) (enc : FernetFieldEncryptor F) :
    (w.caching manager tenantId enc).store = w.store := rfl

@[simp] theorem adding_store (scope kid : String) (enc : FernetFieldEncryptor F) :
    (w.adding manager scope kid enc).store = w.store := rfl

@[simp] theorem updatingMulti_store (scope : String)
    (g : MultiKeyEncryptorRegistry (FernetFieldEncryptor F) →
      MultiKeyEncryptorRegistry (FernetFieldEncryptor F)) :
    (w.updatingMulti manager scope g).store = w.store := by
  unfold updatingMulti
  split <;> rfl

/-- What leaves the cache of the manager alone leaves every cache alone. -/
theorem on_cache (h : ∀ m, (f m).cache = m.cache) (manager' : ℕ) :
    ((w.on manager f).memory manager').cache = (w.memory manager').cache := by
  by_cases hmanager : manager' = manager
  · subst hmanager
    rw [on_memory_self, h]
  · rw [on_memory_of_ne _ _ _ hmanager]

@[simp] theorem adding_cache (scope kid : String) (enc : FernetFieldEncryptor F) (manager' : ℕ) :
    ((w.adding manager scope kid enc).memory manager').cache = (w.memory manager').cache := by
  refine on_cache _ _ _ ?_ manager'
  exact fun _ => rfl

@[simp] theorem updatingMulti_cache (scope : String)
    (g : MultiKeyEncryptorRegistry (FernetFieldEncryptor F) →
      MultiKeyEncryptorRegistry (FernetFieldEncryptor F)) (manager' : ℕ) :
    ((w.updatingMulti manager scope g).memory manager').cache = (w.memory manager').cache := by
  unfold updatingMulti
  split
  · rfl
  · refine on_cache _ _ _ ?_ manager'
    exact fun _ => rfl

end

end KeyWorld

/-- The entry of a tenant that `build_tenant_registry` uses. -/
def tenantPrimary (store : InMemoryEncryptionKeyStore) (tenantId : String) :
    Option EncryptionKeyEntry :=
  (newestFirst ((store.loadForTenant (some tenantId)).filter (·.isPrimary))).head?

/-- The entry of a scope that `build_scoped_registry` uses. -/
def scopePrimary (store : InMemoryEncryptionKeyStore) (scope : String) :
    Option EncryptionKeyEntry :=
  (newestFirst ((store.loadForScope (some scope)).filter
    fun e => e.isPrimary && !e.isDestroyed)).head?

/-- The entry of a tenant that `rotate` and `get_or_create_encryptor` use. -/
def firstOfTenant (store : InMemoryEncryptionKeyStore) (tenantId : Option String) :
    Option EncryptionKeyEntry :=
  (store.loadForTenant tenantId).find? (·.isPrimary)

/-- The entry of a scope that `rotate_scope` uses. -/
def firstOfScope (store : InMemoryEncryptionKeyStore) (scope : String) :
    Option EncryptionKeyEntry :=
  (store.loadForScope (some scope)).find? fun e => e.isPrimary && !e.isDestroyed

theorem mem_newestFirst {l : List EncryptionKeyEntry} {e : EncryptionKeyEntry} :
    e ∈ newestFirst l ↔ e ∈ l :=
  (List.perm_insertionSort ..).mem_iff

theorem newestFirst_eq_nil {l : List EncryptionKeyEntry} : newestFirst l = [] ↔ l = [] := by
  rw [← List.length_eq_zero_iff, newestFirst, List.length_insertionSort, List.length_eq_zero_iff]

section

variable {store : InMemoryEncryptionKeyStore} {e : EncryptionKeyEntry} {scope : String}

theorem tenantPrimary_spec {tenantId : String} (h : tenantPrimary store tenantId = some e) :
    e ∈ store.values ∧ e.tenantId = some tenantId ∧ e.isPrimary = true := by
  have hmem := mem_newestFirst.mp (List.mem_of_head? h)
  rw [List.mem_filter, mem_loadForTenant] at hmem
  exact ⟨hmem.1.1, hmem.1.2, hmem.2⟩

theorem tenantPrimary_eq_none {tenantId : String} (h : tenantPrimary store tenantId = none)
    (he : e ∈ store.values) (ht : e.tenantId = some tenantId) : e.isPrimary = false := by
  have hnil := newestFirst_eq_nil.mp (List.head?_eq_none_iff.mp h)
  by_contra hprimary
  have hmem : e ∈ (store.loadForTenant (some tenantId)).filter (·.isPrimary) :=
    List.mem_filter.mpr ⟨mem_loadForTenant.mpr ⟨he, ht⟩, by simpa using hprimary⟩
  rw [hnil] at hmem
  cases hmem

theorem scopePrimary_spec (h : scopePrimary store scope = some e) :
    e ∈ store.values ∧ e.scope = some scope ∧ e.isPrimary = true ∧ e.isDestroyed = false := by
  have hmem := mem_newestFirst.mp (List.mem_of_head? h)
  rw [List.mem_filter, mem_loadForScope] at hmem
  simpa [and_assoc] using hmem

theorem scopePrimary_eq_none (h : scopePrimary store scope = none) (he : e ∈ store.values)
    (hs : e.scope = some scope) : ¬(e.isPrimary = true ∧ e.isDestroyed = false) := by
  intro hprimary
  have hnil := newestFirst_eq_nil.mp (List.head?_eq_none_iff.mp h)
  have hmem : e ∈ (store.loadForScope (some scope)).filter
      fun e => e.isPrimary && !e.isDestroyed :=
    List.mem_filter.mpr ⟨mem_loadForScope.mpr ⟨he, hs⟩, by simpa using hprimary⟩
  rw [hnil] at hmem
  cases hmem

theorem firstOfTenant_spec {tenantId : Option String} (h : firstOfTenant store tenantId = some e) :
    e ∈ store.values ∧ e.tenantId = tenantId ∧ e.isPrimary = true := by
  obtain ⟨hvalues, htenant⟩ := mem_loadForTenant.mp (List.mem_of_find?_eq_some h)
  exact ⟨hvalues, htenant, List.find?_some h⟩

theorem firstOfTenant_eq_none {tenantId : Option String} (h : firstOfTenant store tenantId = none)
    (he : e ∈ store.values) (ht : e.tenantId = tenantId) : e.isPrimary = false := by
  have hnone := List.find?_eq_none.mp h e (mem_loadForTenant.mpr ⟨he, ht⟩)
  simpa using hnone

theorem firstOfScope_spec (h : firstOfScope store scope = some e) :
    e ∈ store.values ∧ e.scope = some scope ∧ e.isPrimary = true ∧ e.isDestroyed = false := by
  obtain ⟨hvalues, hscope⟩ := mem_loadForScope.mp (List.mem_of_find?_eq_some h)
  exact ⟨hvalues, hscope, by simpa using List.find?_some h⟩

end

/-! ## What the methods do -/

/-- A call that has ended. -/
structure KeyEnd (F : Fernet) where
  call : KeyCall F
  result : Except EncryptionExc (KeyResult F)

def Calls (master : Option (FernetFieldEncryptor F)) (w : KeyWorld F) (a : KeyEnd F)
    (w' : KeyWorld F) : Prop :=
  (a.call.prog master).run.eval exec w = (a.result, w')

theorem calls_total (master : Option (FernetFieldEncryptor F)) (w : KeyWorld F) (c : KeyCall F) :
    ∃ r w', Calls master w ⟨c, r⟩ w' :=
  ⟨_, _, (Prod.mk.eta (p := (c.prog master).run.eval exec w)).symm⟩

/-- The calls and their results determine what is left. -/
theorem run_det {master : Option (FernetFieldEncryptor F)} {w w₁ w₂ : KeyWorld F}
    {l : List (KeyEnd F)} (h₁ : Run (Calls master) w l w₁) (h₂ : Run (Calls master) w l w₂) :
    w₁ = w₂ := by
  refine h₁.det (fun w a w₁ w₂ (h₁ : Calls master w a w₁) h₂ => ?_) h₂
  exact congrArg Prod.snd (h₁.symm.trans h₂)

/-- What a method can do, but for `build_tenant_registry`. -/
inductive KeyOutcome (master : Option (FernetFieldEncryptor F)) (w : KeyWorld F) (manager : ℕ)
    (draw : KeyDraw F) : KeyOp → Except EncryptionExc (KeyResult F) → KeyWorld F → Prop
  | cached (tenantId : Option String) (enc : FernetFieldEncryptor F)
      (h : (w.memory manager).cache.get? tenantId = some enc) :
      KeyOutcome master w manager draw (.getOrCreateEncryptor tenantId) (.ok (.encryptor enc)) w
  | found (tenantId : Option String) (primary : EncryptionKeyEntry) (enc : FernetFieldEncryptor F)
      (hcache : (w.memory manager).cache.get? tenantId = none)
      (h : firstOfTenant w.store tenantId = some primary)
      (henc : materialize master primary = .ok enc) :
      KeyOutcome master w manager draw (.getOrCreateEncryptor tenantId) (.ok (.encryptor enc))
        (w.caching manager tenantId enc)
  | unreadable (tenantId : Option String) (primary : EncryptionKeyEntry) (e : EncryptionExc)
      (hcache : (w.memory manager).cache.get? tenantId = none)
      (h : firstOfTenant w.store tenantId = some primary)
      (henc : materialize master primary = .error e) :
      KeyOutcome master w manager draw (.getOrCreateEncryptor tenantId) (.error e) w
  | created (tenantId : Option String) (hcache : (w.memory manager).cache.get? tenantId = none)
      (h : firstOfTenant w.store tenantId = none) :
      KeyOutcome master w manager draw (.getOrCreateEncryptor tenantId) (.ok (.encryptor draw.key))
        ((w.saving (generate master draw tenantId true).2).caching manager tenantId draw.key)
  | unrotated (tenantId : Option String) (e : EncryptionExc)
      (h : firstOfTenant w.store tenantId = none) :
      KeyOutcome master w manager draw (.rotate tenantId) (.error e) w
  | rotated (tenantId : Option String) (primary : EncryptionKeyEntry)
      (h : firstOfTenant w.store tenantId = some primary) :
      KeyOutcome master w manager draw (.rotate tenantId) (.ok (.encryptor draw.key))
        (((w.saving primary.demoted).saving (generate master draw tenantId true).2).caching manager
          tenantId draw.key)
  | scopeFound (scope : String) (primary : EncryptionKeyEntry) (enc : FernetFieldEncryptor F)
      (h : scopePrimary w.store scope = some primary)
      (henc : materialize master primary = .ok enc) :
      KeyOutcome master w manager draw (.buildScopedRegistry scope)
        (.ok (.scoped manager
          (({} : ScopedEncryptorRegistry ℕ).register scope (w.memory manager).multis.length)))
        (w.adding manager scope primary.kid enc)
  | scopeUnreadable (scope : String) (primary : EncryptionKeyEntry) (e : EncryptionExc)
      (h : scopePrimary w.store scope = some primary)
      (henc : materialize master primary = .error e) :
      KeyOutcome master w manager draw (.buildScopedRegistry scope) (.error e) w
  | scopeCreated (scope : String) (h : scopePrimary w.store scope = none) :
      KeyOutcome master w manager draw (.buildScopedRegistry scope)
        (.ok (.scoped manager
          (({} : ScopedEncryptorRegistry ℕ).register scope (w.memory manager).multis.length)))
        ((w.saving (generate master draw none true (some scope)).2).adding manager scope draw.kid
          draw.key)
  | scopeUnrotated (scope : String) (e : EncryptionExc) (h : firstOfScope w.store scope = none) :
      KeyOutcome master w manager draw (.rotateScope scope) (.error e) w
  | scopeRotated (scope : String) (primary : EncryptionKeyEntry)
      (h : firstOfScope w.store scope = some primary) :
      KeyOutcome master w manager draw (.rotateScope scope) (.ok (.encryptor draw.key))
        (((w.saving primary.demoted).saving
            (generate master draw primary.tenantId true (some scope)).2).updatingMulti manager scope
          fun r => { r.register draw.kid draw.key with primaryKid := draw.kid })
  | destroyed (scope : String) (actor : Option String) :
      KeyOutcome master w manager draw (.destroyScope scope actor)
        (.ok (.receipt ⟨scope, (w.store.destroyScope scope draw.now).1, draw.now, actor⟩))
        ((({ w with store := (w.store.destroyScope scope draw.now).2 } : KeyWorld F).updatingMulti
          manager scope fun r =>
            (w.store.destroyScope scope draw.now).1.foldl MultiKeyEncryptorRegistry.destroy r).on
          manager fun m => { m with cache := m.cache.erase (some scope) })

section

variable {master : Option (FernetFieldEncryptor F)} {w w' : KeyWorld F} {manager : ℕ}
  {draw : KeyDraw F} {α β : Type}

theorem eval_self (f : ManagerMemory F → KeyM F β) :
    (self manager >>= f).run.eval exec w =
      (f (w.memory manager)).run.eval exec w :=
  rfl

theorem eval_loadForTenant (tenantId : Option String) (f : List EncryptionKeyEntry → KeyM F β) :
    (EncryptionKeyManager.loadForTenant tenantId >>= f).run.eval exec w =
      (f (w.store.loadForTenant tenantId)).run.eval exec w :=
  rfl

theorem eval_loadForScope (scope : String) (f : List EncryptionKeyEntry → KeyM F β) :
    (EncryptionKeyManager.loadForScope scope >>= f).run.eval exec w =
      (f (w.store.loadForScope (some scope))).run.eval exec w :=
  rfl

theorem eval_save (entry : EncryptionKeyEntry) (f : Unit → KeyM F β) :
    (EncryptionKeyManager.save entry >>= f).run.eval exec w =
      (f ()).run.eval exec (w.saving entry) :=
  rfl

theorem eval_destroyScope (scope : String) (now : Instant) (f : List String → KeyM F β) :
    (Prog.call (KeyCmd.destroyScope scope now) >>= f : KeyM F β).run.eval exec w =
      (f (w.store.destroyScope scope now).1).run.eval exec
        { w with store := (w.store.destroyScope scope now).2 } :=
  rfl

theorem eval_lift_ok {p : Except EncryptionExc α} {a : α} (h : p = .ok a) (f : α → KeyM F β) :
    (do let a ← p; f a : KeyM F β).run.eval exec w = (f a).run.eval exec w := by
  subst h
  rfl

theorem eval_lift_error {p : Except EncryptionExc α} {e : EncryptionExc} (h : p = .error e)
    (f : α → KeyM F β) :
    (do let a ← p; f a : KeyM F β).run.eval exec w = (.error e, w) := by
  subst h
  rfl

theorem outcome_getOrCreateEncryptor (tenantId : Option String) :
    ∃ r w', (getOrCreateEncryptor master manager draw tenantId).run.eval exec w = (r, w') ∧
      KeyOutcome master w manager draw (.getOrCreateEncryptor tenantId) (.encryptor <$> r) w' := by
  unfold getOrCreateEncryptor
  simp only [eval_self]
  cases hcache : (w.memory manager).cache.get? tenantId with
  | some enc => exact ⟨.ok enc, w, rfl, .cached tenantId enc hcache⟩
  | none =>
    simp only [eval_loadForTenant]
    have hfirst : firstOfTenant w.store tenantId =
      (w.store.loadForTenant tenantId).find? (·.isPrimary) := rfl
    generalize List.find? _ _ = first at hfirst ⊢
    cases first with
    | some primary =>
      cases henc : materialize master primary with
      | ok enc =>
        exact ⟨.ok enc, _, eval_lift_ok henc _, .found tenantId primary enc hcache hfirst henc⟩
      | error e =>
        exact ⟨.error e, _, eval_lift_error henc _,
          .unreadable tenantId primary e hcache hfirst henc⟩
    | none => exact ⟨.ok draw.key, _, rfl, .created tenantId hcache hfirst⟩

theorem outcome_rotate (tenantId : Option String) :
    ∃ r w', (rotate master manager draw tenantId).run.eval exec w = (r, w') ∧
      KeyOutcome master w manager draw (.rotate tenantId) (.encryptor <$> r) w' := by
  unfold rotate
  simp only [eval_loadForTenant]
  have hfirst : firstOfTenant w.store tenantId =
    (w.store.loadForTenant tenantId).find? (·.isPrimary) := rfl
  generalize List.find? _ _ = first at hfirst ⊢
  cases first with
  | some primary => exact ⟨.ok draw.key, _, rfl, .rotated tenantId primary hfirst⟩
  | none => exact ⟨.error _, w, rfl, .unrotated tenantId _ hfirst⟩

theorem outcome_buildScopedRegistry (scope : String) :
    ∃ r w', (buildScopedRegistry master manager draw scope).run.eval exec w = (r, w') ∧
      KeyOutcome master w manager draw (.buildScopedRegistry scope) (.scoped manager <$> r) w' := by
  unfold buildScopedRegistry
  simp only [eval_loadForScope]
  have hhead : scopePrimary w.store scope = (newestFirst ((w.store.loadForScope (some scope)).filter
    fun e => e.isPrimary && !e.isDestroyed)).head? := rfl
  generalize newestFirst _ = primaries at hhead ⊢
  cases primaries with
  | nil => exact ⟨.ok _, _, rfl, .scopeCreated scope hhead⟩
  | cons primary _ =>
    cases henc : materialize master primary with
    | ok enc => exact ⟨.ok _, _, eval_lift_ok henc _, .scopeFound scope primary enc hhead henc⟩
    | error e => exact ⟨.error e, _, eval_lift_error henc _,
        .scopeUnreadable scope primary e hhead henc⟩

theorem outcome_rotateScope (scope : String) :
    ∃ r w', (rotateScope master manager draw scope).run.eval exec w = (r, w') ∧
      KeyOutcome master w manager draw (.rotateScope scope) (.encryptor <$> r) w' := by
  unfold rotateScope
  simp only [eval_loadForScope]
  have hfirst : firstOfScope w.store scope =
    (w.store.loadForScope (some scope)).find? fun e => e.isPrimary && !e.isDestroyed := rfl
  generalize List.find? _ _ = first at hfirst ⊢
  cases first with
  | some primary =>
    refine ⟨.ok draw.key, _, ?_, .scopeRotated scope primary hfirst⟩
    simp only [eval_save, eval_self, updatingMulti, saving_memory]
    cases (w.memory manager).scopedMulti.get? scope <;> rfl
  | none => exact ⟨.error _, w, rfl, .scopeUnrotated scope _ hfirst⟩

theorem outcome_destroyScope (scope : String) (actor : Option String) :
    ∃ r w', (destroyScope (F := F) manager draw scope actor).run.eval exec w = (r, w') ∧
      KeyOutcome master w manager draw (.destroyScope scope actor) (.receipt <$> r) w' := by
  refine ⟨.ok _, _, ?_, .destroyed scope actor⟩
  unfold EncryptionKeyManager.destroyScope updatingMulti
  refine (eval_destroyScope scope draw.now _).trans ?_
  simp only [eval_self]
  cases (w.memory manager).scopedMulti.get? scope <;> rfl

theorem outcome_of_map {f : α → KeyResult F} {p : KeyM F α} {op : KeyOp}
    {result : Except EncryptionExc (KeyResult F)}
    (hp : ∃ r w', p.run.eval exec w = (r, w') ∧
      KeyOutcome master w manager draw op (f <$> r) w')
    (h : (f <$> p).run.eval exec w = (result, w')) :
    KeyOutcome master w manager draw op result w' := by
  obtain ⟨r, w₁, heval, hout⟩ := hp
  rw [Prog.eval_mapExcept, heval] at h
  cases h
  exact hout

/-- **What a call does**, but for `build_tenant_registry`. -/
theorem outcome_of_calls {a : KeyEnd F} (h : Calls master w a w')
    (hop : a.call.op ≠ .buildTenantRegistry) :
    KeyOutcome master w a.call.manager a.call.draw a.call.op a.result w' := by
  obtain ⟨⟨manager, op, draw⟩, result⟩ := a
  cases op with
  | buildTenantRegistry => exact absurd rfl hop
  | getOrCreateEncryptor tenantId =>
    exact outcome_of_map (outcome_getOrCreateEncryptor tenantId) h
  | rotate tenantId => exact outcome_of_map (outcome_rotate tenantId) h
  | buildScopedRegistry scope => exact outcome_of_map (outcome_buildScopedRegistry scope) h
  | rotateScope scope => exact outcome_of_map (outcome_rotateScope scope) h
  | destroyScope scope actor => exact outcome_of_map (outcome_destroyScope scope actor) h

/-! ## The loop over the tenants -/

/-- What `build_tenant_registry` gets for a tenant, if anything. -/
def tenantKey (master : Option (FernetFieldEncryptor F)) (store : InMemoryEncryptionKeyStore)
    (tenantId : String) : Option (Except EncryptionExc (FernetFieldEncryptor F)) :=
  (tenantPrimary store tenantId).map (materialize master)

theorem eval_registerTenant (registry : TenantAwareEncryptorRegistry (FernetFieldEncryptor F))
    (tenantId : String) :
    (registerTenant master manager registry tenantId).run.eval exec w =
      (tenantKey master w.store tenantId).elim (.ok registry, w) fun r =>
        (r.map (registry.register tenantId),
          r.toOption.elim w fun enc => w.caching manager (some tenantId) enc) := by
  unfold registerTenant
  simp only [eval_loadForTenant]
  have hhead : tenantKey master w.store tenantId = (newestFirst
    ((w.store.loadForTenant (some tenantId)).filter (·.isPrimary))).head?.map
    (materialize master) :=
    rfl
  generalize newestFirst _ = primaries at hhead ⊢
  cases primaries with
  | nil =>
    rw [hhead]
    rfl
  | cons primary _ =>
    rw [hhead]
    cases henc : materialize master primary with
    | ok enc =>
      refine (eval_lift_ok henc _).trans ?_
      simp only [List.head?_cons, Option.map_some, henc]
      rfl
    | error e =>
      refine (eval_lift_error henc _).trans ?_
      simp only [List.head?_cons, Option.map_some, henc]
      rfl

/-- What the loop over some tenants does: it caches what it gets, and stops at the first tenant
whose key cannot be read. -/
structure RegistersTenants (master : Option (FernetFieldEncryptor F)) (w : KeyWorld F)
    (manager : ℕ) (tenantIds : List String)
    (registry : TenantAwareEncryptorRegistry (FernetFieldEncryptor F))
    (r : Except EncryptionExc (TenantAwareEncryptorRegistry (FernetFieldEncryptor F)))
    (cache : Dict (Option String) (FernetFieldEncryptor F)) : Prop where
  cache_spec : ∀ k enc, cache.get? k = some enc → (w.memory manager).cache.get? k = some enc ∨
    ∃ t, k = some t ∧ tenantKey master w.store t = some (.ok enc)
  default_eq : ∀ registry', r = .ok registry' → registry'.default = registry.default
  registered : ∀ registry', r = .ok registry' → ∀ t enc,
    tenantKey master w.store t = some (.ok enc) →
    t ∈ tenantIds ∨ registry.registry.get? t = some enc → registry'.registry.get? t = some enc
  registry_spec : ∀ registry', r = .ok registry' → ∀ t enc, registry'.registry.get? t = some enc →
    registry.registry.get? t = some enc ∨ tenantKey master w.store t = some (.ok enc)
  readable : ∀ registry', r = .ok registry' → ∀ t ∈ tenantIds, ∀ e,
    tenantKey master w.store t ≠ some (.error e)
  unreadable : ∀ e, r = .error e → ∃ t ∈ tenantIds, tenantKey master w.store t = some (.error e)

namespace RegistersTenants

variable {tenantIds : List String} {tenantId : String} {enc : FernetFieldEncryptor F}
  {registry : TenantAwareEncryptorRegistry (FernetFieldEncryptor F)}
  {r : Except EncryptionExc (TenantAwareEncryptorRegistry (FernetFieldEncryptor F))}
  {cache : Dict (Option String) (FernetFieldEncryptor F)}

theorem done : RegistersTenants master w manager [] registry (.ok registry)
    (w.memory manager).cache := by
  refine ⟨fun _ _ h => .inl h, ?_, ?_, ?_, ?_, ?_⟩
  · rintro _ ⟨⟩
    rfl
  · rintro _ ⟨⟩ t enc _ (h | h)
    · cases h
    · exact h
  · rintro _ ⟨⟩ _ _ h
    exact .inl h
  · rintro _ _ t ht
    cases ht
  · rintro _ ⟨⟩

theorem skip (hkey : tenantKey master w.store tenantId = none)
    (h : RegistersTenants master w manager tenantIds registry r cache) :
    RegistersTenants master w manager (tenantId :: tenantIds) registry r cache := by
  refine ⟨h.cache_spec, h.default_eq, ?_, h.registry_spec, ?_, ?_⟩
  · intro registry' hr t enc henc ht
    refine h.registered registry' hr t enc henc (ht.imp_left fun ht => ?_)
    rcases List.mem_cons.mp ht with rfl | ht
    · rw [hkey] at henc
      cases henc
    · exact ht
  · intro registry' hr t ht e he
    rcases List.mem_cons.mp ht with rfl | ht
    · rw [hkey] at he
      cases he
    · exact h.readable registry' hr t ht e he
  · intro e he
    obtain ⟨t, ht, hbad⟩ := h.unreadable e he
    exact ⟨t, List.mem_cons_of_mem _ ht, hbad⟩

theorem stop {e : EncryptionExc} (hkey : tenantKey master w.store tenantId = some (.error e)) :
    RegistersTenants master w manager (tenantId :: tenantIds) registry (.error e)
      (w.memory manager).cache := by
  refine ⟨fun _ _ h => .inl h, ?_, ?_, ?_, ?_, ?_⟩
  · rintro _ ⟨⟩
  · rintro _ ⟨⟩
  · rintro _ ⟨⟩
  · rintro _ ⟨⟩
  · rintro _ ⟨⟩
    exact ⟨tenantId, List.mem_cons_self, hkey⟩

theorem next (hkey : tenantKey master w.store tenantId = some (.ok enc))
    (h : RegistersTenants master (w.caching manager (some tenantId) enc) manager tenantIds
      (registry.register tenantId enc) r cache) :
    RegistersTenants master w manager (tenantId :: tenantIds) registry r cache := by
  refine ⟨?_, h.default_eq, ?_, ?_, ?_, ?_⟩
  · intro k enc' hget
    rcases h.cache_spec k enc' hget with hold | hnew
    · rw [caching, on_memory_self, Dict.get?_set] at hold
      split at hold
      · cases hold
        exact .inr ⟨tenantId, ‹_›, hkey⟩
      · exact .inl hold
    · exact .inr hnew
  · intro registry' hr t enc' henc' ht
    refine h.registered registry' hr t enc' henc' ?_
    by_cases heq : t = tenantId
    · subst heq
      cases hkey.symm.trans henc'
      exact .inr (Dict.get?_set_self ..)
    · refine ht.imp (fun ht => (List.mem_cons.mp ht).resolve_left heq) fun hold => ?_
      rwa [ContextRegistry.register, Dict.get?_set, if_neg heq]
  · intro registry' hr t enc' hget
    rcases h.registry_spec registry' hr t enc' hget with hold | hnew
    · rw [ContextRegistry.register, Dict.get?_set] at hold
      split at hold
      · cases hold
        subst ‹t = tenantId›
        exact .inr hkey
      · exact .inl hold
    · exact .inr hnew
  · intro registry' hr t ht e he
    rcases List.mem_cons.mp ht with rfl | ht
    · rw [hkey] at he
      cases he
    · exact h.readable registry' hr t ht e he
  · intro e he
    obtain ⟨t, ht, hbad⟩ := h.unreadable e he
    exact ⟨t, List.mem_cons_of_mem _ ht, hbad⟩

end RegistersTenants

theorem on_cache_self : w.on manager (fun m => { m with cache := (w.memory manager).cache }) = w :=
  congrArg (fun memory => ({ w with memory } : KeyWorld F)) (Function.update_eq_self ..)

theorem on_cache_caching (tenantId : Option String) (enc : FernetFieldEncryptor F)
    (cache : Dict (Option String) (FernetFieldEncryptor F)) :
    (w.caching manager tenantId enc).on manager (fun m => { m with cache }) =
      w.on manager fun m => { m with cache } := by
  unfold caching on
  simp

/-- **The loop.** -/
theorem eval_registerTenants (tenantIds : List String)
    (registry : TenantAwareEncryptorRegistry (FernetFieldEncryptor F)) (w : KeyWorld F) :
    ∃ r cache, RegistersTenants master w manager tenantIds registry r cache ∧
      (tenantIds.foldlM (registerTenant master manager) registry : KeyM F _).run.eval
        exec w = (r, w.on manager fun m => { m with cache }) := by
  induction tenantIds generalizing registry w with
  | nil =>
    refine ⟨.ok registry, (w.memory manager).cache, .done, ?_⟩
    rw [on_cache_self]
    rfl
  | cons tenantId tenantIds ih =>
    rw [List.foldlM_cons]
    have heval := @eval_registerTenant F master w manager registry tenantId
    cases hkey : tenantKey master w.store tenantId with
    | none =>
      rw [hkey] at heval
      obtain ⟨r, cache, hspec, hrest⟩ := ih registry w
      refine ⟨r, cache, hspec.skip hkey, ?_⟩
      rw [Prog.eval_bindExcept_ok heval, hrest]
    | some got =>
      rw [hkey] at heval
      cases got with
      | error e =>
        refine ⟨.error e, (w.memory manager).cache, .stop hkey, ?_⟩
        rw [on_cache_self]
        exact Prog.eval_bindExcept_error heval
      | ok enc =>
        obtain ⟨r, cache, hspec, hrest⟩ :=
          ih (registry.register tenantId enc) (w.caching manager (some tenantId) enc)
        rw [on_cache_caching] at hrest
        exact ⟨r, cache, hspec.next hkey, (Prog.eval_bindExcept_ok heval).trans hrest⟩

/-- **What `build_tenant_registry` does.** -/
theorem registers_of_calls {a : KeyEnd F} (h : Calls master w a w')
    (hop : a.call.op = .buildTenantRegistry) :
    ∃ r cache, RegistersTenants master w a.call.manager w.store.listTenants {} r cache ∧
      a.result = KeyResult.tenants <$> r ∧
      w' = w.on a.call.manager fun m => { m with cache } := by
  obtain ⟨⟨manager, op, draw⟩, result⟩ := a
  cases hop
  obtain ⟨r, cache, hspec, heval⟩ :=
    @eval_registerTenants F master manager w.store.listTenants {} w
  have hbuild : (buildTenantRegistry master manager).run.eval exec w =
      (r, w.on manager fun m => { m with cache }) := heval
  unfold Calls KeyCall.prog at h
  rw [Prog.eval_mapExcept, hbuild] at h
  cases h
  exact ⟨r, cache, hspec, rfl, rfl⟩

end

end Varco
