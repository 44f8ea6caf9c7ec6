import Varco.Encryption.Places

/-!
# Destroyed scopes

What decrypting and building do after `destroy_scope`. The kids that it reports are marked as
destroyed in one registry, the last one that its manager has built for the scope: that registry
raises `KeyDestroyedError`, and every other one takes the kids for unknown. The entries stay in the
store with their primary flag, and `build_tenant_registry` and `get_or_create_encryptor` do not skip
them: `build_tenant_registry` fails as a whole if the primary key of one tenant is destroyed.
-/

namespace Varco

open List EncryptionKeyManager InMemoryEncryptionKeyStore

variable {F : Fernet} {master : Option (FernetFieldEncryptor F)}

def Reports (d : KeyEnd F) (scope kid : String) : Prop :=
  ∃ actor receipt, d.call.op = .destroyScope scope actor ∧ d.result = .ok (.receipt receipt) ∧
    kid ∈ receipt.kids

/-- `KeyDestroyedError` is raised. -/
def RaisesDestroyed (r : Except EncryptionExc Bytes) : Prop :=
  ∃ message operation context kid scope,
    r = .error (.keyDestroyedError message operation context kid scope)

/-- The key was destroyed by a call of the manager when the place held its registry of the scope. -/
def MarkedAt (master : Option (FernetFieldEncryptor F)) (l : List (KeyEnd F)) (manager place : ℕ)
    (scope kid : String) : Prop :=
  ∃ l₁ d l₂ w₁, l = l₁ ++ d :: l₂ ∧ Run (Calls master) {} l₁ w₁ ∧ Reports d scope kid ∧
    d.call.manager = manager ∧ (w₁.memory manager).scopedMulti.get? scope = some place

section

variable {w w' : KeyWorld F} {l : List (KeyEnd F)} {a : KeyEnd F} {manager place : ℕ}
  {scope kid : String}

def Dead (store : InMemoryEncryptionKeyStore) (kid : String) : Prop :=
  ∃ e, store.load kid = some e ∧ e.isDestroyed = true

/-- What a destruction reports was not destroyed before it, and is after it. -/
theorem reports_spec (h : Calls master w a w') (hreports : Reports a scope kid) :
    kid ∈ (w.store.destroyScope scope a.call.draw.now).1 ∧ ¬Dead w.store kid ∧
      Dead w'.store kid := by
  obtain ⟨actor, receipt, hop, hres, hkid⟩ := hreports
  obtain ⟨⟨manager, op, draw⟩, result⟩ := a
  cases hop
  have hout : KeyOutcome master w manager draw (.destroyScope scope actor) result w' :=
    outcome_of_calls h nofun
  cases hout with
  | destroyed _ _ =>
    cases hres
    have hmem : kid ∈ (w.store.destroyScope scope draw.now).1 := hkid
    obtain ⟨e, he, hdoomed⟩ := mem_destroyScope_fst.mp hmem
    refine ⟨hmem, ?_, e.tombstone draw.now, ?_, rfl⟩
    · rintro ⟨e', he', hd⟩
      cases he.symm.trans he'
      rw [hdoomed.2] at hd
      cases hd
    · rw [KeyWorld.on_store, KeyWorld.updatingMulti_store]
      exact load_destroyScope.trans (by rw [he, Option.map_some, if_pos hdoomed])

theorem reports_of_mem {actor : Option String} (h : Calls master w a w')
    (hop : a.call.op = .destroyScope scope actor)
    (hkid : kid ∈ (w.store.destroyScope scope a.call.draw.now).1) : Reports a scope kid := by
  obtain ⟨⟨manager, op, draw⟩, result⟩ := a
  cases hop
  have hout : KeyOutcome master w manager draw (.destroyScope scope actor) result w' :=
    outcome_of_calls h nofun
  cases hout with
  | destroyed _ _ => exact ⟨actor, _, rfl, rfl, hkid⟩

theorem dead_of_calls {kids : List String} (horderly : Orderly master kids w.store)
    (horderly' : Orderly master (kids ++ [a.call.draw.kid]) w'.store)
    (hfresh : a.call.draw.kid ∉ kids) (h : Calls master w a w') (hdead : Dead w.store kid) :
    Dead w'.store kid := by
  obtain ⟨e, hload, hd⟩ := hdead
  obtain ⟨e', he', hbecomes⟩ := becomes_of_storeStep horderly hfresh (storeStep_of_calls h)
    (mem_values_of_load hload)
  have hkid : e'.kid = kid := hbecomes.fields_eq.1.trans (horderly.keyed kid e hload)
  refine ⟨e', hkid ▸ horderly'.load_of_mem he', ?_⟩
  cases hbecomes with
  | same => exact hd
  | demoted => exact hd
  | tombstone now => rfl

end

/-! ## Registries -/

section

variable {w : KeyWorld F} {l : List (KeyEnd F)} {manager place : ℕ} {scope kid : String}

theorem dead_of_run (hF : F.Lawful) {l₁ l₂ : List (KeyEnd F)} {w₁ : KeyWorld F}
    (hkids : (drawnKids (l₁ ++ l₂)).Nodup) (h₁ : Run (Calls master) {} l₁ w₁)
    (h : Run (Calls master) w₁ l₂ w) (hdead : Dead w₁.store kid) : Dead w.store kid := by
  induction l₂ using List.reverseRecOn generalizing w with
  | nil =>
    rw [h.nil_inv]
    exact hdead
  | append_singleton l₂ a ih =>
    obtain ⟨t, ht, hst⟩ := h.snoc_inv
    rw [← append_assoc] at hkids
    have hrun := h₁.append ht
    have hprev : (drawnKids (l₁ ++ l₂)).Nodup :=
      hkids.sublist ((sublist_append_left _ [a]).map _)
    have horderly' := orderly_of_run hF (hrun.append (.single hst))
    rw [drawnKids_snoc] at horderly'
    exact dead_of_calls (orderly_of_run hF hrun) horderly' (fresh_of_nodup hkids) hst (ih hprev ht)

/-- **A key is reported once.** -/
theorem reports_once (hF : F.Lawful) (hkids : (drawnKids l).Nodup) (h : Run (Calls master) {} l w)
    {l₁ l₂ l₁' l₂' : List (KeyEnd F)} {d d' : KeyEnd F} {scope' : String} (hl : l = l₁ ++ d :: l₂)
    (hl' : l = l₁' ++ d' :: l₂') (hd : Reports d scope kid) (hd' : Reports d' scope' kid) :
    l₁ = l₁' := by
  -- the earlier of two reports leaves the key destroyed until the later one
  have hlater : ∀ {l₁ l₁' : List (KeyEnd F)} {l₂ l₂' d d' scope scope'}, l = l₁ ++ d :: l₂ →
      l = l₁' ++ d' :: l₂' → Reports d scope kid → Reports d' scope' kid →
      ¬l₁.length < l₁'.length := by
    intro l₁ l₁' l₂ l₂' d d' scope scope' hl hl' hd hd' hlt
    have hprefix : l₁ ++ [d] <+: l₁' := by
      have h₁ : l₁ ++ [d] <+: l := ⟨l₂, by simp [hl]⟩
      have h₂ : l₁' <+: l := ⟨d' :: l₂', hl'.symm⟩
      refine prefix_of_prefix_length_le h₁ h₂ ?_
      rw [length_append]
      exact hlt
    obtain ⟨l₃, rfl⟩ := hprefix
    subst hl'
    obtain ⟨w₁, w₂, h₁, hst', -⟩ := h.at_label
    rw [append_assoc, singleton_append] at h₁
    obtain ⟨t, t', ht, hst, h₃⟩ := h₁.at_label
    refine (reports_spec hst' hd').2.1 ?_
    have hprev : (drawnKids ((l₁ ++ [d]) ++ l₃)).Nodup :=
      hkids.sublist ((sublist_append_left _ _).map _)
    exact dead_of_run hF hprev (ht.append (.single hst)) h₃ (reports_spec hst hd).2.2
  have hlength : l₁.length = l₁'.length :=
    Nat.le_antisymm (Nat.not_lt.mp (hlater hl' hl hd' hd)) (Nat.not_lt.mp (hlater hl hl' hd hd'))
  exact (append_inj (hl.symm.trans hl') hlength).1

theorem mem_destroyed_foldl {E : Type} {kids : List String} {r : MultiKeyEncryptorRegistry E} :
    kid ∈ (kids.foldl MultiKeyEncryptorRegistry.destroy r).destroyed ↔
      kid ∈ kids ∨ kid ∈ r.destroyed := by
  induction kids generalizing r with
  | nil => simp
  | cons k kids ih => simp [ih, MultiKeyEncryptorRegistry.destroy, or_assoc, or_left_comm]

/-- A key is marked after one more call if it was, or if the call has marked it. -/
theorem markedAt_snoc {a : KeyEnd F} (h : Run (Calls master) {} l w) :
    MarkedAt master (l ++ [a]) manager place scope kid ↔
      MarkedAt master l manager place scope kid ∨ (Reports a scope kid ∧ a.call.manager = manager ∧
        (w.memory manager).scopedMulti.get? scope = some place) := by
  constructor
  · rintro ⟨l₁, d, l₂, w₁, hl, h₁, hreports, hmanager, hget⟩
    rcases eq_nil_or_concat l₂ with rfl | ⟨l₃, b, rfl⟩
    · obtain ⟨rfl, hab⟩ := append_inj' hl rfl
      cases hab
      rw [run_det h h₁]
      exact .inr ⟨hreports, hmanager, hget⟩
    · rw [concat_eq_append, ← cons_append, ← append_assoc] at hl
      obtain ⟨rfl, -⟩ := append_inj' hl rfl
      exact .inl ⟨l₁, d, l₃, w₁, rfl, h₁, hreports, hmanager, hget⟩
  · rintro (⟨l₁, d, l₂, w₁, rfl, hrest⟩ | ⟨hreports, hmanager, hget⟩)
    · exact ⟨l₁, d, l₂ ++ [a], w₁, by simp, hrest⟩
    · exact ⟨l, a, [], w, rfl, h, hreports, hmanager, hget⟩

/-- **What a registry has marked**: the keys destroyed by its manager while it was the registry of
the scope. -/
theorem mem_destroyed_iff (hF : F.Lawful) (h : Run (Calls master) {} l w)
    (hb : BuiltFor l manager place scope) :
    kid ∈ (w.multi manager place).destroyed ↔ MarkedAt master l manager place scope kid := by
  refine h.history (I := fun l w => BuiltFor l manager place scope →
    (kid ∈ (w.multi manager place).destroyed ↔ MarkedAt master l manager place scope kid))
    ?_ ?_ hb
  · rintro ⟨a, ha, -⟩
    cases ha
  · intro l w a w' _ hrun hst ih hb
    have hplaced := placed_of_run hF hrun
    rw [markedAt_snoc hrun]
    by_cases hold : BuiltFor l manager place scope
    · have hat := multiAt_of_calls hF hplaced hst hold
      generalize w'.multi manager place = multi at hat ⊢
      cases hat with
      | same hother =>
        rw [ih hold]
        refine ⟨.inl, fun hmarked => hmarked.resolve_right ?_⟩
        rintro ⟨⟨actor, receipt, hop, -⟩, hmanager, hget⟩
        exact hother actor hmanager.symm hop hget
      | rotated hmanager hop hfirst hget =>
        refine (ih hold).trans ⟨.inl, fun hmarked => hmarked.resolve_right ?_⟩
        rintro ⟨⟨actor, receipt, hop', -⟩, -⟩
        rw [hop] at hop'
        cases hop'
      | destroyed actor hmanager hop hget =>
        rw [mem_destroyed_foldl, ih hold, or_comm]
        refine or_congr_right ⟨fun hkid => ?_, fun hmarked => (reports_spec hst hmarked.1).1⟩
        exact ⟨reports_of_mem hst hop hkid, hmanager.symm, hget⟩
    · -- a registry that was built just now
      have hunmarked : ¬(MarkedAt master l manager place scope kid ∨ (Reports a scope kid ∧
          a.call.manager = manager ∧ (w.memory manager).scopedMulti.get? scope = some place)) := by
        rintro (⟨l₁, d, l₂, w₁, rfl, h₁, -, -, hget⟩ | ⟨-, -, hget⟩)
        · exact hold (builtFor_append_left ((placed_of_run hF h₁).current _ _ _ hget) _)
        · exact hold (hplaced.current _ _ _ hget)
      refine ⟨fun hkid => ?_, fun hmarked => absurd hmarked hunmarked⟩
      cases multiStep_of_calls hF hst with
      | builds scope' primary enc hmulti hmultis hop hres hprimary henc =>
        obtain ⟨rfl, rfl, rfl⟩ := (builtFor_snoc hop hres hb).resolve_left hold
        rw [multi_of_builds hmultis] at hkid
        cases hkid
      | same hmulti hmultis hres hop => exact absurd (builtFor_snoc_of_ne hres hb) hold
      | rotates scope' place' hmulti hget hmultis hop hfirst hres =>
        refine absurd (builtFor_snoc_of_ne (fun _ _ heq => ?_) hb) hold
        rw [hres] at heq
        cases heq
      | destroys scope' actor place' hmulti hget hmultis hop hres =>
        refine absurd (builtFor_snoc_of_ne (fun _ _ heq => ?_) hb) hold
        obtain ⟨receipt, hres⟩ := hres
        rw [hres] at heq
        cases heq

/-- A registry raises `KeyDestroyedError` on what is framed with the keys that it has marked. -/
theorem raisesDestroyed_iff (hkid : (encodeKid kid).length < 2 ^ 32) {raw : Bytes} :
    RaisesDestroyed (w.decryptScoped manager
        (({} : ScopedEncryptorRegistry ℕ).register scope place) (packCiphertext kid raw)
        (some scope)) ↔
      kid ∈ (w.multi manager place).destroyed := by
  have heq : w.decryptScoped manager (({} : ScopedEncryptorRegistry ℕ).register scope place)
      (packCiphertext kid raw) (some scope) =
        (w.multi manager place).decrypt (packCiphertext kid raw) (some scope) := by
    unfold KeyWorld.decryptScoped
    rw [resolve_scope]
    rfl
  rw [heq]
  constructor
  · rintro ⟨message, operation, context, kid', scope', hraises⟩
    by_contra hmarked
    cases hget : (w.multi manager place).encryptors.get? kid with
    | none =>
      obtain ⟨message', hunknown⟩ :=
        MultiKeyEncryptorRegistry.decrypt_of_unregistered hkid hmarked hget
      rw [hunknown] at hraises
      cases hraises
    | some enc =>
      rw [MultiKeyEncryptorRegistry.decrypt_of_registered hkid hmarked hget] at hraises
      change enc.decrypt raw (some scope) = _ at hraises
      unfold FernetFieldEncryptor.decrypt at hraises
      split at hraises <;> cases hraises
  · intro hmarked
    obtain ⟨message, hraises⟩ := MultiKeyEncryptorRegistry.decrypt_of_destroyed hkid hmarked
    exact ⟨message, _, _, _, _, hraises⟩

end

/-! ## Tenants -/

section

variable {w w' : KeyWorld F} {kids : List String} {manager : ℕ} {draw : KeyDraw F}
  {r : Except EncryptionExc (KeyResult F)}

/-- **`build_tenant_registry`** succeeds if and only if no primary key of a tenant is destroyed. -/
theorem buildTenantRegistry_ok_iff (hF : F.Lawful) (h : Orderly master kids w.store)
    (hcalls : Calls master w ⟨⟨manager, .buildTenantRegistry, draw⟩, r⟩ w') :
    (∃ registry, r = .ok (.tenants registry)) ↔
      ∀ e ∈ w.store.values, e.tenantId ≠ none → e.isPrimary = true → e.isDestroyed = false := by
  obtain ⟨r', cache, hspec, rfl, -⟩ := registers_of_calls hcalls rfl
  cases r' with
  | ok registry =>
    refine ⟨fun _ e he ht hp => ?_, fun _ => ⟨registry, rfl⟩⟩
    obtain ⟨t, ht⟩ := Option.ne_none_iff_exists'.mp ht
    have hkey : tenantKey master w.store t = some (materialize master e) := by
      rw [tenantKey, h.tenantPrimary_eq he ht hp, Option.map_some]
    refine (h.materialize_iff hF he).mp ?_
    cases hmat : materialize master e with
    | ok enc => exact ⟨enc, rfl⟩
    | error exc =>
      rw [hmat] at hkey
      exact absurd hkey (hspec.readable registry rfl t (mem_listTenants.mpr ⟨e, he, ht⟩) exc)
  | error exc =>
    refine ⟨fun ⟨registry, hr⟩ => ?_, fun hall => ?_⟩
    · cases hr
    · obtain ⟨t, -, hkey⟩ := hspec.unreadable exc rfl
      obtain ⟨e, he, hmat⟩ := Option.map_eq_some_iff.mp hkey
      obtain ⟨hvalues, ht, hp⟩ := tenantPrimary_spec he
      have halive := hall e hvalues (by rw [ht]; nofun) hp
      obtain ⟨enc, henc⟩ := (h.materialize_iff hF hvalues).mpr halive
      rw [henc] at hmat
      cases hmat

/-- **`get_or_create_encryptor`** succeeds if and only if the encryptor is cached, or the key that
it finds is not destroyed. -/
theorem getOrCreateEncryptor_ok_iff (hF : F.Lawful) (h : Orderly master kids w.store)
    {tenantId : Option String}
    (hcalls : Calls master w ⟨⟨manager, .getOrCreateEncryptor tenantId, draw⟩, r⟩ w') :
    (∃ enc, r = .ok (.encryptor enc)) ↔ (w.memory manager).cache.get? tenantId ≠ none ∨
      ∀ e, firstOfTenant w.store tenantId = some e → e.isDestroyed = false := by
  have hout : KeyOutcome master w manager draw (.getOrCreateEncryptor tenantId) r w' :=
    outcome_of_calls hcalls nofun
  cases hout with
  | cached _ enc hget => exact ⟨fun _ => .inl (by rw [hget]; nofun), fun _ => ⟨enc, rfl⟩⟩
  | found _ primary enc hcache hfirst henc =>
    refine ⟨fun _ => .inr fun e he => ?_, fun _ => ⟨enc, rfl⟩⟩
    cases hfirst.symm.trans he
    exact (h.materialize_iff hF (firstOfTenant_spec hfirst).1).mp ⟨enc, henc⟩
  | unreadable _ primary exc hcache hfirst henc =>
    constructor
    · rintro ⟨enc, ⟨⟩⟩
    intro hcase
    have halive := hcase.resolve_left (not_not.mpr hcache) primary hfirst
    obtain ⟨enc, henc'⟩ := (h.materialize_iff hF (firstOfTenant_spec hfirst).1).mpr halive
    rw [henc] at henc'
    cases henc'
  | created _ hcache hnone =>
    refine ⟨fun _ => .inr fun e he => ?_, fun _ => ⟨draw.key, rfl⟩⟩
    rw [hnone] at he
    cases he

end

/-- **After a destruction.** In every run: a registry of a scope raises `KeyDestroyedError` on what
is framed with a key that was destroyed with the scope if and only if it was the registry of the
scope that the destroying manager had; `build_tenant_registry` succeeds if and only if no primary
key of a tenant is destroyed; and `get_or_create_encryptor` if and only if the encryptor is cached
or the key that it finds is not destroyed. -/
theorem destroyed_scope_iff (hF : F.Lawful) {l : List (KeyEnd F)} {w : KeyWorld F}
    (hkids : (drawnKids l).Nodup)
    (hshort : ∀ kid ∈ drawnKids l, (encodeKid kid).length < 2 ^ 32)
    (h : Run (Calls master) {} l w) :
    (∀ l₁ d l₂ w₁ scope kid, l = l₁ ++ d :: l₂ → Run (Calls master) {} l₁ w₁ →
      Reports d scope kid → ∀ manager place, BuiltFor l manager place scope → ∀ raw,
        (RaisesDestroyed (w.decryptScoped manager
            (({} : ScopedEncryptorRegistry ℕ).register scope place) (packCiphertext kid raw)
            (some scope)) ↔
          manager = d.call.manager ∧ (w₁.memory manager).scopedMulti.get? scope = some place)) ∧
    (∀ manager draw r w', Calls master w ⟨⟨manager, .buildTenantRegistry, draw⟩, r⟩ w' →
      ((∃ registry, r = .ok (.tenants registry)) ↔
        ∀ e ∈ w.store.values, e.tenantId ≠ none → e.isPrimary = true → e.isDestroyed = false)) ∧
    (∀ manager draw tenantId r w',
      Calls master w ⟨⟨manager, .getOrCreateEncryptor tenantId, draw⟩, r⟩ w' →
      ((∃ enc, r = .ok (.encryptor enc)) ↔ (w.memory manager).cache.get? tenantId ≠ none ∨
        ∀ e, firstOfTenant w.store tenantId = some e → e.isDestroyed = false)) := by
  have horderly := orderly_of_run hF h
  refine ⟨?_, fun manager draw r w' => buildTenantRegistry_ok_iff hF horderly,
    fun manager draw tenantId r w' => getOrCreateEncryptor_ok_iff hF horderly⟩
  intro l₁ d l₂ w₁ scope kid hl h₁ hreports manager place hb raw
  have hdrawn : kid ∈ drawnKids l := by
    subst hl
    obtain ⟨t, t', ht, hst, -⟩ := h.at_label
    obtain ⟨e, he, -⟩ := mem_destroyScope_fst.mp (reports_spec hst hreports).1
    exact map_subset _ (subset_append_left ..) ((orderly_of_run hF ht).drawn kid e he)
  rw [raisesDestroyed_iff (hshort kid hdrawn), mem_destroyed_iff hF h hb]
  constructor
  · rintro ⟨l₁', d', l₂', w₁', hl', h₁', hreports', hmanager, hget⟩
    obtain rfl := reports_once hF hkids h hl hl' hreports hreports'
    obtain rfl : d = d' := by
      have htail := append_cancel_left (hl.symm.trans hl')
      exact (List.cons.inj htail).1
    rw [run_det h₁ h₁']
    exact ⟨hmanager.symm, hget⟩
  · rintro ⟨rfl, hget⟩
    exact ⟨l₁, d, l₂, w₁, hl, h₁, hreports, rfl, hget⟩

/-! ## A run -/

def erasureDraw (kid : String) (b : UInt8) (now : Instant) : KeyDraw Fernet.plain :=
  ⟨kid, ⟨List.replicate 32 b, FernetFieldEncryptor.length_replicate_key b⟩, [], now⟩

/-- A scope gets its key and is destroyed, and another manager builds a registry of it. -/
def aliceErasure : List (KeyEnd Fernet.plain) :=
  [⟨⟨0, .buildScopedRegistry "alice", erasureDraw "a" 1 0⟩,
      .ok (.scoped 0 (({} : ScopedEncryptorRegistry ℕ).register "alice" 0))⟩,
    ⟨⟨0, .destroyScope "alice" none, erasureDraw "b" 2 1⟩,
      .ok (.receipt ⟨"alice", ["a"], 1, none⟩)⟩,
    ⟨⟨1, .buildScopedRegistry "alice", erasureDraw "c" 3 2⟩,
      .ok (.scoped 1 (({} : ScopedEncryptorRegistry ℕ).register "alice" 0))⟩]

def acmeErasure : List (KeyEnd Fernet.plain) :=
  [⟨⟨0, .getOrCreateEncryptor (some "acme"), erasureDraw "d" 4 3⟩,
      .ok (.encryptor (erasureDraw "d" 4 3).key)⟩,
    ⟨⟨0, .getOrCreateEncryptor (some "beta"), erasureDraw "e" 5 4⟩,
      .ok (.encryptor (erasureDraw "e" 5 4).key)⟩,
    ⟨⟨0, .destroyScope "acme" none, erasureDraw "f" 6 5⟩,
      .ok (.receipt ⟨"acme", ["d"], 5, none⟩)⟩]

/-- The registry that the destroying manager had raises `KeyDestroyedError`. -/
theorem destroyed_scope_iff_alice : ∃ w, Run (Calls none) {} aliceErasure w ∧
    ∀ raw, RaisesDestroyed (w.decryptScoped 0
      (({} : ScopedEncryptorRegistry ℕ).register "alice" 0) (packCiphertext "a" raw)
      (some "alice")) := by
  have hrun : ∃ w₁ w, Run (Calls none) {} (aliceErasure.take 1) w₁ ∧
      (w₁.memory 0).scopedMulti.get? "alice" = some 0 ∧ Run (Calls none) {} aliceErasure w :=
    ⟨_, _, .cons rfl (.nil _), rfl, .cons rfl (.cons rfl (.cons rfl (.nil _)))⟩
  obtain ⟨w₁, w, h₁, hget, h⟩ := hrun
  have hkids : (drawnKids aliceErasure).Nodup := by decide
  have hshort : ∀ kid ∈ drawnKids aliceErasure, (encodeKid kid).length < 2 ^ 32 := by decide
  have hreports : Reports aliceErasure[1] "alice" "a" :=
    ⟨none, _, rfl, rfl, mem_singleton_self _⟩
  have hb : BuiltFor aliceErasure 0 0 "alice" :=
    ⟨aliceErasure[0], by simp [aliceErasure], rfl, rfl, rfl⟩
  refine ⟨w, h, fun raw => ?_⟩
  exact ((destroyed_scope_iff Fernet.plain_lawful hkids hshort h).1 _ _ [aliceErasure[2]] w₁ _ _ rfl
    h₁ hreports 0 0 hb raw).mpr ⟨rfl, hget⟩

/-- A registry that was built after the destruction takes the key for unknown, and one destroyed
tenant makes `build_tenant_registry` fail. -/
theorem destroyed_scope_fails :
    (∃ w₁ w ciphertext, Run (Calls none) {} (aliceErasure.take 1) w₁ ∧
      w₁.encryptScoped 0 (({} : ScopedEncryptorRegistry ℕ).register "alice" 0) [7] (some "alice")
        [] = .ok ciphertext ∧
      Run (Calls none) {} aliceErasure w ∧ BuiltFor aliceErasure 1 0 "alice" ∧
      ¬RaisesDestroyed (w.decryptScoped 1 (({} : ScopedEncryptorRegistry ℕ).register "alice" 0)
        ciphertext (some "alice"))) ∧
    ∃ w w' e, Run (Calls none) {} acmeErasure w ∧
      Calls none w ⟨⟨1, .buildTenantRegistry, erasureDraw "g" 7 6⟩, .error e⟩ w' := by
  constructor
  · refine ⟨_, _, _, .cons rfl (.nil _), rfl, .cons rfl (.cons rfl (.cons rfl (.nil _))), ?_, ?_⟩
    · exact ⟨aliceErasure[2], by simp [aliceErasure], rfl, rfl, rfl⟩
    · rintro ⟨message, operation, context, kid, scope, hraises⟩
      cases hraises
  · exact ⟨_, _, _, .cons rfl (.cons rfl (.cons rfl (.nil _))), rfl⟩

end Varco
