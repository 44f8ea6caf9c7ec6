import Varco.Encryption.Sequential

/-!
# The life of a key

What every run of calls keeps, one call after the other. To the store a call does one of four things
(`StoreStep`): nothing, it adds a primary key, it replaces one by another, or it destroys the keys
of a scope. So no tenant ever has two primary keys, and a key that is not destroyed can be read
(`Orderly`).
-/

namespace Varco

open EncryptionKeyManager InMemoryEncryptionKeyStore

variable {F : Fernet} {master : Option (FernetFieldEncryptor F)} {draw : KeyDraw F}

/-! ## Generated keys -/

section

variable {tenantId scope : Option String}

/-- **A generated key can be read.** -/
theorem materialize_generate (hF : F.Lawful) :
    materialize master (generate master draw tenantId true scope).2 = .ok draw.key := by
  have hnew : FernetFieldEncryptor.new (F := F) draw.key.key = .ok draw.key :=
    dif_pos draw.key.length_key
  cases master with
  | none => exact hnew
  | some kek =>
    have hdecrypt : kek.decrypt (kek.encrypt draw.key.key draw.random) none = .ok draw.key.key := by
      unfold FernetFieldEncryptor.decrypt FernetFieldEncryptor.encrypt
      rw [hF.decrypt_encrypt]
    change (kek.decrypt (kek.encrypt draw.key.key draw.random) none).bind _ = _
    rw [hdecrypt]
    exact hnew

end

/-- The form of the entries: of the one algorithm, and wrapped if there is a master key. -/
def Formed (master : Option (FernetFieldEncryptor F)) (e : EncryptionKeyEntry) : Prop :=
  e.algorithm = "fernet" ∧ e.wrapped = master.isSome

/-- **A blank key cannot be read.** -/
theorem materialize_blank (hF : F.Lawful) {e : EncryptionKeyEntry} (hformed : Formed master e)
    (hblank : e.keyMaterial = []) : ∃ exc, materialize master e = .error exc := by
  obtain ⟨halgorithm, hwrapped⟩ := hformed
  unfold materialize
  rw [if_neg (not_not.mpr halgorithm), hwrapped, hblank]
  cases master with
  | none => exact ⟨_, rfl⟩
  | some kek =>
    have hdecrypt : ∃ exc, kek.decrypt [] none = .error exc := by
      unfold FernetFieldEncryptor.decrypt
      rw [hF.decrypt_nil]
      exact ⟨_, rfl⟩
    obtain ⟨exc, hdecrypt⟩ := hdecrypt
    refine ⟨exc, ?_⟩
    change (kek.decrypt [] none).bind _ = _
    rw [hdecrypt]
    rfl

/-! ## What a call does to the store -/

/-- The entry that a call is going to make. -/
inductive MakesKey (master : Option (FernetFieldEncryptor F)) (w : KeyWorld F) (c : KeyCall F) :
    EncryptionKeyEntry → Prop
  | created (tenantId : Option String) (hop : c.op = .getOrCreateEncryptor tenantId)
      (hcache : (w.memory c.manager).cache.get? tenantId = none)
      (h : firstOfTenant w.store tenantId = none) :
      MakesKey master w c (generate master c.draw tenantId true).2
  | rotated (tenantId : Option String) (primary : EncryptionKeyEntry)
      (hop : c.op = .rotate tenantId) (h : firstOfTenant w.store tenantId = some primary) :
      MakesKey master w c (generate master c.draw tenantId true).2
  | scopeCreated (scope : String) (hop : c.op = .buildScopedRegistry scope)
      (h : scopePrimary w.store scope = none) :
      MakesKey master w c (generate master c.draw none true (some scope)).2
  | scopeRotated (scope : String) (primary : EncryptionKeyEntry) (hop : c.op = .rotateScope scope)
      (h : firstOfScope w.store scope = some primary) :
      MakesKey master w c (generate master c.draw primary.tenantId true (some scope)).2

/-- The entry that a call is going to demote. -/
inductive DemotesKey (w : KeyWorld F) (c : KeyCall F) : EncryptionKeyEntry → Prop
  | rotated (tenantId : Option String) (primary : EncryptionKeyEntry)
      (hop : c.op = .rotate tenantId) (h : firstOfTenant w.store tenantId = some primary) :
      DemotesKey w c primary
  | scopeRotated (scope : String) (primary : EncryptionKeyEntry) (hop : c.op = .rotateScope scope)
      (h : firstOfScope w.store scope = some primary) :
      DemotesKey w c primary

/-- What a call can do to the store. -/
inductive StoreStep (master : Option (FernetFieldEncryptor F)) (w : KeyWorld F) (c : KeyCall F) :
    InMemoryEncryptionKeyStore → Prop
  | same : StoreStep master w c w.store
  | adds (n : EncryptionKeyEntry) (hmakes : MakesKey master w c n)
      (hfree : n.tenantId ≠ none → firstOfTenant w.store n.tenantId = none) :
      StoreStep master w c (w.store.save n)
  | replaces (e n : EncryptionKeyEntry) (hdemotes : DemotesKey w c e)
      (hmakes : MakesKey master w c n)
      (htenant : n.tenantId = e.tenantId) : StoreStep master w c ((w.store.save e.demoted).save n)
  | destroys (scope : String) (actor : Option String) (hop : c.op = .destroyScope scope actor) :
      StoreStep master w c (w.store.destroyScope scope c.draw.now).2

section

variable {w w' : KeyWorld F} {c : KeyCall F} {a : KeyEnd F} {e n : EncryptionKeyEntry}

theorem MakesKey.generated (h : MakesKey master w c n) :
    ∃ tenantId scope, n = (generate master c.draw tenantId true scope).2 := by
  cases h <;> exact ⟨_, _, rfl⟩

theorem MakesKey.kid_eq (h : MakesKey master w c n) : n.kid = c.draw.kid := by
  obtain ⟨_, _, rfl⟩ := h.generated
  rfl

theorem DemotesKey.spec (h : DemotesKey w c e) : e ∈ w.store.values ∧ e.isPrimary = true := by
  cases h with
  | rotated tenantId _ hop hfirst =>
    obtain ⟨he, -, hprimary⟩ := firstOfTenant_spec hfirst
    exact ⟨he, hprimary⟩
  | scopeRotated scope _ hop hfirst =>
    obtain ⟨he, -, hprimary, -⟩ := firstOfScope_spec hfirst
    exact ⟨he, hprimary⟩

/-- **What a call does to the store.** -/
theorem storeStep_of_calls (h : Calls master w a w') : StoreStep master w a.call w'.store := by
  by_cases hop : a.call.op = .buildTenantRegistry
  · obtain ⟨r, cache, -, -, rfl⟩ := registers_of_calls h hop
    exact .same
  obtain ⟨⟨manager, op, draw⟩, result⟩ := a
  have hout : KeyOutcome master w manager draw op result w' := outcome_of_calls h hop
  cases hout with
  | cached | found | unreadable | unrotated | scopeFound | scopeUnreadable | scopeUnrotated =>
    exact .same
  | created tenantId hcache hnone =>
    exact .adds _ (.created tenantId rfl hcache hnone) fun _ => hnone
  | rotated tenantId primary hfirst =>
    exact .replaces primary _ (.rotated tenantId primary rfl hfirst)
      (.rotated tenantId primary rfl hfirst) (firstOfTenant_spec hfirst).2.1.symm
  | scopeCreated scope hnone =>
    exact .adds _ (.scopeCreated scope rfl hnone) fun hne => absurd rfl hne
  | scopeRotated scope primary hfirst =>
    rw [KeyWorld.updatingMulti_store]
    exact .replaces primary _ (.scopeRotated scope primary rfl hfirst)
      (.scopeRotated scope primary rfl hfirst) rfl
  | destroyed scope actor =>
    rw [KeyWorld.on_store, KeyWorld.updatingMulti_store]
    exact .destroys scope actor rfl

end

/-! ## What every run keeps -/

/-- What becomes of a stored entry. -/
inductive Becomes (e : EncryptionKeyEntry) : EncryptionKeyEntry → Prop
  | same : Becomes e e
  | demoted : Becomes e e.demoted
  | tombstone (now : Instant) : Becomes e (e.tombstone now)

/-- A store in which the keys `kids` were drawn. -/
structure Orderly (master : Option (FernetFieldEncryptor F)) (kids : List String)
    (store : InMemoryEncryptionKeyStore) : Prop where
  keyed : ∀ kid e, store.load kid = some e → e.kid = kid
  drawn : ∀ kid e, store.load kid = some e → kid ∈ kids
  formed : ∀ e ∈ store.values, Formed master e
  readable : ∀ e ∈ store.values, e.isDestroyed = false → ∃ enc, materialize master e = .ok enc
  blank : ∀ e ∈ store.values, e.isDestroyed = true → e.keyMaterial = []
  onePrimary : ∀ t, ∀ e ∈ store.values, ∀ e' ∈ store.values, e.tenantId = some t →
    e'.tenantId = some t → e.isPrimary = true → e'.isPrimary = true → e = e'

section

variable {store store' : InMemoryEncryptionKeyStore} {kids : List String}
  {e e' x : EncryptionKeyEntry} {w : KeyWorld F} {c : KeyCall F}

theorem mem_values_save (h : e ∈ (store.save x).values) :
    e = x ∨ ∃ kid, kid ≠ x.kid ∧ store.load kid = some e := by
  obtain ⟨kid, hkid⟩ := Dict.mem_values.mp h
  have hload : (store.save x).load kid = some e := hkid
  rw [load_save] at hload
  split at hload
  · cases hload
    exact .inl rfl
  · exact .inr ⟨kid, ‹_›, hload⟩

theorem self_mem_save : x ∈ (store.save x).values :=
  Dict.mem_values.mpr ⟨x.kid, load_save.trans (if_pos rfl)⟩

theorem mem_save_of_ne {kid : String} (hload : store.load kid = some e) (hne : kid ≠ x.kid) :
    e ∈ (store.save x).values :=
  Dict.mem_values.mpr ⟨kid, load_save.trans (by rw [if_neg hne, hload])⟩

theorem mem_values_destroyScope {scope : String} {now : Instant}
    (h : e' ∈ (store.destroyScope scope now).2.values) :
    ∃ kid e, store.load kid = some e ∧
      e' = if e.scope = some scope ∧ e.isDestroyed = false then e.tombstone now else e := by
  obtain ⟨kid, hkid⟩ := Dict.mem_values.mp h
  have hload : (store.destroyScope scope now).2.load kid = some e' := hkid
  rw [load_destroyScope] at hload
  obtain ⟨e, he, heq⟩ := Option.map_eq_some_iff.mp hload
  exact ⟨kid, e, he, heq.symm⟩

theorem mem_values_of_load {kid : String} (h : store.load kid = some e) : e ∈ store.values :=
  Dict.mem_values.mpr ⟨kid, h⟩

theorem Orderly.load_of_mem (h : Orderly master kids store) (he : e ∈ store.values) :
    store.load e.kid = some e := by
  obtain ⟨kid, hkid⟩ := Dict.mem_values.mp he
  have hload : store.load kid = some e := hkid
  rwa [h.keyed kid e hload]

/-- The primary entry of a tenant is the one that is found. -/
theorem Orderly.tenantPrimary_eq (h : Orderly master kids store) {t : String}
    (he : e ∈ store.values) (ht : e.tenantId = some t) (hp : e.isPrimary = true) :
    tenantPrimary store t = some e := by
  cases hfirst : tenantPrimary store t with
  | none =>
    rw [tenantPrimary_eq_none hfirst he ht] at hp
    cases hp
  | some e' =>
    obtain ⟨he', ht', hp'⟩ := tenantPrimary_spec hfirst
    rw [h.onePrimary t e' he' e he ht' ht hp' hp]

/-- An entry can be read if and only if it is not destroyed. -/
theorem Orderly.materialize_iff (hF : F.Lawful) (h : Orderly master kids store)
    (he : e ∈ store.values) :
    (∃ enc, materialize master e = .ok enc) ↔ e.isDestroyed = false := by
  refine ⟨fun ⟨enc, henc⟩ => ?_, h.readable e he⟩
  by_contra hd
  rw [Bool.not_eq_false] at hd
  obtain ⟨exc, hexc⟩ := materialize_blank hF (h.formed e he) (h.blank e he hd)
  rw [henc] at hexc
  cases hexc

/-- **Where an entry comes from**: it is made by the call, or what has become of one. -/
theorem origin_of_storeStep (h : Orderly master kids w.store) (hst : StoreStep master w c store')
    {kid : String} (he' : store'.load kid = some e') :
    (kid = c.draw.kid ∧ MakesKey master w c e') ∨
    ∃ e, w.store.load kid = some e ∧ Becomes e e' := by
  cases hst with
  | same => exact .inr ⟨e', he', .same⟩
  | adds n hmakes hfree =>
    rw [load_save] at he'
    split at he'
    · rename_i hkid
      cases he'
      exact .inl ⟨hkid.trans hmakes.kid_eq, hmakes⟩
    · exact .inr ⟨e', he', .same⟩
  | replaces e n hdemotes hmakes htenant =>
    rw [load_save, load_save] at he'
    split at he'
    · rename_i hkid
      cases he'
      exact .inl ⟨hkid.trans hmakes.kid_eq, hmakes⟩
    · split at he'
      · rename_i hkid
        cases he'
        exact .inr ⟨e, hkid.symm ▸ h.load_of_mem hdemotes.spec.1, .demoted⟩
      · exact .inr ⟨e', he', .same⟩
  | destroys scope actor hop =>
    rw [load_destroyScope] at he'
    obtain ⟨e, hload, rfl⟩ := Option.map_eq_some_iff.mp he'
    refine .inr ⟨e, hload, ?_⟩
    split
    · exact .tombstone _
    · exact .same

/-- **What becomes of an entry.** -/
theorem becomes_of_storeStep (h : Orderly master kids w.store) (hfresh : c.draw.kid ∉ kids)
    (hst : StoreStep master w c store') (he : e ∈ w.store.values) :
    ∃ e' ∈ store'.values, Becomes e e' := by
  have hload := h.load_of_mem he
  have hne : ∀ {n}, MakesKey master w c n → e.kid ≠ n.kid := by
    intro n hmakes heq
    exact hfresh (hmakes.kid_eq ▸ heq ▸ h.drawn _ _ hload)
  cases hst with
  | same => exact ⟨e, he, .same⟩
  | adds n hmakes hfree => exact ⟨e, mem_save_of_ne hload (hne hmakes), .same⟩
  | replaces e₀ n hdemotes hmakes htenant =>
    by_cases heq : e.kid = e₀.kid
    · have hsame : e = e₀ :=
        Option.some.inj (hload.symm.trans (heq ▸ h.load_of_mem hdemotes.spec.1))
      subst hsame
      refine ⟨e.demoted, mem_save_of_ne ?_ (hne hmakes), .demoted⟩
      exact load_save.trans (if_pos rfl)
    · refine ⟨e, mem_save_of_ne ?_ (hne hmakes), .same⟩
      exact load_save.trans ((if_neg heq).trans hload)
  | destroys scope actor hop =>
    refine ⟨_, mem_values_of_load (load_destroyScope.trans (by rw [hload]; rfl)), ?_⟩
    dsimp only
    split
    · exact .tombstone _
    · exact .same

/-- A kept entry that is not destroyed is read as before. -/
theorem Becomes.materialize_eq (h : Becomes e e') (hd : e'.isDestroyed = false) :
    materialize master e' = materialize master e ∧ e.isDestroyed = false := by
  cases h with
  | same => exact ⟨rfl, hd⟩
  | demoted => exact ⟨rfl, hd⟩
  | tombstone now => cases hd

theorem Becomes.fields_eq (h : Becomes e e') :
    e'.kid = e.kid ∧ e'.tenantId = e.tenantId ∧ e'.scope = e.scope ∧ e'.algorithm = e.algorithm ∧
      e'.wrapped = e.wrapped := by
  cases h <;> exact ⟨rfl, rfl, rfl, rfl, rfl⟩

theorem onePrimary_of_storeStep (h : Orderly master kids w.store)
    (hst : StoreStep master w c store') (t : String) (he : e ∈ store'.values)
    (he' : e' ∈ store'.values) (ht : e.tenantId = some t) (ht' : e'.tenantId = some t)
    (hp : e.isPrimary = true) (hp' : e'.isPrimary = true) : e = e' := by
  cases hst with
  | same => exact h.onePrimary t e he e' he' ht ht' hp hp'
  | adds n hmakes hfree =>
    -- a tenant that gets a key has no primary one
    have hold : ∀ {x kid}, w.store.load kid = some x → x.isPrimary = true → n.tenantId = some t →
        x.tenantId ≠ some t := by
      intro x kid hload hx hn htx
      have hnone := hfree (by rw [hn]; nofun)
      rw [firstOfTenant_eq_none hnone (mem_values_of_load hload) (htx.trans hn.symm)] at hx
      cases hx
    rcases mem_values_save he with rfl | ⟨kid, -, hload⟩ <;>
      rcases mem_values_save he' with rfl | ⟨kid', -, hload'⟩
    · rfl
    · exact absurd ht' (hold hload' hp' ht)
    · exact absurd ht (hold hload hp ht')
    · exact h.onePrimary t e (mem_values_of_load hload) e' (mem_values_of_load hload') ht ht' hp hp'
  | replaces e₀ n hdemotes hmakes htenant =>
    -- the replaced key was the primary one of its tenant
    have hold : ∀ {x kid}, (w.store.save e₀.demoted).load kid = some x → x.isPrimary = true →
        x ∈ w.store.values ∧ (n.tenantId = some t → x.tenantId ≠ some t) := by
      intro x kid hload hx
      obtain ⟨he₀, hprimary⟩ := hdemotes.spec
      rw [htenant]
      rcases mem_values_save (mem_values_of_load hload) with rfl | ⟨kid, hne, hload⟩
      · cases hx
      · refine ⟨mem_values_of_load hload, fun ht₀ htx => hne ?_⟩
        rw [← h.keyed kid x hload,
          h.onePrimary t x (mem_values_of_load hload) e₀ he₀ htx ht₀ hx hprimary]
        rfl
    rcases mem_values_save he with rfl | ⟨kid, -, hload⟩ <;>
      rcases mem_values_save he' with rfl | ⟨kid', -, hload'⟩
    · rfl
    · exact absurd ht' ((hold hload' hp').2 ht)
    · exact absurd ht ((hold hload hp).2 ht')
    · exact h.onePrimary t e (hold hload hp).1 e' (hold hload' hp').1 ht ht' hp hp'
  | destroys scope actor hop =>
    obtain ⟨kid, e₀, hload, rfl⟩ := mem_values_destroyScope he
    obtain ⟨kid', e₀', hload', rfl⟩ := mem_values_destroyScope he'
    have hfields : ∀ x : EncryptionKeyEntry,
        (if x.scope = some scope ∧ x.isDestroyed = false
          then x.tombstone c.draw.now else x).tenantId =
            x.tenantId ∧
          (if x.scope = some scope ∧ x.isDestroyed = false then x.tombstone c.draw.now
            else x).isPrimary = x.isPrimary := by
      intro x
      split <;> exact ⟨rfl, rfl⟩
    rw [(hfields _).1] at ht ht'
    rw [(hfields _).2] at hp hp'
    rw [h.onePrimary t e₀ (mem_values_of_load hload) e₀' (mem_values_of_load hload') ht ht' hp hp']

/-- **One call.** -/
theorem orderly_of_storeStep (hF : F.Lawful) (h : Orderly master kids w.store)
    (hst : StoreStep master w c store') : Orderly master (kids ++ [c.draw.kid]) store' := by
  have horigin := fun {kid e'} => @origin_of_storeStep F master store' kids e' w c h hst kid
  have hmem : ∀ {e'}, e' ∈ store'.values →
      (∃ tenantId scope, e' = (generate master c.draw tenantId true scope).2) ∨
        ∃ e ∈ w.store.values, Becomes e e' := by
    intro e' he'
    obtain ⟨kid, hload⟩ := Dict.mem_values.mp he'
    rcases horigin hload with ⟨-, hmakes⟩ | ⟨e, he, hbecomes⟩
    · exact .inl hmakes.generated
    · exact .inr ⟨e, mem_values_of_load he, hbecomes⟩
  refine ⟨?_, ?_, ?_, ?_, ?_, ?_⟩
  · intro kid e' hload
    rcases horigin hload with ⟨rfl, hmakes⟩ | ⟨e, he, hbecomes⟩
    · exact hmakes.kid_eq
    · exact hbecomes.fields_eq.1.trans (h.keyed kid e he)
  · intro kid e' hload
    rcases horigin hload with ⟨rfl, -⟩ | ⟨e, he, -⟩
    · simp
    · exact List.mem_append_left _ (h.drawn kid e he)
  · intro e' he'
    rcases hmem he' with ⟨tenantId, scope, rfl⟩ | ⟨e, he, hbecomes⟩
    · exact ⟨rfl, rfl⟩
    · obtain ⟨-, -, -, halgorithm, hwrapped⟩ := hbecomes.fields_eq
      exact ⟨halgorithm.trans (h.formed e he).1, hwrapped.trans (h.formed e he).2⟩
  · intro e' he' hd
    rcases hmem he' with ⟨tenantId, scope, rfl⟩ | ⟨e, he, hbecomes⟩
    · exact ⟨c.draw.key, materialize_generate hF⟩
    · obtain ⟨heq, hd'⟩ := @Becomes.materialize_eq F master e e' hbecomes hd
      rw [heq]
      exact h.readable e he hd'
  · intro e' he' hd
    rcases hmem he' with ⟨tenantId, scope, rfl⟩ | ⟨e, he, hbecomes⟩
    · cases hd
    · cases hbecomes with
      | same => exact h.blank e' he hd
      | demoted => exact h.blank e he hd
      | tombstone now => rfl
  · exact fun t e he e' he' => onePrimary_of_storeStep h hst t he he'

end

def drawnKids (l : List (KeyEnd F)) : List String := l.map (·.call.draw.kid)

theorem drawnKids_snoc {l : List (KeyEnd F)} {a : KeyEnd F} :
    drawnKids (l ++ [a]) = drawnKids l ++ [a.call.draw.kid] := List.map_append

theorem fresh_of_nodup {l : List (KeyEnd F)} {a : KeyEnd F} (h : (drawnKids (l ++ [a])).Nodup) :
    a.call.draw.kid ∉ drawnKids l := by
  rw [drawnKids_snoc, List.nodup_append] at h
  intro hmem
  exact h.2.2 _ hmem _ (List.mem_singleton_self _) rfl

/-- **Every run is orderly.** -/
theorem orderly_of_run (hF : F.Lawful) {l : List (KeyEnd F)} {w : KeyWorld F}
    (h : Run (Calls master) {} l w) : Orderly master (drawnKids l) w.store := by
  refine h.history (I := fun l w => Orderly master (drawnKids l) w.store) ?_ ?_
  · refine ⟨fun kid e he => ?_, fun kid e he => ?_, fun e he => ?_, fun e he => ?_, fun e he => ?_,
      fun t e he => ?_⟩ <;> cases he
  · intro l w a w' _ _ hst horderly
    rw [drawnKids_snoc]
    exact orderly_of_storeStep hF horderly (storeStep_of_calls hst)

end Varco
