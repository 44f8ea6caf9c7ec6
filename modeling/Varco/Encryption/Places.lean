import Varco.Encryption.Lifecycle

/-!
# Registries of scopes

A manager keeps the registries of scopes that it has made and goes on writing to the last one of
each scope. Every place of its list is of one scope (`Placed`), so a registry that was returned for
a scope changes only when the scope is rotated or destroyed (`multiAt_of_calls`).
-/

namespace Varco

open List EncryptionKeyManager InMemoryEncryptionKeyStore KeyWorld

variable {F : Fernet} {master : Option (FernetFieldEncryptor F)}

/-! ## What a call does to the registries -/

/-- What a call does to the registries of scopes of its manager. -/
inductive MultiStep (master : Option (FernetFieldEncryptor F)) (w : KeyWorld F) (a : KeyEnd F)
    (m' : ManagerMemory F) : Prop
  | same (hmulti : m'.scopedMulti = (w.memory a.call.manager).scopedMulti)
      (hmultis : m'.multis = (w.memory a.call.manager).multis)
      (hres : ∀ manager registry, a.result ≠ .ok (.scoped manager registry))
      (hop : ∀ scope actor, a.call.op = .destroyScope scope actor →
        (w.memory a.call.manager).scopedMulti.get? scope = none)
  | builds (scope : String) (primary : EncryptionKeyEntry) (enc : FernetFieldEncryptor F)
      (hmulti : m'.scopedMulti = (w.memory a.call.manager).scopedMulti.set scope
        (w.memory a.call.manager).multis.length)
      (hmultis : m'.multis = (w.memory a.call.manager).multis ++ [.new primary.kid enc])
      (hop : a.call.op = .buildScopedRegistry scope)
      (hres : a.result = .ok (.scoped a.call.manager
        (({} : ScopedEncryptorRegistry ℕ).register scope (w.memory a.call.manager).multis.length)))
      (hprimary : scopePrimary w.store scope = some primary ∨ MakesKey master w a.call primary)
      (henc : materialize master primary = .ok enc)
  | rotates (scope : String) (place : ℕ)
      (hmulti : m'.scopedMulti = (w.memory a.call.manager).scopedMulti)
      (hget : (w.memory a.call.manager).scopedMulti.get? scope = some place)
      (hmultis : m'.multis = (w.memory a.call.manager).multis.modify place fun r =>
        { r.register a.call.draw.kid a.call.draw.key with primaryKid := a.call.draw.kid })
      (hop : a.call.op = .rotateScope scope)
      (hfirst : ∃ primary, firstOfScope w.store scope = some primary)
      (hres : a.result = .ok (.encryptor a.call.draw.key))
  | destroys (scope : String) (actor : Option String) (place : ℕ)
      (hmulti : m'.scopedMulti = (w.memory a.call.manager).scopedMulti)
      (hget : (w.memory a.call.manager).scopedMulti.get? scope = some place)
      (hmultis : m'.multis = (w.memory a.call.manager).multis.modify place fun r =>
        (w.store.destroyScope scope a.call.draw.now).1.foldl MultiKeyEncryptorRegistry.destroy r)
      (hop : a.call.op = .destroyScope scope actor)
      (hres : ∃ receipt, a.result = .ok (.receipt receipt))

section

variable {w w' : KeyWorld F} {a : KeyEnd F} {l : List (KeyEnd F)} {manager place : ℕ}
  {scope : String}

theorem memory_updatingMulti_of_ne {manager' : ℕ} (h : manager' ≠ manager)
    (f : MultiKeyEncryptorRegistry (FernetFieldEncryptor F) →
      MultiKeyEncryptorRegistry (FernetFieldEncryptor F)) :
    (w.updatingMulti manager scope f).memory manager' = w.memory manager' := by
  unfold updatingMulti
  split
  · rfl
  · exact on_memory_of_ne _ _ _ h

theorem memory_of_calls (h : Calls master w a w') (hne : manager ≠ a.call.manager) :
    w'.memory manager = w.memory manager := by
  by_cases hop : a.call.op = .buildTenantRegistry
  · obtain ⟨r, cache, -, -, rfl⟩ := registers_of_calls h hop
    exact on_memory_of_ne _ _ _ hne
  obtain ⟨⟨manager', op, draw⟩, result⟩ := a
  have hout : KeyOutcome master w manager' draw op result w' := outcome_of_calls h hop
  cases hout with
  | cached | unreadable | unrotated | scopeUnreadable | scopeUnrotated => rfl
  | found | created | rotated | scopeFound | scopeCreated =>
    exact on_memory_of_ne _ _ _ hne
  | scopeRotated scope primary hfirst => exact memory_updatingMulti_of_ne hne _
  | destroyed scope actor =>
    exact (on_memory_of_ne _ _ _ hne).trans (memory_updatingMulti_of_ne hne _)

/-- **What a call does to the registries.** -/
theorem multiStep_of_calls (hF : F.Lawful) (h : Calls master w a w') :
    MultiStep master w a (w'.memory a.call.manager) := by
  by_cases hop : a.call.op = .buildTenantRegistry
  · obtain ⟨r, cache, -, hres, rfl⟩ := registers_of_calls h hop
    rw [on_memory_self]
    refine .same rfl rfl (fun manager registry heq => ?_) fun scope actor hop' => ?_
    · rw [hres] at heq
      cases r <;> cases heq
    · rw [hop] at hop'
      cases hop'
  obtain ⟨⟨manager, op, draw⟩, result⟩ := a
  have hout : KeyOutcome master w manager draw op result w' := outcome_of_calls h hop
  dsimp only at h ⊢
  cases hout with
  | cached | unreadable | unrotated | scopeUnreadable | scopeUnrotated =>
    exact .same rfl rfl (by rintro _ _ ⟨⟩) (by rintro _ _ ⟨⟩)
  | found tenantId primary enc hcache hfirst henc =>
    rw [caching, on_memory_self]
    exact .same rfl rfl (by rintro _ _ ⟨⟩) (by rintro _ _ ⟨⟩)
  | created tenantId hcache hnone =>
    rw [caching, on_memory_self]
    exact .same rfl rfl (by rintro _ _ ⟨⟩) (by rintro _ _ ⟨⟩)
  | rotated tenantId primary hfirst =>
    rw [caching, on_memory_self]
    exact .same rfl rfl (by rintro _ _ ⟨⟩) (by rintro _ _ ⟨⟩)
  | scopeFound scope primary enc hprimary henc =>
    rw [adding, on_memory_self]
    exact .builds scope primary enc rfl rfl rfl rfl (.inl hprimary) henc
  | scopeCreated scope hnone =>
    rw [adding, on_memory_self]
    exact .builds scope _ draw.key rfl rfl rfl rfl (.inr (.scopeCreated scope rfl hnone))
      (materialize_generate hF)
  | scopeRotated scope primary hfirst =>
    unfold updatingMulti
    split
    · exact .same rfl rfl (by rintro _ _ ⟨⟩) (by rintro _ _ ⟨⟩)
    · rename_i place hget
      rw [on_memory_self]
      exact .rotates scope place rfl hget rfl rfl ⟨primary, hfirst⟩ rfl
  | destroyed scope actor =>
    rw [on_memory_self]
    unfold updatingMulti
    split
    · rename_i hnone
      refine .same rfl rfl (by rintro _ _ ⟨⟩) fun scope' actor' hop' => ?_
      cases hop'
      exact hnone
    · rename_i place hget
      rw [on_memory_self]
      exact .destroys scope actor place rfl hget rfl rfl ⟨_, rfl⟩

/-- The manager has returned a registry of the scope, which refers to the place. -/
def BuiltFor (l : List (KeyEnd F)) (manager place : ℕ) (scope : String) : Prop :=
  ∃ a ∈ l, a.call.manager = manager ∧ a.call.op = .buildScopedRegistry scope ∧
    a.result = .ok (.scoped manager (({} : ScopedEncryptorRegistry ℕ).register scope place))

/-- Each place is of one scope. -/
structure Placed (l : List (KeyEnd F)) (w : KeyWorld F) : Prop where
  bound : ∀ manager place scope, BuiltFor l manager place scope →
    place < (w.memory manager).multis.length
  sole : ∀ manager place scope scope', BuiltFor l manager place scope →
    BuiltFor l manager place scope' → scope = scope'
  current : ∀ manager place scope, (w.memory manager).scopedMulti.get? scope = some place →
    BuiltFor l manager place scope

theorem builtFor_append_left (h : BuiltFor l manager place scope) (l' : List (KeyEnd F)) :
    BuiltFor (l ++ l') manager place scope := by
  obtain ⟨a, ha, hrest⟩ := h
  exact ⟨a, mem_append_left _ ha, hrest⟩

theorem builtFor_snoc_of_ne (hres : ∀ manager registry, a.result ≠ .ok (.scoped manager registry))
    (h : BuiltFor (l ++ [a]) manager place scope) : BuiltFor l manager place scope := by
  obtain ⟨b, hb, hmanager, hop, hb'⟩ := h
  rcases mem_append.mp hb with hb | hb
  · exact ⟨b, hb, hmanager, hop, hb'⟩
  · rw [mem_singleton.mp hb] at hb'
    exact absurd hb' (hres _ _)

theorem builtFor_snoc {scope' : String} {place' : ℕ}
    (hop : a.call.op = .buildScopedRegistry scope')
    (hres : a.result = .ok (.scoped a.call.manager
      (({} : ScopedEncryptorRegistry ℕ).register scope' place')))
    (h : BuiltFor (l ++ [a]) manager place scope) :
    BuiltFor l manager place scope ∨
      (manager = a.call.manager ∧ place = place' ∧ scope = scope') := by
  obtain ⟨b, hb, hmanager, hop', hres'⟩ := h
  rcases mem_append.mp hb with hb | hb
  · exact .inl ⟨b, hb, hmanager, hop', hres'⟩
  · rw [mem_singleton.mp hb] at hmanager hop' hres'
    have hscope : scope = scope' := by
      rw [hop] at hop'
      cases hop'
      rfl
    subst hscope
    rw [hres] at hres'
    have hregistry : ({} : ScopedEncryptorRegistry ℕ).register scope place' =
        ({} : ScopedEncryptorRegistry ℕ).register scope place := by
      cases hmanager
      simpa using hres'
    have hplace := congrArg (fun r : ScopedEncryptorRegistry ℕ => r.registry.get? scope) hregistry
    simp only [ContextRegistry.register, Dict.get?_set_self, Option.some.injEq] at hplace
    exact .inr ⟨hmanager.symm, hplace.symm, rfl⟩

theorem length_multis_of_calls (hF : F.Lawful) (h : Calls master w a w') (manager : ℕ) :
    (w.memory manager).multis.length ≤ (w'.memory manager).multis.length := by
  by_cases hmanager : manager = a.call.manager
  · subst hmanager
    cases multiStep_of_calls hF h with
    | same hmulti hmultis => rw [hmultis]
    | builds scope primary enc hmulti hmultis =>
      rw [hmultis, length_append]
      exact Nat.le_add_right ..
    | rotates scope place hmulti hget hmultis => rw [hmultis, length_modify]
    | destroys scope actor place hmulti hget hmultis => rw [hmultis, length_modify]
  · rw [memory_of_calls h hmanager]

/-- **One call.** -/
theorem placed_snoc (hF : F.Lawful) (hplaced : Placed l w) (h : Calls master w a w') :
    Placed (l ++ [a]) w' := by
  have hlength := length_multis_of_calls hF h
  have hother : ∀ manager place scope, manager ≠ a.call.manager →
      (w'.memory manager).scopedMulti.get? scope = some place →
      BuiltFor (l ++ [a]) manager place scope := by
    intro manager place scope hne hget
    rw [memory_of_calls h hne] at hget
    exact builtFor_append_left (hplaced.current manager place scope hget) _
  -- a call that returns no registry and leaves the places alone
  have hquiet : (∀ manager registry, a.result ≠ .ok (.scoped manager registry)) →
      (w'.memory a.call.manager).scopedMulti = (w.memory a.call.manager).scopedMulti →
      Placed (l ++ [a]) w' := by
    intro hres hmulti
    refine ⟨fun manager place scope hb => ?_, fun manager place scope scope' hb hb' => ?_,
      fun manager place scope hget => ?_⟩
    · exact (hplaced.bound _ _ _ (builtFor_snoc_of_ne hres hb)).trans_le (hlength manager)
    · exact hplaced.sole _ _ _ _ (builtFor_snoc_of_ne hres hb) (builtFor_snoc_of_ne hres hb')
    · by_cases hmanager : manager = a.call.manager
      · subst hmanager
        rw [hmulti] at hget
        exact builtFor_append_left (hplaced.current _ place scope hget) _
      · exact hother manager place scope hmanager hget
  cases multiStep_of_calls hF h with
  | same hmulti hmultis hres hop => exact hquiet hres hmulti
  | rotates scope place hmulti hget hmultis hop hfirst hres =>
    refine hquiet (fun manager registry heq => ?_) hmulti
    rw [hres] at heq
    cases heq
  | destroys scope actor place hmulti hget hmultis hop hres =>
    refine hquiet (fun manager registry heq => ?_) hmulti
    obtain ⟨receipt, hres⟩ := hres
    rw [hres] at heq
    cases heq
  | builds scope primary enc hmulti hmultis hop hres hprimary henc =>
    refine ⟨fun manager place scope' hb => ?_, fun manager place s s' hb hb' => ?_,
      fun manager place scope' hget => ?_⟩
    · rcases builtFor_snoc hop hres hb with hb | ⟨rfl, rfl, rfl⟩
      · exact (hplaced.bound _ _ _ hb).trans_le (hlength manager)
      · rw [hmultis, length_append]
        exact Nat.lt_succ_self _
    · rcases builtFor_snoc hop hres hb with hb | ⟨rfl, rfl, rfl⟩ <;>
        rcases builtFor_snoc hop hres hb' with hb' | ⟨hm, hp, hs⟩
      · exact hplaced.sole _ _ _ _ hb hb'
      · have hlt := hplaced.bound _ _ _ hb
        rw [hm, hp] at hlt
        exact absurd hlt (Nat.lt_irrefl _)
      · exact absurd (hplaced.bound _ _ _ hb') (Nat.lt_irrefl _)
      · exact hs.symm
    · by_cases hmanager : manager = a.call.manager
      · subst hmanager
        rw [hmulti, Dict.get?_set] at hget
        split at hget
        · rename_i hscope
          cases hget
          subst hscope
          exact ⟨a, by simp, rfl, hop, hres⟩
        · exact builtFor_append_left (hplaced.current _ place scope' hget) _
      · exact hother manager place scope' hmanager hget

theorem placed_of_run (hF : F.Lawful) (h : Run (Calls master) {} l w) : Placed l w := by
  refine h.history (I := Placed) ⟨?_, ?_, ?_⟩ fun l w a w' _ _ hst hplaced =>
    placed_snoc hF hplaced hst
  · rintro manager place scope ⟨a, ha, -⟩
    cases ha
  · rintro manager place scope scope' ⟨a, ha, -⟩
    cases ha
  · intro manager place scope hget
    cases hget

/-- What becomes of a registry of the scope that its manager has at the place. -/
inductive MultiAt (w : KeyWorld F) (a : KeyEnd F) (manager place : ℕ) (scope : String) :
    MultiKeyEncryptorRegistry (FernetFieldEncryptor F) → Prop
  | same (h : ∀ actor, manager = a.call.manager → a.call.op = .destroyScope scope actor →
        (w.memory manager).scopedMulti.get? scope ≠ some place) :
      MultiAt w a manager place scope (w.multi manager place)
  | rotated (hmanager : manager = a.call.manager) (hop : a.call.op = .rotateScope scope)
      (hfirst : ∃ primary, firstOfScope w.store scope = some primary)
      (hget : (w.memory manager).scopedMulti.get? scope = some place) :
      MultiAt w a manager place scope
        { (w.multi manager place).register a.call.draw.kid a.call.draw.key with
          primaryKid := a.call.draw.kid }
  | destroyed (actor : Option String) (hmanager : manager = a.call.manager)
      (hop : a.call.op = .destroyScope scope actor)
      (hget : (w.memory manager).scopedMulti.get? scope = some place) :
      MultiAt w a manager place scope
        ((w.store.destroyScope scope a.call.draw.now).1.foldl MultiKeyEncryptorRegistry.destroy
          (w.multi manager place))

theorem getD_modify_self {α : Type} {l : List α} {n : ℕ} (h : n < l.length) (f : α → α) (d : α) :
    (l.modify n f).getD n d = f (l.getD n d) := by
  simp [getD_eq_getElem?_getD, h]

theorem getD_modify_of_ne {α : Type} {l : List α} {m n : ℕ} (h : m ≠ n) (f : α → α) (d : α) :
    (l.modify m f).getD n d = l.getD n d := by
  simp [getD_eq_getElem?_getD, h]

/-- **What becomes of a registry.** -/
theorem multiAt_of_calls (hF : F.Lawful) (hplaced : Placed l w) (h : Calls master w a w')
    (hb : BuiltFor l manager place scope) :
    MultiAt w a manager place scope (w'.multi manager place) := by
  have hlt := hplaced.bound manager place scope hb
  have hsame : w'.multi manager place = w.multi manager place →
      (∀ actor, manager = a.call.manager → a.call.op = .destroyScope scope actor →
        (w.memory manager).scopedMulti.get? scope ≠ some place) →
      MultiAt w a manager place scope (w'.multi manager place) := by
    intro heq hop
    rw [heq]
    exact .same hop
  unfold multi at hsame ⊢
  by_cases hmanager : manager = a.call.manager
  case neg =>
    refine hsame ?_ fun _ heq => absurd heq hmanager
    rw [memory_of_calls h hmanager]
  subst hmanager
  -- a place of another scope is not this one
  have hplace : ∀ scope' place',
      (w.memory a.call.manager).scopedMulti.get? scope' = some place' → scope' ≠ scope →
      place' ≠ place := by
    rintro scope' place' hget hne rfl
    exact hne (hplaced.sole _ _ _ _ (hplaced.current _ _ _ hget) hb)
  cases multiStep_of_calls hF h with
  | same hmulti hmultis hres hop =>
    refine hsame (by rw [hmultis]) fun actor _ hop' => ?_
    rw [hop scope actor hop']
    nofun
  | builds scope' primary enc hmulti hmultis hop hres hprimary henc =>
    refine hsame ?_ fun actor _ hop' => ?_
    · rw [hmultis, getD_eq_getElem?_getD, List.getElem?_append_left hlt,
        getD_eq_getElem?_getD]
    · rw [hop] at hop'
      cases hop'
  | rotates scope' place' hmulti hget hmultis hop hfirst hres =>
    by_cases heq : place' = place
    · subst heq
      obtain rfl : scope' = scope := by
        by_contra hne
        exact hplace scope' place' hget hne rfl
      rw [hmultis, getD_modify_self hlt]
      exact .rotated rfl hop hfirst hget
    · refine hsame (by rw [hmultis, getD_modify_of_ne heq]) fun actor _ hop' => ?_
      rw [hop] at hop'
      cases hop'
  | destroys scope' actor place' hmulti hget hmultis hop hres =>
    by_cases heq : place' = place
    · subst heq
      obtain rfl : scope' = scope := by
        by_contra hne
        exact hplace scope' place' hget hne rfl
      rw [hmultis, getD_modify_self hlt]
      exact .destroyed actor rfl hop hget
    · refine hsame (by rw [hmultis, getD_modify_of_ne heq]) fun actor' _ hop' hget' => heq ?_
      rw [hop] at hop'
      cases hop'
      exact Option.some.inj (hget.symm.trans hget')

theorem multi_of_builds {primary : EncryptionKeyEntry} {enc : FernetFieldEncryptor F}
    (hmultis : (w'.memory manager).multis = (w.memory manager).multis ++ [.new primary.kid enc]) :
    w'.multi manager (w.memory manager).multis.length = .new primary.kid enc := by
  unfold multi
  rw [hmultis]
  simp

theorem resolve_scope (scope : String) (place : ℕ) :
    ScopedEncryptorRegistry.resolve (({} : ScopedEncryptorRegistry ℕ).register scope place)
      (some scope) = .ok place := by
  unfold ScopedEncryptorRegistry.resolve ContextRegistry.resolve
  rw [ContextRegistry.register, Option.bind_some, Dict.get?_set_self]
  rfl

end

end Varco
