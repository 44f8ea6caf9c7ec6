import Varco.Encryption.KeyManager

/-!
# Destroyed keys under interleaving

Any number of calls of any managers over one store, where each call of the store is one step. A
rotation writes back a copy of the entry that it has read. If the scope of the entry is destroyed
between the two, the copy brings the key back (`rotation_restores`); if it never is, a destroyed key
stays destroyed in every run.
-/

namespace Varco

open List EncryptionKeyManager InMemoryEncryptionKeyStore

variable {F : Fernet} {ι : Type} [DecidableEq ι]

abbrev KeyPool (F : Fernet) (ι : Type) :=
  Pool ι (KeyWorld F) (KeyCmd F) KeyCmd.Res (Except EncryptionExc (KeyResult F))

abbrev KeyEvent (F : Fernet) (ι : Type) := Event ι Unit (KeyCmd F) KeyCmd.Res

abbrev KeyStep : KeyPool F ι → KeyEvent F ι → KeyPool F ι → Prop :=
  Pool.Step fun _ _ c w => some (w.exec c)

def keyPool (master : Option (FernetFieldEncryptor F)) (calls : ι → KeyCall F) : KeyPool F ι where
  shared := {}
  prog i := ((calls i).prog master).run

def loaded : Entry Unit (KeyCmd F) KeyCmd.Res → List EncryptionKeyEntry
  | ⟨_, .loadForTenant _, entries⟩ => entries
  | ⟨_, .loadForScope _, entries⟩ => entries
  | _ => []

def destroyedKids : Entry Unit (KeyCmd F) KeyCmd.Res → List String
  | ⟨_, .destroyScope .., kids⟩ => kids
  | _ => []

def destroys : KeyCmd F → Option String
  | .destroyScope scope _ => some scope
  | _ => none

def saves : KeyCmd F → Option EncryptionKeyEntry
  | .save entry => some entry
  | _ => none

/-- A rotation that writes back its copy of an entry has read the entry after the last time that its
scope was destroyed. -/
def WritesBackFresh (l : List (KeyEvent F ι)) (_ : KeyPool F ι) (e : KeyEvent F ι) : Prop :=
  ∀ entry, saves e.cmd = some entry → entry.isPrimary = false →
    ∃ l₁ a, ∃ l₂ : List (KeyEvent F ι), l = l₁ ++ a :: l₂ ∧ a.thread = e.thread ∧
      (∃ e₀ ∈ loaded a.toEntry, e₀.demoted = entry) ∧
      ∀ d ∈ l₂, destroys d.cmd = none ∨ destroys d.cmd ≠ entry.scope

/-! ## What the calls save -/

/-- A call saves a copy of an entry that it has read, demoted, or the one new entry that it has
drawn. -/
def SavesOwn (draw : KeyDraw F) (log : List (Entry Unit (KeyCmd F) KeyCmd.Res)) (c : KeyCmd F) :
    Prop :=
  ∀ entry, saves c = some entry →
    (∃ x ∈ log, ∃ e₀ ∈ loaded x, entry = e₀.demoted) ∨
      (entry.kid = draw.kid ∧ entry.isPrimary = true ∧ entry.destroyedAt = none ∧
        ∀ x ∈ log, ∀ entry', saves x.cmd = some entry' → entry'.isPrimary = false)

abbrev Saving {α : Type} (draw : KeyDraw F) (p : Prog (KeyCmd F) KeyCmd.Res α)
    (log : List (Entry Unit (KeyCmd F) KeyCmd.Res)) : Prop :=
  Prog.Local (fun _ _ _ => True) (SavesOwn draw) (fun _ _ => True) p log

section

variable {α β : Type} {draw : KeyDraw F} {log : List (Entry Unit (KeyCmd F) KeyCmd.Res)}
  {master : Option (FernetFieldEncryptor F)} {manager : ℕ}

omit [DecidableEq ι]

theorem savesOwn_of_none {c : KeyCmd F} (h : saves c = none) : SavesOwn draw log c := by
  intro entry hentry
  rw [h] at hentry
  cases hentry

theorem saving_call {c : KeyCmd F} {f : c.Res → KeyM F β} (hc : saves c = none)
    (h : ∀ r, Saving draw (f r) (log ++ [⟨(), c, r⟩])) :
    Saving draw (Prog.call c >>= f : KeyM F β) log :=
  Prog.Local.call (savesOwn_of_none hc) fun _ r _ => h r

theorem saving_assign {f : ManagerMemory F → ManagerMemory F} {a : α} :
    Saving draw (do assign manager f; return a : KeyM F α) log :=
  saving_call rfl fun _ => trivial

theorem saving_map {p : KeyM F α} (f : α → β) (h : Saving draw p log) :
    Saving draw (f <$> p : KeyM F β) log := by
  refine Prog.Local.bind (Prog.Local.mono h fun l a _ => ?_)
  cases a <;> trivial

theorem saving_lift {p : Except EncryptionExc α} {f : α → KeyM F β}
    (h : ∀ a, p = .ok a → Saving draw (f a) log) :
    Saving draw (do let a ← p; f a : KeyM F β) log := by
  cases p with
  | ok a => exact h a rfl
  | error e => trivial

theorem saving_new {f : Unit → KeyM F β} {tenantId scope : Option String}
    (hlog : ∀ x ∈ log, ∀ entry, saves x.cmd = some entry → entry.isPrimary = false)
    (h : ∀ log, Saving draw (f ()) log) :
    Saving draw (save (generate master draw tenantId true scope).2 >>= f : KeyM F β) log := by
  refine Prog.Local.call ?_ fun _ _ _ => h _
  intro entry hentry
  cases hentry
  exact .inr ⟨rfl, rfl, rfl, hlog⟩

theorem saving_getOrCreateEncryptor (tenantId : Option String) :
    Saving draw (getOrCreateEncryptor master manager draw tenantId) [] := by
  refine saving_call rfl fun memory => ?_
  split
  · trivial
  · refine saving_call rfl fun entries => ?_
    split
    · exact saving_lift fun enc _ => saving_assign
    · refine saving_new ?_ fun _ => saving_assign
      simp [saves]

theorem saving_registerTenant
    (registry : TenantAwareEncryptorRegistry (FernetFieldEncryptor F)) (tenantId : String) :
    Saving draw (registerTenant master manager registry tenantId) log := by
  refine saving_call rfl fun entries => ?_
  split
  · trivial
  · exact saving_lift fun enc _ => saving_assign

theorem saving_registerTenants (tenantIds : List String)
    (registry : TenantAwareEncryptorRegistry (FernetFieldEncryptor F)) :
    Saving draw (tenantIds.foldlM (registerTenant master manager) registry : KeyM F _) log := by
  induction tenantIds generalizing registry log with
  | nil => trivial
  | cons tenantId tenantIds ih =>
    rw [foldlM_cons]
    refine Prog.Local.bindExcept (Prog.Local.mono (saving_registerTenant registry tenantId) ?_)
    intro l r _
    cases r with
    | ok registry => exact ih registry
    | error e => trivial

theorem saving_buildTenantRegistry :
    Saving draw (buildTenantRegistry (F := F) master manager) [] :=
  saving_call rfl fun tenantIds => saving_registerTenants tenantIds {}

/-- A rotation saves the primary entry that it has read, demoted, and then a new one. -/
theorem saving_rotation {c : KeyCmd F} {entries : c.Res} {e₀ : EncryptionKeyEntry}
    {f : Unit → KeyM F β} {tenantId scope : Option String} (hc : saves c = none)
    (he₀ : e₀ ∈ loaded ⟨(), c, entries⟩) (h : ∀ log, Saving draw (f ()) log) :
    Saving draw (do
      save e₀.demoted
      save (generate master draw tenantId true scope).2
      f () : KeyM F β) [⟨(), c, entries⟩] := by
  refine Prog.Local.call ?_ fun _ _ _ => saving_new ?_ h
  · intro entry hentry
    cases hentry
    exact .inl ⟨_, mem_singleton_self _, e₀, he₀, rfl⟩
  · intro x hx entry hentry
    rcases mem_pair.mp hx with rfl | rfl
    · rw [hc] at hentry
      cases hentry
    · cases hentry
      rfl

theorem saving_rotate (tenantId : Option String) :
    Saving draw (rotate master manager draw tenantId) [] := by
  refine saving_call rfl fun entries => ?_
  split
  · trivial
  · rename_i e₀ hfind
    have he₀ : e₀ ∈ loaded ⟨(), .loadForTenant (F := F) tenantId, entries⟩ :=
      mem_of_find?_eq_some hfind
    refine saving_rotation rfl he₀ (f := fun _ => do assign manager _; return _) fun _ => ?_
    exact saving_assign

theorem saving_rotateScope (scope : String) :
    Saving draw (rotateScope master manager draw scope) [] := by
  refine saving_call rfl fun entries => ?_
  split
  · trivial
  · rename_i e₀ hfind
    have he₀ : e₀ ∈ loaded ⟨(), .loadForScope (F := F) (some scope), entries⟩ :=
      mem_of_find?_eq_some hfind
    refine saving_rotation rfl he₀ (f := fun _ => self manager >>= _) fun _ => ?_
    refine saving_call rfl fun memory => ?_
    split
    · trivial
    · exact saving_assign

theorem saving_buildScopedRegistry (scope : String) :
    Saving draw (buildScopedRegistry master manager draw scope) [] := by
  refine saving_call rfl fun entries => ?_
  have hrest : ∀ (kid : String) (enc : FernetFieldEncryptor F) log, Saving draw (do
      let multi := (← self manager).multis.length
      assign manager fun m => { m with
        scopedMulti := m.scopedMulti.set scope multi
        multis := m.multis ++ [.new kid enc] }
      return ({} : ScopedEncryptorRegistry ℕ).register scope multi : KeyM F _) log :=
    fun kid enc log => saving_call rfl fun memory => saving_assign
  dsimp only
  split
  · rename_i primary _ _
    exact saving_lift fun enc _ => hrest primary.kid enc _
  · exact saving_new (by simp [saves]) (f := fun _ => self manager >>= _) fun log => hrest _ _ log

theorem saving_destroyScope (scope : String) (actor : Option String) :
    Saving draw (destroyScope (F := F) manager draw scope actor) [] := by
  refine saving_call rfl fun kids => saving_call rfl fun memory => ?_
  split
  · exact saving_assign
  · exact saving_call rfl fun _ => saving_assign

/-- **Every call saves its own.** -/
theorem saving_prog (c : KeyCall F) : Saving c.draw (c.prog master).run [] := by
  obtain ⟨manager, op, draw⟩ := c
  cases op with
  | getOrCreateEncryptor tenantId => exact saving_map _ (saving_getOrCreateEncryptor tenantId)
  | buildTenantRegistry => exact saving_map _ saving_buildTenantRegistry
  | rotate tenantId => exact saving_map _ (saving_rotate tenantId)
  | buildScopedRegistry scope => exact saving_map _ (saving_buildScopedRegistry scope)
  | rotateScope scope => exact saving_map _ (saving_rotateScope scope)
  | destroyScope scope actor => exact saving_map _ (saving_destroyScope scope actor)

end

/-! ## What a step does to the store -/

def KeyCmd.effect : KeyCmd F → InMemoryEncryptionKeyStore → InMemoryEncryptionKeyStore
  | .save entry, store => store.save entry
  | .destroyScope scope now, store => (store.destroyScope scope now).2
  | _, store => store

/-- A key is destroyed: its entry holds no key material, and says since when. -/
def Erased (store : InMemoryEncryptionKeyStore) (kid : String) : Prop :=
  ∃ e, store.load kid = some e ∧ e.keyMaterial = [] ∧ e.destroyedAt ≠ none

def Spares (scope : Option String) (c : KeyCmd F) : Prop :=
  destroys c = none ∨ destroys c ≠ scope

/-- Entries stay in their scope, and stay destroyed; the others are destroyed by the destruction of
their scope only. -/
def Evolves (c : KeyCmd F) (store store' : InMemoryEncryptionKeyStore) : Prop :=
  ∀ kid e, store.load kid = some e → ∃ e', store'.load kid = some e' ∧ e'.scope = e.scope ∧
    (e.isDestroyed = true → e'.isDestroyed = true) ∧
    (Spares e.scope c → e'.isDestroyed = true → e.isDestroyed = true)

/-- The entries of a store are under their own identifiers, and the destroyed ones are blank. -/
structure WellKept (store : InMemoryEncryptionKeyStore) : Prop where
  keyed : ∀ kid e, store.load kid = some e → e.kid = kid
  blank : ∀ kid e, store.load kid = some e → e.isDestroyed = true → e.keyMaterial = []

/-- What is known of a run so far. -/
structure Shredded (calls : ι → KeyCall F) (l : List (KeyEvent F ι)) (P : KeyPool F ι) : Prop where
  kept : WellKept P.shared.store
  drawn : ∀ kid e, P.shared.store.load kid = some e →
    ∃ a ∈ l, (calls a.thread).draw.kid = kid ∧
      ∃ entry, saves a.cmd = some entry ∧ entry.isPrimary = true
  copies : ∀ l₁ a (l₂ : List (KeyEvent F ι)), l = l₁ ++ a :: l₂ → ∀ e₀ ∈ loaded a.toEntry,
    (e₀.isDestroyed = true → e₀.keyMaterial = []) ∧
    ∃ e, P.shared.store.load e₀.kid = some e ∧ e.scope = e₀.scope ∧
      (e₀.isDestroyed = true → e.isDestroyed = true) ∧
      ((∀ d ∈ l₂, Spares e₀.scope d.cmd) → e.isDestroyed = true → e₀.isDestroyed = true)
  erased : ∀ d ∈ l, ∀ kid ∈ destroyedKids d.toEntry, Erased P.shared.store kid

section

variable {calls : ι → KeyCall F} {l : List (KeyEvent F ι)} {P P' : KeyPool F ι} {a : KeyEvent F ι}
  {store store' : InMemoryEncryptionKeyStore} {c : KeyCmd F}

theorem answer_of_step (h : KeyStep P a P') : (P.shared.exec a.cmd).1 = a.res :=
  congrArg Prod.fst (Option.some.inj h.exec_eq)

theorem store_of_step (h : KeyStep P a P') : P'.shared.store = a.cmd.effect P.shared.store := by
  rw [h.total_eq.2]
  cases a.cmd <;> rfl

omit [DecidableEq ι] in
theorem spares_of_destroys {scope : Option String} (h : destroys c = none) : Spares scope c :=
  .inl h

omit [DecidableEq ι] in
theorem evolves_refl : Evolves c store store :=
  fun _ e he => ⟨e, he, rfl, id, fun _ h => h⟩

omit [DecidableEq ι] in
theorem evolves_destroyScope (scope : String) (now : Instant) :
    Evolves (.destroyScope (F := F) scope now) store (store.destroyScope scope now).2 := by
  intro kid e he
  refine ⟨_, by rw [load_destroyScope, he]; rfl, ?_⟩
  dsimp only
  split
  · rename_i hdoomed
    refine ⟨rfl, fun _ => rfl, fun hspares _ => ?_⟩
    rcases hspares with h | h
    · cases h
    · exact absurd hdoomed.1.symm h
  · exact ⟨rfl, id, fun _ h => h⟩

omit [DecidableEq ι] in
theorem wellKept_destroyScope (h : WellKept store) (scope : String) (now : Instant) :
    WellKept (store.destroyScope scope now).2 := by
  have hload : ∀ kid e, (store.destroyScope scope now).2.load kid = some e →
      ∃ e₀, store.load kid = some e₀ ∧ (e = e₀.tombstone now ∨ e = e₀) := by
    intro kid e he
    rw [load_destroyScope] at he
    obtain ⟨e₀, he₀, heq⟩ := Option.map_eq_some_iff.mp he
    refine ⟨e₀, he₀, ?_⟩
    split at heq
    · exact .inl heq.symm
    · exact .inr heq.symm
  constructor
  · intro kid e he
    obtain ⟨e₀, he₀, rfl | rfl⟩ := hload kid e he
    · exact h.keyed kid e₀ he₀
    · exact h.keyed kid e he₀
  · intro kid e he hd
    obtain ⟨e₀, he₀, rfl | rfl⟩ := hload kid e he
    · rfl
    · exact h.blank kid e he₀ hd

omit [DecidableEq ι] in
theorem wellKept_save {entry : EncryptionKeyEntry} (h : WellKept store)
    (hblank : entry.isDestroyed = true → entry.keyMaterial = []) : WellKept (store.save entry) := by
  constructor
  · intro kid e he
    rw [load_save] at he
    split at he
    · cases he
      exact Eq.symm ‹_›
    · exact h.keyed kid e he
  · intro kid e he hd
    rw [load_save] at he
    split at he
    · cases he
      exact hblank hd
    · exact h.blank kid e he hd

theorem mem_of_loaded (h : KeyStep P a P') {e₀ : EncryptionKeyEntry} (he₀ : e₀ ∈ loaded a.toEntry) :
    (∃ kid, P.shared.store.load kid = some e₀) ∧ destroys a.cmd = none := by
  have hanswer := answer_of_step h
  obtain ⟨⟨x, c, r⟩, i⟩ := a
  cases c with
  | loadForTenant tenantId =>
    have hr : P.shared.store.loadForTenant tenantId = r := hanswer
    have he : e₀ ∈ P.shared.store.loadForTenant tenantId := hr ▸ he₀
    exact ⟨Dict.mem_values.mp (mem_loadForTenant.mp he).1, rfl⟩
  | loadForScope scope =>
    have hr : P.shared.store.loadForScope scope = r := hanswer
    have he : e₀ ∈ P.shared.store.loadForScope scope := hr ▸ he₀
    exact ⟨Dict.mem_values.mp (mem_loadForScope.mp he).1, rfl⟩
  | save | listTenants | destroyScope | self | assign => cases he₀

/-- What a step reports as destroyed is destroyed after it. -/
theorem erased_of_step (h : KeyStep P a P') {kid : String} (hkid : kid ∈ destroyedKids a.toEntry) :
    Erased P'.shared.store kid := by
  have hstore := store_of_step h
  have hanswer := answer_of_step h
  obtain ⟨⟨x, c, r⟩, i⟩ := a
  cases c with
  | destroyScope scope now =>
    have hr : (P.shared.store.destroyScope scope now).1 = r := hanswer
    have hmem : kid ∈ (P.shared.store.destroyScope scope now).1 := hr ▸ hkid
    obtain ⟨e, he, hdoomed⟩ := mem_destroyScope_fst.mp hmem
    refine ⟨e.tombstone now, ?_, rfl, nofun⟩
    rw [hstore]
    exact load_destroyScope.trans (by rw [he, Option.map_some, if_pos hdoomed])
  | save | loadForTenant | loadForScope | listTenants | self | assign => cases hkid

section

variable (hkids : Function.Injective fun i => (calls i).draw.kid) (h : Shredded calls l P)
  (hown : SavesOwn (calls a.thread).draw (Pool.log a.thread l) a.cmd)
  (hfresh : WritesBackFresh l P a)

include hkids h hown hfresh

/-- What may be saved: a copy of an entry that agrees with the stored one about being destroyed, or
an entry with a new identifier. -/
theorem saved_of_shredded {entry : EncryptionKeyEntry} (hentry : saves a.cmd = some entry) :
    (entry.isDestroyed = true → entry.keyMaterial = []) ∧
      ((∃ e, P.shared.store.load entry.kid = some e ∧ entry.scope = e.scope ∧
          (entry.isDestroyed = true ↔ e.isDestroyed = true)) ∨
        (P.shared.store.load entry.kid = none ∧ (calls a.thread).draw.kid = entry.kid ∧
          entry.isPrimary = true)) := by
  cases hprimary : entry.isPrimary with
  | false =>
    obtain ⟨l₁, b, l₂, hl, -, ⟨e₀, he₀, rfl⟩, hspares⟩ := hfresh entry hentry hprimary
    obtain ⟨hblank, e, he, hscope, hstays, hsince⟩ := h.copies l₁ b l₂ hl e₀ he₀
    exact ⟨hblank, .inl ⟨e, he, hscope.symm, hstays, hsince hspares⟩⟩
  | true =>
    rcases hown entry hentry with ⟨x, -, e₀, -, rfl⟩ | ⟨hkid, -, halive, hfirst⟩
    · cases hprimary
    · refine ⟨fun hd => ?_, .inr ⟨?_, hkid.symm, rfl⟩⟩
      · simp [EncryptionKeyEntry.isDestroyed, halive] at hd
      · -- a stored entry with this identifier was saved by the same thread
        by_contra hsome
        obtain ⟨e, he⟩ := Option.ne_none_iff_exists'.mp hsome
        obtain ⟨b, hb, hdraw, entry', hentry', hprimary'⟩ := h.drawn entry.kid e he
        have hthread : b.thread = a.thread := hkids (hdraw.trans hkid)
        have hmem : b.toEntry ∈ Pool.log a.thread l := Pool.mem_log.mpr ⟨b, hb, hthread, rfl⟩
        rw [hfirst _ hmem entry' hentry'] at hprimary'
        cases hprimary'

/-- **What a step does to the store.** -/
theorem evolves_of_step (hst : KeyStep P a P') :
    Evolves a.cmd P.shared.store P'.shared.store ∧ WellKept P'.shared.store ∧
      ∀ kid e, P'.shared.store.load kid = some e → (∃ e₀, P.shared.store.load kid = some e₀) ∨
        ((calls a.thread).draw.kid = kid ∧
          ∃ entry, saves a.cmd = some entry ∧ entry.isPrimary = true) := by
  rw [store_of_step hst]
  cases hcmd : a.cmd with
  | save entry =>
    have hentry : saves a.cmd = some entry := by
      rw [hcmd]
      rfl
    obtain ⟨hblank, hcase⟩ := saved_of_shredded hkids h hown hfresh hentry
    refine ⟨fun kid e he => ?_, wellKept_save h.kept hblank, fun kid e he => ?_⟩
    · by_cases hkid : kid = entry.kid
      · subst hkid
        rcases hcase with ⟨e', he', hscope, hiff⟩ | ⟨hnone, -⟩
        · cases he.symm.trans he'
          exact ⟨entry, load_save.trans (if_pos rfl), hscope, hiff.mpr, fun _ => hiff.mp⟩
        · rw [hnone] at he
          cases he
      · exact ⟨e, load_save.trans (by rw [if_neg hkid, he]), rfl, id, fun _ hd => hd⟩
    · have he' := load_save.symm.trans he
      by_cases hkid : kid = entry.kid
      · rcases hcase with ⟨e₀, he₀, -⟩ | ⟨-, hdraw, hprimary⟩
        · exact .inl ⟨e₀, hkid ▸ he₀⟩
        · exact .inr ⟨hdraw.trans hkid.symm, entry, rfl, hprimary⟩
      · rw [if_neg hkid] at he'
        exact .inl ⟨e, he'⟩
  | destroyScope scope now =>
    refine ⟨evolves_destroyScope scope now, wellKept_destroyScope h.kept scope now, ?_⟩
    intro kid e he
    have he' := load_destroyScope.symm.trans he
    obtain ⟨e₀, he₀, -⟩ := Option.map_eq_some_iff.mp he'
    exact .inl ⟨e₀, he₀⟩
  | loadForTenant | loadForScope | listTenants | self | assign =>
    exact ⟨evolves_refl, h.kept, fun kid e he => .inl ⟨e, he⟩⟩

end

omit [DecidableEq ι] in
theorem erased_of_evolves (h : Evolves c store store') (hkept : WellKept store') {kid : String}
    (he : Erased store kid) : Erased store' kid := by
  obtain ⟨e, hload, -, hd⟩ := he
  obtain ⟨e', hload', -, hstays, -⟩ := h kid e hload
  have hd' : e'.isDestroyed = true := hstays (Option.isSome_iff_ne_none.mpr hd)
  exact ⟨e', hload', hkept.blank kid e' hload' hd', Option.isSome_iff_ne_none.mp hd'⟩

/-- **One step.** -/
theorem shredded_snoc (hkids : Function.Injective fun i => (calls i).draw.kid)
    (h : Shredded calls l P) (hown : SavesOwn (calls a.thread).draw (Pool.log a.thread l) a.cmd)
    (hfresh : WritesBackFresh l P a) (hst : KeyStep P a P') : Shredded calls (l ++ [a]) P' := by
  obtain ⟨hevolves, hkept, hnew⟩ := evolves_of_step hkids h hown hfresh hst
  refine ⟨hkept, fun kid e he => ?_, fun l₁ b l₂ hl e₀ he₀ => ?_, fun d hd kid hkid => ?_⟩
  · rcases hnew kid e he with ⟨e₀, he₀⟩ | ⟨hdraw, hentry⟩
    · obtain ⟨b, hb, hrest⟩ := h.drawn kid e₀ he₀
      exact ⟨b, mem_append_left _ hb, hrest⟩
    · exact ⟨a, by simp, hdraw, hentry⟩
  · rcases eq_nil_or_concat l₂ with rfl | ⟨l₃, b', rfl⟩
    · -- the entry was read by this step
      obtain ⟨rfl, hab⟩ := append_inj' hl rfl
      cases hab
      obtain ⟨⟨kid, hload⟩, hspares⟩ := mem_of_loaded hst he₀
      obtain ⟨e, he, hscope, hstays, hsince⟩ := hevolves kid e₀ hload
      have hkid : e₀.kid = kid := h.kept.keyed kid e₀ hload
      refine ⟨h.kept.blank kid e₀ hload, e, hkid.symm ▸ he, hscope, hstays, fun _ => ?_⟩
      exact hsince (spares_of_destroys hspares)
    · rw [concat_eq_append, ← cons_append, ← append_assoc] at hl
      obtain ⟨rfl, hab⟩ := append_inj' hl rfl
      cases hab
      obtain ⟨hblank, e, he, hscope, hstays, hsince⟩ := h.copies l₁ b l₃ rfl e₀ he₀
      obtain ⟨e', he', hscope', hstays', hsince'⟩ := hevolves e₀.kid e he
      refine ⟨hblank, e', he', hscope'.trans hscope, fun hd => hstays' (hstays hd), ?_⟩
      intro hspares hd
      refine hsince (fun d hd => hspares d (by simp [hd])) (hsince' ?_ hd)
      rw [hscope]
      exact hspares a (by simp)
  · rcases mem_append.mp hd with hd | hd
    · exact erased_of_evolves hevolves hkept (h.erased d hd kid hkid)
    · rw [mem_singleton.mp hd] at hkid
      exact erased_of_step hst hkid

end

section

variable {calls : ι → KeyCall F} {master : Option (FernetFieldEncryptor F)}
  {l : List (KeyEvent F ι)} {P : KeyPool F ι}

theorem shredded_of_run (hkids : Function.Injective fun i => (calls i).draw.kid)
    (h : Guarded KeyStep WritesBackFresh (keyPool master calls) l P) : Shredded calls l P := by
  refine h.invariant (I := Shredded calls) ?_ ?_
  · refine ⟨⟨fun kid e he => ?_, fun kid e he => ?_⟩, fun kid e he => ?_, fun l₁ a l₂ hl => ?_, ?_⟩
    · cases he
    · cases he
    · cases he
    · simp at hl
    · intro d hd
      cases hd
  · intro l P a P' hrun hfresh hst hsound
    have hlocal : ∀ i, Saving (calls i).draw ((keyPool master calls).prog i) [] :=
      fun i => saving_prog (calls i)
    have hsnoc : Run KeyStep (keyPool master calls) (l ++ a :: []) P' :=
      hrun.run.append (.single hst)
    have hown := Pool.issued (fun _ _ _ _ _ _ _ => trivial) hlocal hsnoc
    exact shredded_snoc hkids hsound hown hfresh hst

/-- **A destroyed key stays destroyed**, in every run in which no rotation writes back a copy of an
entry that it has read before the scope of the entry was destroyed. -/
theorem destroyed_stays_destroyed (hkids : Function.Injective fun i => (calls i).draw.kid)
    (h : Guarded KeyStep WritesBackFresh (keyPool master calls) l P) {d : KeyEvent F ι} (hd : d ∈ l)
    {kid : String} (hkid : kid ∈ destroyedKids d.toEntry) : Erased P.shared.store kid :=
  (shredded_of_run hkids h).erased d hd kid hkid

end

theorem length_aliceKey : (List.replicate 32 (1 : UInt8)).length = 32 := rfl

theorem length_rotatedKey : (List.replicate 32 (2 : UInt8)).length = 32 := rfl

def aliceCalls : Fin 3 → KeyCall Fernet.plain
  | 0 => ⟨0, .buildScopedRegistry "alice", ⟨"a", ⟨List.replicate 32 1, length_aliceKey⟩, [], 0⟩⟩
  | 1 => ⟨0, .rotateScope "alice", ⟨"b", ⟨List.replicate 32 2, length_rotatedKey⟩, [], 1⟩⟩
  | 2 => ⟨0, .destroyScope "alice" none, ⟨"c", ⟨List.replicate 32 3, rfl⟩, [], 2⟩⟩

def aliceKey : EncryptionKeyEntry :=
  .new "a" "fernet" (List.replicate 32 1) 0 none true false (some "alice")

def aliceEvents : Fin 5 → KeyEvent Fernet.plain (Fin 3)
  | 0 => ⟨⟨(), .loadForScope (some "alice"), []⟩, 0⟩
  | 1 => ⟨⟨(), .save aliceKey, ()⟩, 0⟩
  | 2 => ⟨⟨(), .loadForScope (some "alice"), [aliceKey]⟩, 1⟩
  | 3 => ⟨⟨(), .save aliceKey.demoted, ()⟩, 1⟩
  | 4 => ⟨⟨(), .destroyScope "alice" 2, ["a"]⟩, 2⟩

theorem injective_aliceCalls : Function.Injective fun i => (aliceCalls i).draw.kid := by
  have h : ∀ i j, (aliceCalls i).draw.kid = (aliceCalls j).draw.kid → i = j := by decide
  exact fun i j => h i j

/-- The rotation saves its copy before the scope is destroyed. -/
theorem destroyed_stays_destroyed_alice : ∃ P,
    Guarded KeyStep WritesBackFresh (keyPool none aliceCalls) (List.map aliceEvents [0, 1, 2, 3, 4])
      P ∧ Erased P.shared.store "a" := by
  have hrun : ∃ P, Run KeyStep (keyPool none aliceCalls) (List.map aliceEvents [0, 1, 2, 3, 4]) P :=
    ⟨_, Pool.run_of_sched (q := [(0, ()), (0, ()), (1, ()), (1, ()), (2, ())]) rfl⟩
  obtain ⟨P, hrun⟩ := hrun
  have hguarded : Guarded KeyStep WritesBackFresh (keyPool none aliceCalls)
      (List.map aliceEvents [0, 1, 2, 3, 4]) P := by
    refine Guarded.of_run hrun fun l₁ a l₂ _ hl _ entry hentry hprimary => ?_
    -- the only copy that is saved was read just before
    rcases l₁ with _ | ⟨x₀, _ | ⟨x₁, _ | ⟨x₂, _ | ⟨x₃, _ | ⟨x₄, l₁⟩⟩⟩⟩⟩
    all_goals simp only [map_cons, map_nil, nil_append, cons_append,
      List.cons.injEq] at hl
    · obtain ⟨rfl, -⟩ := hl
      cases hentry
    · obtain ⟨-, rfl, -⟩ := hl
      cases hentry
      cases hprimary
    · obtain ⟨-, -, rfl, -⟩ := hl
      cases hentry
    · obtain ⟨rfl, rfl, rfl, rfl, -⟩ := hl
      cases hentry
      refine ⟨[aliceEvents 0, aliceEvents 1], aliceEvents 2, [], rfl, rfl, ⟨aliceKey, ?_, rfl⟩, ?_⟩
      · exact mem_singleton_self _
      · intro d hd
        cases hd
    · obtain ⟨-, -, -, -, rfl, -⟩ := hl
      cases hentry
    · simp at hl
  have hd : aliceEvents 4 ∈ List.map aliceEvents [0, 1, 2, 3, 4] := by simp
  exact ⟨P, hguarded,
    destroyed_stays_destroyed injective_aliceCalls hguarded hd (mem_singleton_self _)⟩

/-- The rotation saves its copy after the scope was destroyed: the key is back. -/
theorem rotation_restores :
    (Function.Injective fun i => (aliceCalls i).draw.kid) ∧
      ∃ l P, Run KeyStep (keyPool none aliceCalls) l P ∧
        ∃ d ∈ l, ∃ kid ∈ destroyedKids d.toEntry, ∃ e, P.shared.store.load kid = some e ∧
          e.keyMaterial ≠ [] ∧ e.destroyedAt = none := by
  refine ⟨injective_aliceCalls, List.map aliceEvents [0, 1, 2, 4, 3], _,
    Pool.run_of_sched (q := [(0, ()), (0, ()), (1, ()), (2, ()), (1, ())]) rfl, ?_⟩
  refine ⟨aliceEvents 4, by simp, "a", mem_singleton_self _, aliceKey.demoted, rfl, ?_, rfl⟩
  decide

end Varco
