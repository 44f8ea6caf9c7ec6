import Mathlib.Data.List.Infix
import Varco.Tenancy.CachedCatalog

/-!
# The cached catalog and its store

Once a call that changes a tenant has returned, a `get` that begins later answers with what the
store has held since (`NeverBack`). That holds of the runs in which a `get` installs no row that was
replaced before a call for its tenant returned, `add` caches what the store holds, and
`update_status` and `remove` leave no negative entry in force for a tenant that has a row
(`Current`). What is cached for the tenant is then always something that the store has held since
the call returned (`Since`).
-/

namespace Varco

namespace CachedTenantCatalog

variable {cfg : Config} {store : TenantCatalog} {ι : Type} [DecidableEq ι] {rows : TenantRows}

/-! ## What is promised -/

/-- In the run, after the labels `l₀` and until now, the row of the tenant was `row`. -/
def Seen (cfg : Config) (store : TenantCatalog) (ι : Type) [DecidableEq ι] (rows : TenantRows)
    (l₀ l : List (ι × ℚ × Input)) (tenantId : String) (row : Option TenantDescriptor) : Prop :=
  ∃ l₁ w, l₀ ++ l₁ <+: l ∧ Run (Step cfg store) (fresh ι rows) (l₀ ++ l₁) w ∧
    w.shared.rows.get? tenantId = row

/-- A `get` that was not called yet when a call for its tenant returned, answers with a row that the
store has had since then. -/
def NeverBack (cfg : Config) (store : TenantCatalog) (rows : TenantRows)
    (l : List (ι × ℚ × Input)) (w : Callers ι) : Prop :=
  ∀ l₀ x l₁ u j change row, l = l₀ ++ [x] ++ l₁ →
    Run (Step cfg store) (fresh ι rows) (l₀ ++ [x]) u →
    u.phase x.1 = .returned change → u.phase j = .idle →
    w.phase j = .answered change.tenantId row →
    Seen cfg store ι rows (l₀ ++ [x]) l change.tenantId row

/-- What is asked of a step in this phase at the time `now`. -/
def Current (cfg : Config) (s : State) (now : ℚ) : Phase → Prop
  | .installing tenantId _ row returns =>
    s.rows.get? tenantId = row ∨ s.returns tenantId = returns
  | .locking (.add descriptor) => s.rows.get? descriptor.tenantId = some descriptor
  | .locking (.updateStatus tenantId _) | .locking (.remove tenantId) =>
    ∀ negAt ∈ s.negativeCache.get? tenantId,
      s.rows.get? tenantId = none ∨ cfg.negativeCacheWindow < now - negAt
  | _ => True

instance (cfg : Config) (s : State) (now : ℚ) : DecidablePred (Current cfg s now)
  | .installing tenantId _ row returns =>
    inferInstanceAs (Decidable (s.rows.get? tenantId = row ∨ s.returns tenantId = returns))
  | .locking (.add descriptor) =>
    inferInstanceAs (Decidable (s.rows.get? descriptor.tenantId = some descriptor))
  | .locking (.updateStatus tenantId _) | .locking (.remove tenantId) =>
    inferInstanceAs (Decidable (∀ negAt ∈ s.negativeCache.get? tenantId,
      s.rows.get? tenantId = none ∨ cfg.negativeCacheWindow < now - negAt))
  | .locking (.onCatalogChanged _) | .idle | .lookup _ _ | .reading _ _ | .storing _ | .answered _ _
  | .returned _ | .raised _ => inferInstanceAs (Decidable True)

/-- What a call does in one step, with the clock set. -/
inductive Moves (cfg : Config) (s : State) : Phase → State → Phase → Prop
  | begins (c : Call) : Moves cfg s .idle s (start s c)
  | elsewhere (changed : TenantRows) : Moves cfg s .idle { s with rows := changed } .idle
  | finds (tenantId : String) (now : ℚ) (row : Option TenantDescriptor)
      (hfound : (∃ descriptor cachedAt, row = some descriptor ∧
          s.cache.get? tenantId = some (descriptor, cachedAt)) ∨
        row = none ∧ ∃ negAt, s.negativeCache.get? tenantId = some negAt ∧
          now - negAt ≤ cfg.negativeCacheWindow) :
      Moves cfg s (.lookup tenantId now) s (.answered tenantId row)
  | misses (tenantId : String) (now : ℚ) :
      Moves cfg s (.lookup tenantId now) s (.reading tenantId now)
  | reads (tenantId : String) (now : ℚ) :
      Moves cfg s (.reading tenantId now) s
        (.installing tenantId now (s.rows.get? tenantId) (s.returns tenantId))
  | installs (tenantId : String) (now : ℚ) (row : Option TenantDescriptor) (returns : ℕ) :
      Moves cfg s (.installing tenantId now row returns) (install tenantId now row s)
        (.answered tenantId row)
  | stores (change : Change) (written : TenantRows) :
      Moves cfg s (.storing change) { s with rows := written } (.locking change)
  | touches (change : Change) :
      Moves cfg s (.locking change)
        { touch change s with
          returns := Function.update s.returns change.tenantId (s.returns change.tenantId + 1) }
        (.returned change)
  | fails (p : Phase) (e : Exc)
      (hp : (∃ tenantId now, p = .reading tenantId now) ∨ ∃ change, p = .storing change) :
      Moves cfg s p s (.raised e)

section

variable {s s' : State} {p p' : Phase}

theorem lookupNegative_moves (tenantId : String) (now : ℚ) (s : State) :
    Moves cfg s (.lookup tenantId now) s (lookupNegative cfg tenantId now s) := by
  unfold lookupNegative
  cases hneg : s.negativeCache.get? tenantId with
  | none => exact .misses tenantId now
  | some negAt =>
    by_cases hlive : now - negAt ≤ cfg.negativeCacheWindow
    · simp only [if_pos hlive]
      exact .finds tenantId now none (.inr ⟨rfl, negAt, hneg, hlive⟩)
    · simp only [if_neg hlive]
      exact .misses tenantId now

theorem lookup_moves (tenantId : String) (now : ℚ) (s : State) :
    Moves cfg s (.lookup tenantId now) s (lookup cfg tenantId now s) := by
  unfold lookup
  cases hcache : s.cache.get? tenantId with
  | none => exact lookupNegative_moves tenantId now s
  | some found =>
    by_cases hlive : now - found.2 ≤ cfg.catalogTtl
    · simp only [if_pos hlive]
      exact .finds tenantId now (some found.1) (.inl ⟨found.1, found.2, rfl, hcache⟩)
    · simp only [if_neg hlive]
      exact lookupNegative_moves tenantId now s

theorem moves_of_resume {fault : Option Exc} (h : resume cfg store fault s p = some (s', p')) :
    Moves cfg s p s' p' := by
  cases p with
  | lookup tenantId now =>
    cases h
    exact lookup_moves tenantId now s
  | reading tenantId now =>
    cases fault with
    | some e =>
      cases h
      exact .fails _ e (.inl ⟨tenantId, now, rfl⟩)
    | none =>
      cases h
      exact .reads tenantId now
  | installing tenantId now row returns =>
    cases h
    exact .installs tenantId now row returns
  | storing change =>
    cases fault with
    | some e =>
      cases h
      exact .fails _ e (.inr ⟨change, rfl⟩)
    | none =>
      have hstored : stored store change s = (s', p') := Option.some.inj h
      unfold stored at hstored
      cases hwrite : write store change s.rows with
      | error e =>
        rw [hwrite] at hstored
        cases hstored
        exact .fails _ _ (.inr ⟨change, rfl⟩)
      | ok written =>
        rw [hwrite] at hstored
        cases hstored
        exact .stores change written
  | locking change =>
    cases h
    exact .touches change
  | _ => cases h

/-- **What one step does.** -/
theorem moves_of_next {a : ℚ × Input} (h : next cfg store a s p = some (s', p')) :
    s.clock ≤ a.1 ∧ Moves cfg { s with clock := a.1 } p s' p' := by
  unfold next at h
  split_ifs at h with hclock
  refine ⟨not_lt.mp hclock, ?_⟩
  obtain ⟨now, input⟩ := a
  cases input with
  | call c =>
    cases p with
    | idle =>
      cases h
      exact .begins c
    | _ => cases h
  | resume fault => exact moves_of_resume h
  | elsewhere tenantId row =>
    cases p with
    | idle =>
      cases h
      exact .elsewhere _
    | _ => cases h

theorem Moves.of_lookup {tenantId : String} {now : ℚ}
    (h : Moves cfg s p s' (.lookup tenantId now)) : now = s.clock := by
  generalize hp' : Phase.lookup tenantId now = p' at h
  cases h with
  | begins c =>
    cases c with
    | get =>
      cases hp'
      rfl
    | change c => cases c <;> cases hp'
  | _ => cases hp'

theorem Moves.of_installing {tenantId : String} {now : ℚ} {row : Option TenantDescriptor} {m : ℕ}
    (h : Moves cfg s p s' (.installing tenantId now row m)) :
    row = s.rows.get? tenantId ∧ m = s.returns tenantId := by
  generalize hp' : Phase.installing tenantId now row m = p' at h
  cases h with
  | begins c =>
    cases c with
    | get => cases hp'
    | change c => cases c <;> cases hp'
  | reads =>
    cases hp'
    exact ⟨rfl, rfl⟩
  | _ => cases hp'

theorem Moves.of_answered {tenantId : String} {row : Option TenantDescriptor}
    (h : Moves cfg s p s' (.answered tenantId row)) :
    (∃ now, p = .lookup tenantId now ∧ ((∃ descriptor cachedAt, row = some descriptor ∧
        s.cache.get? tenantId = some (descriptor, cachedAt)) ∨
      row = none ∧ ∃ negAt, s.negativeCache.get? tenantId = some negAt ∧
        now - negAt ≤ cfg.negativeCacheWindow)) ∨
      ∃ now m, p = .installing tenantId now row m := by
  generalize hp' : Phase.answered tenantId row = p' at h
  cases h with
  | begins c =>
    cases c with
    | get => cases hp'
    | change c => cases c <;> cases hp'
  | finds t now r hfound =>
    cases hp'
    exact .inl ⟨now, rfl, hfound⟩
  | installs t now r m =>
    cases hp'
    exact .inr ⟨now, m, rfl⟩
  | _ => cases hp'

end

/-! ## What is cached -/

section

variable {l₀ l l' : List (ι × ℚ × Input)} {tenantId : String} {row : Option TenantDescriptor}
  {w w' : Callers ι} {a : ι × ℚ × Input} {n : ℕ} {c : ℚ} {j : ι}

theorem Seen.mono (h : Seen cfg store ι rows l₀ l tenantId row) (hl : l <+: l') :
    Seen cfg store ι rows l₀ l' tenantId row := by
  obtain ⟨l₁, u, hprefix, hrun, hrow⟩ := h
  exact ⟨l₁, u, hprefix.trans hl, hrun, hrow⟩

theorem Seen.now {l₁ : List (ι × ℚ × Input)}
    (h : Run (Step cfg store) (fresh ι rows) (l₀ ++ l₁) w) :
    Seen cfg store ι rows l₀ (l₀ ++ l₁) tenantId (w.shared.rows.get? tenantId) :=
  ⟨l₁, w, List.prefix_rfl, h, rfl⟩

/-- What has been so since a call for the tenant returned at the time `c`, as the `n`-th one: what
is cached was seen since then, and so was what a `get` has read since then, the one of the task `j`
in particular. -/
structure Since (seen : Option TenantDescriptor → Prop) (cfg : Config) (tenantId : String) (n : ℕ)
    (c : ℚ) (j : ι) (w : Callers ι) : Prop where
  clock : c ≤ w.shared.clock
  returns : n ≤ w.shared.returns tenantId
  cache : ∀ descriptor cachedAt,
    w.shared.cache.get? tenantId = some (descriptor, cachedAt) → seen (some descriptor)
  negative : ∀ negAt, w.shared.negativeCache.get? tenantId = some negAt →
    seen none ∨ cfg.negativeCacheWindow < c - negAt
  installing : ∀ i now row m, w.phase i = .installing tenantId now row m → n ≤ m → seen row
  called : ∀ now, w.phase j = .lookup tenantId now → c ≤ now
  read : ∀ now row m, w.phase j = .installing tenantId now row m → n ≤ m
  answered : ∀ row, w.phase j = .answered tenantId row → seen row

/-- A `get` that has read the store counts calls that have returned. -/
def Counted (w : Callers ι) : Prop :=
  ∀ i tenantId now row m, w.phase i = .installing tenantId now row m →
    m ≤ w.shared.returns tenantId

omit [DecidableEq ι] in
theorem Since.mono {seen seen' : Option TenantDescriptor → Prop}
    (h : Since seen cfg tenantId n c j w) (hseen : ∀ row, seen row → seen' row) :
    Since seen' cfg tenantId n c j w where
  clock := h.clock
  returns := h.returns
  cache d t hd := hseen _ (h.cache d t hd)
  negative t ht := (h.negative t ht).imp_left (hseen _)
  installing i now row m hi hm := hseen _ (h.installing i now row m hi hm)
  called := h.called
  read := h.read
  answered row hrow := hseen _ (h.answered row hrow)

variable {seen : Option TenantDescriptor → Prop}

variable {s' : State}

variable {p' : Phase}

/-- What a step leaves in the cache of the tenant was there or is seen. -/
theorem cache_moves
    (h : Since seen cfg tenantId n c j w) (hcur : Current cfg w.shared a.2.1 (w.phase a.1))
    (hseen : seen (w.shared.rows.get? tenantId))
    (hm : Moves cfg { w.shared with clock := a.2.1 } (w.phase a.1) s' p') :
    ∀ descriptor cachedAt, s'.cache.get? tenantId = some (descriptor, cachedAt) →
      seen (some descriptor) := by
  intro descriptor cachedAt hget
  generalize hp : w.phase a.1 = p at hm hcur
  cases hm with
  | installs t now row m =>
    cases row with
    | none =>
      simp only [install, Dict.get?_erase] at hget
      split_ifs at hget
      exact h.cache _ _ hget
    | some found =>
      simp only [install, Dict.get?_set] at hget
      split_ifs at hget with ht
      · cases hget
        subst ht
        rcases hcur with hrow | hcount
        · rwa [hrow] at hseen
        · exact h.installing a.1 _ _ m hp (hcount ▸ h.returns)
      · exact h.cache _ _ hget
  | touches change =>
    cases change with
    | add found =>
      simp only [touch, Dict.get?_set] at hget
      split_ifs at hget with ht
      · cases hget
        subst ht
        rwa [show w.shared.rows.get? descriptor.tenantId = some descriptor from hcur] at hseen
      · exact h.cache _ _ hget
    | updateStatus t | remove t | onCatalogChanged t =>
      simp only [touch, Dict.get?_erase] at hget
      split_ifs at hget
      exact h.cache _ _ hget
  | _ => exact h.cache _ _ hget

omit [DecidableEq ι] in
theorem negative_moves
    (h : Since seen cfg tenantId n c j w) (hcur : Current cfg w.shared a.2.1 (w.phase a.1))
    (hseen : seen (w.shared.rows.get? tenantId))
    (hm : Moves cfg { w.shared with clock := a.2.1 } (w.phase a.1) s' p') :
    ∀ negAt, s'.negativeCache.get? tenantId = some negAt →
      seen none ∨ cfg.negativeCacheWindow < c - negAt := by
  intro negAt hget
  generalize hp : w.phase a.1 = p at hm hcur
  cases hm with
  | installs t now row m =>
    cases row with
    | none =>
      simp only [install, Dict.get?_set] at hget
      split_ifs at hget with ht
      · subst ht
        left
        rcases hcur with hrow | hcount
        · rwa [hrow] at hseen
        · exact h.installing a.1 _ _ m hp (hcount ▸ h.returns)
      · exact h.negative _ hget
    | some found =>
      simp only [install, Dict.get?_erase] at hget
      split_ifs at hget
      exact h.negative _ hget
  | touches change =>
    cases change with
    | updateStatus | remove => exact h.negative _ hget
    | add | onCatalogChanged =>
      simp only [touch, Dict.get?_erase] at hget
      split_ifs at hget
      exact h.negative _ hget
  | _ => exact h.negative _ hget

theorem returns_moves {s : State} {p : Phase} (hm : Moves cfg s p s' p') (t : String) :
    s.returns t ≤ s'.returns t := by
  cases hm with
  | installs _ _ row => cases row <;> exact le_rfl
  | touches change =>
    simp only [Function.update_apply]
    split_ifs with ht
    · rw [ht]
      exact Nat.le_succ _
    · exact le_rfl
  | _ => exact le_rfl

theorem clock_moves {s : State} {p : Phase} (hm : Moves cfg s p s' p') :
    s'.clock = s.clock := by
  cases hm with
  | installs _ _ row => cases row <;> rfl
  | touches change => cases change <;> rfl
  | _ => rfl

theorem rows_touch (change : Change) (s : State) : (touch change s).rows = s.rows := by
  cases change <;> rfl

/-- **What was so since the call returned stays so.** -/
theorem since_moves
    (h : Since seen cfg tenantId n c j w) (hcur : Current cfg w.shared a.2.1 (w.phase a.1))
    (hseen : seen (w.shared.rows.get? tenantId)) (hclock : w.shared.clock ≤ a.2.1)
    (hm : Moves cfg { w.shared with clock := a.2.1 } (w.phase a.1) s' p') :
    Since seen cfg tenantId n c j (w.put a.1 (s', p')) where
  clock := by
    rw [Tasks.put_shared, clock_moves hm]
    exact h.clock.trans hclock
  returns := h.returns.trans (returns_moves hm tenantId)
  cache := cache_moves h hcur hseen hm
  negative := negative_moves h hcur hseen hm
  installing := by
    intro i now row m hi hnm
    by_cases hia : i = a.1
    · rw [hia, Tasks.put_phase_self] at hi
      subst hi
      rw [hm.of_installing.1]
      exact hseen
    · rw [Tasks.put_phase_of_ne hia] at hi
      exact h.installing i now row m hi hnm
  called := by
    intro now hj
    by_cases hja : j = a.1
    · rw [hja, Tasks.put_phase_self] at hj
      subst hj
      rw [hm.of_lookup]
      exact h.clock.trans hclock
    · rw [Tasks.put_phase_of_ne hja] at hj
      exact h.called now hj
  read := by
    intro now row m hj
    by_cases hja : j = a.1
    · rw [hja, Tasks.put_phase_self] at hj
      subst hj
      rw [hm.of_installing.2]
      exact h.returns
    · rw [Tasks.put_phase_of_ne hja] at hj
      exact h.read now row m hj
  answered := by
    intro row hj
    by_cases hja : j = a.1
    · rw [hja, Tasks.put_phase_self] at hj
      subst hj
      rcases hm.of_answered with ⟨now, hp, hfound⟩ | ⟨now, m, hp⟩
      · rcases hfound with ⟨descriptor, cachedAt, rfl, hget⟩ | ⟨rfl, negAt, hget, hlive⟩
        · exact h.cache _ _ hget
        · -- the entry is in force, so it was not yet out of date when the call returned
          refine (h.negative negAt hget).resolve_right fun hold => ?_
          have hcalled := h.called now (by rw [hja, hp])
          exact absurd (hlive.trans_lt hold) (by simpa using hcalled)
      · exact h.installing a.1 now row m hp (h.read now row m (by rw [hja, hp]))
    · rw [Tasks.put_phase_of_ne hja] at hj
      exact h.answered row hj

theorem counted_moves (h : Counted w)
    (hm : Moves cfg { w.shared with clock := a.2.1 } (w.phase a.1) s' p') :
    Counted (w.put a.1 (s', p')) := by
  intro i t now row m hi
  refine le_trans ?_ (returns_moves hm t)
  by_cases hia : i = a.1
  · rw [hia, Tasks.put_phase_self] at hi
    subst hi
    exact hm.of_installing.2.le
  · rw [Tasks.put_phase_of_ne hia] at hi
    exact h i t now row m hi

theorem Moves.of_returned {s : State} {p : Phase} {change : Change}
    (h : Moves cfg s p s' (.returned change)) : p = .locking change ∧ s' =
      { touch change s with
        returns := Function.update s.returns change.tenantId (s.returns change.tenantId + 1) } := by
  generalize hp' : Phase.returned change = p' at h
  cases h with
  | begins c =>
    cases c with
    | get => cases hp'
    | change c => cases c <;> cases hp'
  | touches =>
    cases hp'
    exact ⟨rfl, rfl⟩
  | _ => cases hp'

/-- **A call returns**: nothing is cached for its tenant that the store does not hold. -/
theorem since_returned {change : Change} (h : Counted w)
    (hcur : Current cfg w.shared a.2.1 (w.phase a.1)) (hst : Step cfg store w a w')
    (hcall : w'.phase a.1 = .returned change) (hj : w'.phase j = .idle)
    (hseen : seen (w'.shared.rows.get? change.tenantId)) :
    Since seen cfg change.tenantId (w'.shared.returns change.tenantId) w'.shared.clock j w' := by
  obtain ⟨⟨s', p'⟩, hnext, rfl⟩ := hst
  obtain ⟨hclock, hm⟩ := moves_of_next hnext
  rw [Tasks.put_phase_self] at hcall
  subst hcall
  obtain ⟨hp, rfl⟩ := hm.of_returned
  rw [hp] at hcur
  have hrows : (touch change { w.shared with clock := a.2.1 }).rows = w.shared.rows := rows_touch ..
  have hnow : (touch change { w.shared with clock := a.2.1 }).clock = a.2.1 := by
    cases change <;> rfl
  simp only [Tasks.put_shared, hrows] at hseen
  constructor
  · exact le_rfl
  · exact le_rfl
  · intro descriptor cachedAt hget
    cases change with
    | add found =>
      simp only [Tasks.put_shared, touch, Change.tenantId, Dict.get?_set_self] at hget hseen
      cases hget
      rwa [show w.shared.rows.get? descriptor.tenantId = some descriptor from hcur] at hseen
    | updateStatus t | remove t | onCatalogChanged t =>
      simp [touch, Change.tenantId] at hget
  · intro negAt hget
    rw [Tasks.put_shared, hnow]
    cases change with
    | add | onCatalogChanged => simp [touch, Change.tenantId] at hget
    | updateStatus t | remove t =>
      rcases hcur negAt hget with hnone | hold
      · exact .inl (by rwa [Change.tenantId, hnone] at hseen)
      · exact .inr hold
  · intro i now row m hi hnm
    have hia : i ≠ a.1 := by
      rintro rfl
      rw [Tasks.put_phase_self] at hi
      cases hi
    rw [Tasks.put_phase_of_ne hia] at hi
    have hle := h i _ now row m hi
    simp only [Tasks.put_shared, Function.update_self] at hnm
    omega
  · intro now hlookup
    cases hj.symm.trans hlookup
  · intro now row m hread
    cases hj.symm.trans hread
  · intro row hanswered
    cases hj.symm.trans hanswered

end

section

variable {l : List (ι × ℚ × Input)} {w w' : Callers ι} {a : ι × ℚ × Input}

theorem counted_run (hrun : Run (Step cfg store) (fresh ι rows) l w) : Counted w := by
  refine hrun.invariant (fun w a w' _ hst h => ?_) (fun i t now row m hi => by cases hi)
  obtain ⟨⟨s', p'⟩, hnext, rfl⟩ := hst
  exact counted_moves h (moves_of_next hnext).2

/-- **The cached catalog does not go back**, in every run whose steps keep it current. -/
theorem never_back
    (hrun : Guarded (Step cfg store)
      (fun _ w a => Current cfg w.shared a.2.1 (w.phase a.1)) (fresh ι rows) l w) :
    NeverBack cfg store rows l w := by
  intro l₀ x l₁ u j change row hl hu hret hj hanswered
  subst hl
  have hdet : ∀ (w : Callers ι) a w₁ w₂, Step cfg store w a w₁ → Step cfg store w a w₂ → w₁ = w₂ :=
    fun _ _ _ _ => Tasks.Step.det
  -- the step with which the call returns
  obtain ⟨u', hguarded, -⟩ := hrun.split
  obtain rfl := hguarded.run.det hdet hu
  obtain ⟨v, hv, hcur, hst⟩ := hguarded.snoc_inv
  have hnow : Seen cfg store ι rows (l₀ ++ [x]) (l₀ ++ [x]) change.tenantId
      (u'.shared.rows.get? change.tenantId) := ⟨[], u', by simp, by simpa using hu, rfl⟩
  have hbegin := since_returned (counted_run hv.run) hcur hst hret hj hnow
  have hsince := hrun.invariant_from (I := fun l w => Since
    (Seen cfg store ι rows (l₀ ++ [x]) l change.tenantId) cfg change.tenantId
      (u'.shared.returns change.tenantId) u'.shared.clock j w) hdet hu hbegin ?_
  · exact hsince.answered row hanswered
  · rintro l w a w' - hw hcur hst hprefix h
    obtain ⟨l', rfl⟩ := hprefix
    obtain ⟨⟨s', p'⟩, hnext, rfl⟩ := hst
    obtain ⟨hclock, hm⟩ := moves_of_next hnext
    refine since_moves (h.mono fun row hrow => hrow.mono (List.prefix_append ..)) hcur ?_ hclock hm
    exact (Seen.now hw.run).mono (List.prefix_append ..)

end

/-- A tenant is suspended between two calls of `get`. -/
theorem never_back_acme :
    ∃ (l : List (Fin 3 × ℚ × Input)) (w : Callers (Fin 3)),
      w.phase 2 = .answered "acme" (some { tenantId := "acme", status := .suspended }) ∧
      NeverBack { catalogTtl := 60, negativeCacheWindow := 5 } StaticTenantCatalog
        (.set .empty "acme" { tenantId := "acme", status := .active }) l w := by
  let cfg : Config := { catalogTtl := 60, negativeCacheWindow := 5 }
  let rows : TenantRows := .set .empty "acme" { tenantId := "acme", status := .active }
  have hrun : Guarded (Step cfg StaticTenantCatalog)
      (fun _ w a => Current cfg w.shared a.2.1 (w.phase a.1)) (fresh (Fin 3) rows)
      [(0, 0, .call (.get "acme")), (0, 0, .resume none), (0, 0, .resume none),
        (0, 0, .resume none), (1, 1, .call (.change (.updateStatus "acme" .suspended))),
        (1, 1, .resume none), (1, 1, .resume none), (2, 2, .call (.get "acme")),
        (2, 2, .resume none), (2, 2, .resume none), (2, 2, .resume none)] _ :=
    Tasks.guarded_of_isSome (fun _ _ _ h => h) (by decide +kernel)
  exact ⟨_, _, by decide +kernel, never_back hrun⟩

/-- A `get` has read that a tenant is active, the tenant is suspended, and then the row that was
read is installed. -/
theorem suspended_tenant_stays_active :
    ∃ (l : List (Fin 3 × ℚ × Input)) (w : Callers (Fin 3)),
      Run (Step { catalogTtl := 60, negativeCacheWindow := 5 } StaticTenantCatalog)
        (fresh (Fin 3) (.set .empty "acme" { tenantId := "acme", status := .active })) l w ∧
      ¬NeverBack { catalogTtl := 60, negativeCacheWindow := 5 } StaticTenantCatalog
        (.set .empty "acme" { tenantId := "acme", status := .active }) l w := by
  let cfg : Config := { catalogTtl := 60, negativeCacheWindow := 5 }
  let rows : TenantRows := .set .empty "acme" { tenantId := "acme", status := .active }
  -- the first `get` reads, the status changes, the first `get` installs, the second one answers
  let read : List (Fin 3 × ℚ × Input) :=
    [(0, 0, .call (.get "acme")), (0, 0, .resume none), (0, 0, .resume none),
      (1, 1, .call (.change (.updateStatus "acme" .suspended))), (1, 1, .resume none)]
  let after : List (Fin 3 × ℚ × Input) :=
    [(0, 2, .resume none), (2, 3, .call (.get "acme")), (2, 3, .resume none)]
  have hreturns : Tasks.advance (next cfg StaticTenantCatalog) (fresh (Fin 3) rows)
      (read ++ [(1, 1, Input.resume none)]) = some _ := rfl
  have hrun : Tasks.advance (next cfg StaticTenantCatalog) (fresh (Fin 3) rows)
      (read ++ [(1, 1, Input.resume none)] ++ after) = some _ := rfl
  refine ⟨_, _, Tasks.run_of_advance hrun, fun hback => ?_⟩
  have hseen := hback read (1, 1, .resume none) after _ 2 (.updateStatus "acme" .suspended)
    (some { tenantId := "acme", status := .active }) rfl (Tasks.run_of_advance hreturns)
    (by decide +kernel) (by decide +kernel) (by decide +kernel)
  obtain ⟨l₁, m, hprefix, hm, hrow⟩ := hseen
  -- the row has not changed since the call returned
  have hsuspended : ∀ l₁ ∈ after.inits, (Tasks.advance (next cfg StaticTenantCatalog)
      (fresh (Fin 3) rows) (read ++ [(1, 1, Input.resume none)] ++ l₁)).map
        (·.shared.rows.get? "acme") =
      some (some { tenantId := "acme", status := .suspended }) := by decide +kernel
  have hlater :=
    hsuspended l₁ ((List.mem_inits ..).mpr ((List.prefix_append_right_inj _).mp hprefix))
  rw [Tasks.advance_of_run hm, Option.map_some, Option.some.injEq] at hlater
  cases hlater.symm.trans hrow

end CachedTenantCatalog

end Varco
