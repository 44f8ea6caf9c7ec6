import Varco.Tenancy.PoolSafety

/-!
# What is left in a pool

After `aclose` the pool should be empty and every resource closed, and an `ensure` that has made a
resource should leave the pool within its cap, or all other entries leased. Both hold of the runs in
which nothing is installed into a closed pool, no resources are left over in another call when
`aclose` returns, the pool is over its cap by one entry, or has one idle entry, when it evicts, and
no last lease ends meanwhile (`Tidy`).
-/

namespace Varco

namespace TenantResourcePool

variable {cfg : Config} {ι : Type}

/-! ## What is promised -/

/-- An `ensure` is running, on its own or for a `lease`. -/
def Phase.ensures : Phase → Bool
  | .creationLock _ _ | .factory _ _ | .poolLock _ _ _ | .evicting _ _ _ => true
  | _ => false

/-- Resources that were taken out of the pool are yet to be passed to the closer. -/
def Phase.pending : Phase → Bool
  | .disposing (_ :: _) _ | .closing (_ :: _) _ => true
  | _ => false

/-- Once `aclose` has returned and no `ensure` is running, the pool is empty and all that the
factory has made was passed to the closer. -/
def Emptied (w : Users ι) : Prop :=
  (∃ i, w.phase i = .shutDown) → (∀ i, (w.phase i).ensures = false) →
    w.shared.entries.entries = [] ∧ ∀ n < w.shared.made, n ∈ w.shared.disposed

/-- The pool is within its cap, or every entry but that of the tenant is leased. -/
def Within (cfg : Config) (tenant : String) (s : State) : Prop :=
  s.entries.entries.length ≤ cfg.maxEntries ∨
    ∀ t entry, t ≠ tenant → s.entries.get? t = some entry → 0 < entry.refcount

/-- An `ensure` that has made a resource returns only to a pool within its cap. -/
def CapKept (cfg : Config) (w : Users ι) (a : ι × ℚ × Input) (w' : Users ι) : Prop :=
  ∀ tenant lease resource,
    w.phase a.1 = .poolLock tenant lease resource ∨
      w.phase a.1 = .evicting tenant lease resource →
    (w'.phase a.1).ensures = false → w.shared.closed = false → Within cfg tenant w'.shared

/-- The next thing that the call does is to return from `aclose`. -/
def ShutsDown (s : State) (p : Phase) (x : Input) : Prop :=
  p = .idle ∧ x = .call .aclose ∧ s.closed = true ∨
    p = .acloseLock ∧ s.entries.entries = [] ∨ p = .closing [] true

/-- What is asked of a step. -/
structure Tidy (cfg : Config) (w : Users ι) (a : ι × ℚ × Input) : Prop where
  installs : ∀ tenant lease resource, w.phase a.1 = .poolLock tenant lease resource →
    w.shared.closed = false
  last : ShutsDown w.shared (w.phase a.1) a.2.2 → ∀ i, i ≠ a.1 → (w.phase i).pending = false
  excess : ∀ tenant lease resource, w.phase a.1 = .poolLock tenant lease resource →
    w.shared.entries.entries.length ≤ cfg.maxEntries ∨
      (idleEntries tenant w.shared.entries).length ≤ 1
  leaves : ∀ tenant resource entry, w.phase a.1 = .leased tenant resource entry →
    ∀ i new lease r, w.phase i = .evicting new lease r →
      w.shared.entries.entries.length ≤ cfg.maxEntries ∨ tenant = new ∨
        ∀ found, w.shared.entries.get? tenant = some found → found.resource = entry →
          found.refcount ≠ 1

/-! ## Shutdown -/

section

variable {s s' : State} {p p' : Phase}

theorem Moves.empty (h : Moves cfg s p s' p') (hempty : s.closed = true → ∀ t, s.resource t = none)
    (hopen : ∀ t lease resource, p = .poolLock t lease resource → s.closed = false)
    (hclosed : s'.closed = true) (t : String) : s'.resource t = none := by
  rcases h.closed_cases with hsame | rfl
  · rw [hsame] at hclosed
    rcases h.resource_cases t with hres | ⟨-, hgone | ⟨lease, resource, hp, -⟩⟩
    · rw [hres, hempty hclosed]
    · exact hgone
    · rw [hopen t lease resource hp] at hclosed
      cases hclosed
  · cases h with
    | touches _ _ _ _ _ hp => simp at hp
    | removes _ _ hp => simp at hp
    | shuts => rfl

theorem Moves.pending (h : Moves cfg s p s' p') (hempty : s.entries.entries = [])
    (hp : p.pending = false) : p'.pending = false := by
  cases h with
  | waits _ hphase =>
    rcases hphase with rfl | ⟨rfl, -⟩ | rfl | ⟨_, _, rfl⟩ | ⟨_, rfl⟩ | ⟨_, rfl⟩ <;> rfl
  | leaves _ _ _ _ hphase => rcases hphase with rfl | ⟨_, rfl⟩ <;> rfl
  | removes _ stale _ _ hsub =>
    rw [hempty, List.sublist_nil] at hsub
    rw [hsub]
    rfl
  | shuts =>
    simp only [Dict.values, hempty]
    rfl
  | goesOn resources => cases resources <;> exact hp
  | ends shutdown => cases shutdown <;> rfl
  | disposes => cases hp
  | _ => rfl

/-- `aclose` is past the pool lock. -/
def Phase.closes : Phase → Bool
  | .closing _ shutdown | .disposing _ shutdown => shutdown
  | .shutDown => true
  | _ => false

/-- Where `aclose` is past the pool lock, the pool is closed. -/
theorem Moves.closes (h : Moves cfg s p s' p') (hcloses : p.closes = true → s.closed = true)
    (hp' : p'.closes = true) : s'.closed = true := by
  cases h with
  | waits _ hphase =>
    rcases hphase with rfl | ⟨rfl, hclosed⟩ | rfl | ⟨_, _, rfl⟩ | ⟨_, rfl⟩ | ⟨_, rfl⟩
    all_goals first | exact hclosed | cases hp'
  | leaves _ _ _ _ hphase => rcases hphase with rfl | ⟨_, rfl⟩ <;> cases hp'
  | shuts => rfl
  | goesOn => exact hcloses hp'
  | ends shutdown =>
    cases shutdown with
    | false => cases hp'
    | true => exact hcloses rfl
  | disposes => exact hcloses hp'
  | _ => cases hp'

theorem Moves.of_shutDown (h : Moves cfg s p s' .shutDown) :
    p = .idle ∧ s.closed = true ∨ p = .disposing [] true := by
  generalize hp' : Phase.shutDown = p' at h
  cases h with
  | waits _ hphase =>
    simp only [← hp', reduceCtorEq, true_and, false_or, or_false, exists_const] at hphase
    exact .inl ⟨rfl, hphase⟩
  | leaves _ _ _ _ hphase => simp [← hp'] at hphase
  | ends shutdown =>
    cases shutdown with
    | false => cases hp'
    | true => exact .inr rfl
  | _ => cases hp'

theorem Moves.of_disposed (h : Moves cfg s p s' (.disposing [] true)) :
    p = .acloseLock ∧ s.entries.entries = [] ∨ p = .closing [] true := by
  generalize hp' : Phase.disposing [] true = p' at h
  cases h with
  | waits _ hphase => simp [← hp'] at hphase
  | leaves _ _ _ _ hphase => simp [← hp'] at hphase
  | shuts =>
    simp only [Phase.disposing.injEq, and_true] at hp'
    simp only [Dict.values, List.map_map] at hp'
    exact .inl ⟨rfl, List.map_eq_nil_iff.mp hp'.symm⟩
  | goesOn =>
    cases hp'
    exact .inr rfl
  | removes => simp at hp'
  | ends shutdown => cases shutdown <;> cases hp'
  | _ => cases hp'

/-- `aclose` returns from an empty pool, or after its last resource. -/
theorem shutsDown_of_next {x : ℚ × Input} (h : next cfg x s p = some (s', .shutDown)) :
    ShutsDown s p x.2 := by
  obtain ⟨q₁, hmoves, rfl | ⟨-, hmoves'⟩⟩ := moves_of_next h
  · rcases hmoves.of_shutDown with ⟨rfl, hclosed⟩ | rfl
    · refine .inl ⟨rfl, ?_, hclosed⟩
      obtain ⟨now, input⟩ := x
      cases input with
      | call c =>
        have hcall : finish (start now c s) = (s', .shutDown) := Option.some.inj h
        rcases @finish_moves cfg (start now c s) with hsame | ⟨-, hfinish⟩
        · rw [hsame] at hcall
          rw [aclose_of_start (.inr (congrArg Prod.snd hcall))]
        · rw [hcall] at hfinish
          have hstart := @start_moves cfg now c s
          rcases hfinish.of_shutDown with ⟨hidle, -⟩ | hdisposed
          · exact absurd hidle hstart.ne_idle
          · rw [hdisposed] at hstart
            rcases hstart.of_disposed with ⟨hlock, -⟩ | hclosing
            · cases hlock
            · cases hclosing
      | resume r => cases h
    · obtain ⟨now, input⟩ := x
      cases input <;> cases h
  · rcases hmoves'.of_shutDown with ⟨hq, -⟩ | hq
    · exact absurd hq hmoves.ne_idle
    · obtain ⟨s₁, p₁⟩ := q₁
      cases hq
      exact .inr hmoves.of_disposed

/-- What is kept while the steps are tidy: a closed pool is empty, and once `aclose` has returned no
resources are left over. -/
structure Drained (w : Users ι) : Prop where
  empty : w.shared.closed = true → ∀ t, w.shared.resource t = none
  closes : ∀ i, (w.phase i).closes = true → w.shared.closed = true
  pending : (∃ i, w.phase i = .shutDown) → ∀ i, (w.phase i).pending = false

theorem drained_fresh : Drained (fresh ι) := by
  constructor
  · intro h
    cases h
  · intro i h
    cases h
  · rintro ⟨i, h⟩
    cases h

theorem resource_empty {s : State} : s.entries.entries = [] ↔ ∀ t, s.resource t = none := by
  simp only [resource_eq_none, Dict.entries_eq_nil]

end

section

variable [DecidableEq ι] {w w' : Users ι} {a : ι × ℚ × Input}

theorem drained_step (h : Drained w) (ht : Tidy cfg w a) (hst : Step cfg w a w') : Drained w' := by
  obtain ⟨q, hnext, rfl⟩ := hst
  have hempty : q.1.closed = true → ∀ t, q.1.resource t = none :=
    next_rule (I := fun s _ => s.closed = true → ∀ t, s.resource t = none) hnext
      (fun s' p' hm hclosed => hm.empty h.empty ht.installs hclosed)
      fun s₁ p₁ s' p' hpassing hm hI hclosed =>
        hm.empty hI (fun t lease r hp => by rw [hp] at hpassing; exact hpassing.elim) hclosed
  have hmono : w.shared.closed = true → q.1.closed = true := by
    intro hclosed
    exact next_rule (I := fun s _ => s.closed = true) hnext (fun s' p' hm => hm.closed_mono hclosed)
      fun s₁ p₁ s' p' _ hm => hm.closed_mono
  have hcloses : q.2.closes = true → q.1.closed = true :=
    next_rule (I := fun s p => p.closes = true → s.closed = true) hnext
      (fun s' p' hm => hm.closes (h.closes a.1)) fun s₁ p₁ s' p' _ hm => hm.closes
  constructor
  · exact hempty
  · intro j hj
    by_cases hji : j = a.1
    · rw [hji, Tasks.put_phase_self] at hj
      exact hcloses hj
    · rw [Tasks.put_phase_of_ne hji] at hj
      exact hmono (h.closes j hj)
  · rintro ⟨i, hi⟩ j
    by_cases hia : i = a.1
    · -- the call returns from `aclose`
      rw [hia, Tasks.put_phase_self] at hi
      by_cases hja : j = a.1
      · rw [hja, Tasks.put_phase_self, hi]
        rfl
      · rw [Tasks.put_phase_of_ne hja]
        have hcall : next cfg a.2 w.shared (w.phase a.1) = some (q.1, .shutDown) := by
          rw [hnext, ← hi]
        exact ht.last (shutsDown_of_next hcall) j hja
    · -- another call has returned from it before
      rw [Tasks.put_phase_of_ne hia] at hi
      have hpending := h.pending ⟨i, hi⟩
      by_cases hja : j = a.1
      · rw [hja, Tasks.put_phase_self]
        have hclosed := h.closes i (by rw [hi]; rfl)
        have hleft : q.1.closed = true ∧ (∀ t, q.1.resource t = none) ∧ q.2.pending = false := by
          refine next_rule (I := fun s p => s.closed = true ∧ (∀ t, s.resource t = none) ∧
            p.pending = false) hnext ?_ ?_
          · intro s' p' hm
            have hclosed' := hm.closed_mono hclosed
            exact ⟨hclosed', hm.empty h.empty ht.installs hclosed',
              hm.pending (resource_empty.mpr (h.empty hclosed)) (hpending a.1)⟩
          · rintro s₁ p₁ s' p' hpassing hm ⟨hclosed₁, hnone, hp₁⟩
            have hclosed' := hm.closed_mono hclosed₁
            refine ⟨hclosed', hm.empty (fun _ => hnone) (fun t lease r hp => ?_) hclosed',
              hm.pending (resource_empty.mpr hnone) hp₁⟩
            rw [hp] at hpassing
            exact hpassing.elim
        exact hleft.2.2
      · rw [Tasks.put_phase_of_ne hja]
        exact hpending j

omit [DecidableEq ι] in
/-- What the calls do not keep any more was passed to the closer. -/
theorem emptied_of_drained (h : Drained w) (hs : Sound w)
    (hsettled : ∀ i, ¬(w.phase i).passing) : Emptied w := by
  rintro ⟨i, hi⟩ hensures
  have hnone := h.empty (h.closes i (by rw [hi]; rfl))
  refine ⟨resource_empty.mpr hnone, fun n hn => ?_⟩
  obtain ⟨p, hp⟩ := hs.custody.total n hn
  cases p with
  | entry t => cases (hnone t).symm.trans hp
  | call j =>
    have hpending := h.pending ⟨i, hi⟩ j
    have hensure := hensures j
    have hsuspended := hsettled j
    change n ∈ (w.phase j).keeps at hp
    cases hj : w.phase j with
    | poolLock =>
      rw [hj] at hensure
      cases hensure
    | disposing =>
      rw [hj] at hsuspended
      exact absurd trivial hsuspended
    | closing resources shutdown =>
      rw [hj] at hp hpending
      cases resources with
      | nil => exact absurd hp List.not_mem_nil
      | cons => cases hpending
    | _ =>
      rw [hj] at hp
      exact absurd hp List.not_mem_nil
  | disposed => exact hp

end

/-! ## The cap -/

section

variable {s s' : State} {p p' : Phase}

theorem length_recount (change : ℤ) (tenant : String) (entry : ℕ) (entries : Dict String Entry) :
    (recount change tenant entry entries).entries.length = entries.entries.length := by
  unfold recount
  cases hget : entries.get? tenant with
  | none => rfl
  | some found =>
    by_cases hentry : found.resource = entry
    · simp only [if_pos hentry]
      exact Dict.length_set hget _
    · simp only [if_neg hentry]

/-- Under the pool lock of another call the entries stay, and only a lease that ends makes one of
them idle. -/
theorem Moves.of_locked (h : Moves cfg s p s' p') (hlocked : s.poolLock = true)
    (hp : ¬p.evicts) : s'.entries.entries.length = s.entries.entries.length ∧
      ∀ t entry', s'.entries.get? t = some entry' → ∃ entry, s.entries.get? t = some entry ∧
        (0 < entry.refcount → 0 < entry'.refcount ∨
          entry.refcount = 1 ∧ ∃ resource, p = .leased t resource entry.resource) := by
  have hsame : ∀ t entry', s.entries.get? t = some entry' → ∃ entry, s.entries.get? t = some entry ∧
      (0 < entry.refcount → 0 < entry'.refcount ∨
        entry.refcount = 1 ∧ ∃ resource, p = .leased t resource entry.resource) :=
    fun t entry' ht => ⟨entry', ht, .inl⟩
  cases h with
  | touches _ now tenant lease entry _ hget =>
    refine ⟨Dict.length_set hget _, fun t entry' ht => ?_⟩
    rw [Dict.get?_set] at ht
    split_ifs at ht with htt
    · cases ht
      subst htt
      exact ⟨entry, hget, .inl⟩
    · exact hsame t entry' ht
  | enters tenant resource entry hget =>
    refine ⟨length_recount .., fun t entry' ht => ?_⟩
    simp only [count, get?_recount] at ht
    obtain ⟨found, hfound, rfl⟩ := Option.map_eq_some_iff.mp ht
    refine ⟨found, hfound, fun hpos => .inl ?_⟩
    split_ifs
    · exact Int.add_pos hpos Int.one_pos
    · exact hpos
  | leaves tenant resource entry =>
    refine ⟨length_recount .., fun t entry' ht => ?_⟩
    simp only [count, get?_recount] at ht
    obtain ⟨found, hfound, rfl⟩ := Option.map_eq_some_iff.mp ht
    refine ⟨found, hfound, fun hpos => ?_⟩
    split_ifs with hcase
    · by_cases hone : found.refcount = 1
      · exact .inr ⟨hone, resource, by rw [hcase.1, hcase.2]⟩
      · left
        simp only
        omega
    · exact .inl hpos
  | evicted => exact absurd trivial hp
  | installs _ _ _ _ hfree | evicts _ _ _ _ hfree | removes _ _ _ hfree | shuts hfree =>
    cases hlocked.symm.trans hfree
  | _ => exact ⟨rfl, hsame⟩

end

section

variable [DecidableEq ι] {w w' : Users ι} {a : ι × ℚ × Input} {i : ι} {s' : State} {p' : Phase}

/-- While an evicted entry is closed the pool is within its cap, or all but the new entry are
leased. -/
def Capped (cfg : Config) (w : Users ι) : Prop :=
  ∀ i tenant lease resource, w.phase i = .evicting tenant lease resource →
    Within cfg tenant w.shared

omit [DecidableEq ι] in
theorem capped_fresh : Capped cfg (fresh ι) := by
  intro i t lease resource h
  cases h

omit [DecidableEq ι] in
theorem refcount_nonneg (h : Sound w) {t : String} {entry : Entry}
    (hget : w.shared.entries.get? t = some entry) : 0 ≤ entry.refcount := by
  obtain ⟨lessees, -, hcard⟩ := h.counted t entry hget
  omega

omit [DecidableEq ι] in
theorem within_of_not_idle (h : Sound w) {tenant : String} {entries : Dict String Entry}
    (hother : ∀ t entry, t ≠ tenant → entries.get? t = some entry →
      w.shared.entries.get? t = some entry ∧ entry.refcount ≠ 0) (hentries : s'.entries = entries) :
    Within cfg tenant s' := by
  right
  intro t entry ht hget
  rw [hentries] at hget
  obtain ⟨hwas, hne⟩ := hother t entry ht hget
  exact lt_of_le_of_ne (refcount_nonneg h hwas) (Ne.symm hne)

omit [DecidableEq ι] in
theorem within_install (h : Sound w) {tenant : String} {resource : ℕ} {now : ℚ}
    (hover : overCapacity cfg tenant
      (w.shared.entries.set tenant { resource := resource, lastUsed := now }) = none)
    (hentries : s'.entries =
      w.shared.entries.set tenant { resource := resource, lastUsed := now }) :
    Within cfg tenant s' := by
  unfold overCapacity at hover
  split_ifs at hover with hcap
  · left
    rwa [hentries]
  · refine within_of_not_idle h (fun t entry ht hget => ⟨?_, fun hidle => ?_⟩) hentries
    · rwa [Dict.get?_set, if_neg ht] at hget
    · have hmem := mem_idleEntries.mpr ⟨hget, hidle, ht⟩
      rw [List.head?_eq_none_iff.mp hover] at hmem
      exact absurd hmem List.not_mem_nil

omit [DecidableEq ι] in
theorem within_evict (h : Sound w) {tenant evicted : String} {resource : ℕ} {now : ℚ}
    {entry : Entry} (habsent : w.shared.entries.get? tenant = none)
    (hone : w.shared.entries.entries.length ≤ cfg.maxEntries ∨
      (idleEntries tenant w.shared.entries).length ≤ 1)
    (hover : overCapacity cfg tenant
      (w.shared.entries.set tenant { resource := resource, lastUsed := now }) =
        some (evicted, entry))
    (hentries : s'.entries =
      (w.shared.entries.set tenant { resource := resource, lastUsed := now }).erase evicted) :
    Within cfg tenant s' := by
  obtain ⟨hget, hidle, hne⟩ := overCapacity_eq_some hover
  rcases hone with hcap | hone
  · left
    have herase := Dict.length_erase hget
    rw [Dict.entries_set_new habsent, List.length_append, List.length_singleton] at herase
    rw [hentries]
    omega
  · refine within_of_not_idle h (fun t found ht hfound => ?_) hentries
    rw [Dict.get?_erase, Dict.get?_set, if_neg ht] at hfound
    rw [Dict.get?_set, if_neg hne] at hget
    split_ifs at hfound with hte
    refine ⟨hfound, fun hzero => hte ?_⟩
    -- the only idle entry is the one that is evicted
    have h₁ := mem_idleEntries.mpr ⟨hget, hidle, hne⟩
    have h₂ := mem_idleEntries.mpr ⟨hfound, hzero, ht⟩
    generalize idleEntries tenant w.shared.entries = idle at hone h₁ h₂
    cases idle with
    | nil => exact absurd h₁ List.not_mem_nil
    | cons q idle =>
      obtain rfl : idle = [] := List.length_eq_zero_iff.mp (by simpa using hone)
      rw [List.mem_singleton] at h₁ h₂
      exact congrArg Prod.fst (h₂.trans h₁.symm)

theorem capped_moves (h : Sound w) (hc : Capped cfg w)
    (hm : Moves cfg w.shared (w.phase i) s' p')
    (hone : ∀ t lease resource, w.phase i = .poolLock t lease resource →
      w.shared.entries.entries.length ≤ cfg.maxEntries ∨
        (idleEntries t w.shared.entries).length ≤ 1)
    (hleaves : ∀ t resource entry, w.phase i = .leased t resource entry →
      ∀ j new lease r, w.phase j = .evicting new lease r →
        w.shared.entries.entries.length ≤ cfg.maxEntries ∨ t = new ∨
          ∀ found, w.shared.entries.get? t = some found → found.resource = entry →
            found.refcount ≠ 1) : Capped cfg (w.put i (s', p')) := by
  intro j tenant lease resource hj
  rw [Tasks.put_shared]
  by_cases hji : j = i
  · rw [hji, Tasks.put_phase_self] at hj
    subst hj
    generalize hp : w.phase i = p at hm
    generalize hp' : Phase.evicting tenant lease resource = p' at hm
    cases hm with
    | waits _ hphase => simp [← hp'] at hphase
    | evicts now _ _ _ hfree evicted entry hover =>
      cases hp'
      have habsent := resource_eq_none.mp (h.absent i tenant (by rw [hp]; rfl))
      exact within_evict h habsent (hone _ _ _ hp) hover rfl
    | leaves _ _ _ _ hphase => simp [← hp'] at hphase
    | ends shutdown => cases shutdown <;> cases hp'
    | _ => cases hp'
  · rw [Tasks.put_phase_of_ne hji] at hj
    have hlocked := h.pool.locked_of_holds j (by rw [hj]; trivial)
    have hnot : ¬(w.phase i).evicts := fun hi => hji (h.pool.unique j i (by rw [hj]; trivial) hi)
    obtain ⟨hlength, hentries⟩ := hm.of_locked hlocked hnot
    have hwithin := hc j tenant lease resource hj
    by_cases hcap : w.shared.entries.entries.length ≤ cfg.maxEntries
    · left
      rwa [hlength]
    · right
      intro t entry' ht hget'
      obtain ⟨entry, hget, hpos⟩ := hentries t entry' hget'
      refine (hpos (hwithin.resolve_left hcap t entry ht hget)).resolve_right ?_
      rintro ⟨hlast, r, hp⟩
      rcases hleaves t r _ hp j tenant lease resource hj with hle | rfl | hne
      · exact hcap hle
      · exact ht rfl
      · exact hne entry hget rfl hlast

omit [DecidableEq ι] in
/-- The rest of `ensure` leaves the entries of the other tenants as they are. -/
theorem within_returning {s s' : State} {p p' : Phase} {tenant : String} {lease : Bool}
    {resource : ℕ} (hm : Moves cfg s p s' p') (hp : p = .returning tenant lease resource)
    (h : Within cfg tenant s) : Within cfg tenant s' := by
  cases hm with
  | enters t r entry hget =>
    cases hp
    rcases h with hcap | hleased
    · left
      rwa [count, length_recount]
    · right
      intro t' entry' ht hget'
      simp only [count, get?_recount] at hget'
      obtain ⟨found, hfound, rfl⟩ := Option.map_eq_some_iff.mp hget'
      rw [if_neg fun hcase => ht hcase.1]
      exact hleased t' found ht hfound
  | returns => exact h
  | misses => exact h
  | touches _ _ _ _ _ hphase => simp [hp] at hphase
  | removes _ _ hphase => simp [hp] at hphase
  | _ => cases hp

/-- **An `ensure` that has made a resource leaves the pool within its cap.** -/
theorem capKept_of_capped (h : Sound w) (hc : Capped cfg w) (hst : Step cfg w a w') :
    CapKept cfg w a w' := by
  obtain ⟨q, hnext, rfl⟩ := hst
  intro tenant lease resource hphase hends _
  rw [Tasks.put_phase_self] at hends
  rw [Tasks.put_shared]
  obtain ⟨⟨s₁, p₁⟩, hmoves, hq⟩ := moves_of_next hnext
  simp only at hmoves hq
  have hfirst : p₁.ensures = true ∨
      p₁ = .returning tenant lease resource ∧ Within cfg tenant s₁ := by
    generalize hp : w.phase a.1 = p at hmoves hphase
    cases hmoves with
    | installs now t l r hfree hover =>
      simp only [Phase.poolLock.injEq, reduceCtorEq, or_false] at hphase
      obtain ⟨rfl, rfl, rfl⟩ := hphase
      exact .inr ⟨rfl, within_install h hover rfl⟩
    | evicts => exact .inl rfl
    | evicted t l r =>
      simp only [Phase.evicting.injEq, reduceCtorEq, false_or] at hphase
      obtain ⟨rfl, rfl, rfl⟩ := hphase
      exact .inr ⟨rfl, hc a.1 t l r hp⟩
    | touches _ _ _ _ _ hp => rcases hp with rfl | rfl <;> simp at hphase
    | removes _ _ hp => rcases hp with ⟨_, rfl⟩ | ⟨_, rfl⟩ <;> simp at hphase
    | _ => simp at hphase
  rcases hq with rfl | ⟨hpassing, hmoves'⟩
  · rcases hfirst with hensures | ⟨hq, hwithin⟩
    · rw [hends] at hensures
      cases hensures
    · exact hwithin
  · rcases hfirst with hensures | ⟨hq, hwithin⟩
    · cases p₁ <;> first | exact hpassing.elim | cases hensures
    · exact within_returning hmoves' hq hwithin

theorem capped_step (h : Sound w) (hc : Capped cfg w) (ht : Tidy cfg w a) (hst : Step cfg w a w') :
    Capped cfg w' := by
  obtain ⟨q, hnext, rfl⟩ := hst
  have hnot := not_passing_of_next hnext
  obtain ⟨q₁, hmoves, rfl | ⟨hpassing, hmoves'⟩⟩ := moves_of_next hnext
  · exact capped_moves h hc hmoves ht.excess ht.leaves
  · have h₁ := h.moves hmoves fun t lease r hp => absurd (by rw [hp]; trivial) hnot
    have hc₁ := capped_moves h hc hmoves ht.excess ht.leaves
    rw [← Tasks.put_put (q := q₁)]
    refine capped_moves h₁ hc₁ ?_ ?_ ?_
    · rwa [Tasks.put_phase_self]
    · intro t lease r hp
      rw [Tasks.put_phase_self] at hp
      rw [hp] at hpassing
      exact hpassing.elim
    · intro t r entry hp
      rw [Tasks.put_phase_self] at hp
      rw [hp] at hpassing
      exact hpassing.elim

/-- The call installs only into an open pool below its cap, ends no lease and does not return from
`aclose`. -/
def quiet (cfg : Config) (s : State) : Phase → Input → Bool
  | .idle, x => !(x = .call .aclose && s.closed)
  | .acloseLock, _ => !s.entries.entries.isEmpty
  | .poolLock _ _ _, _ => !s.closed && decide (s.entries.entries.length ≤ cfg.maxEntries)
  | .closing [] true, _ | .leased _ _ _, _ => false
  | _, _ => true

omit [DecidableEq ι] in
theorem tidy_of_quiet (h : quiet cfg w.shared (w.phase a.1) a.2.2 = true) : Tidy cfg w a := by
  constructor
  · intro t lease r hp
    simp only [hp, quiet, Bool.and_eq_true, Bool.not_eq_true'] at h
    exact h.1
  · rintro (⟨hp, hx, hclosed⟩ | ⟨hp, hempty⟩ | hp)
    · simp [quiet, hp, hx, hclosed] at h
    · simp [quiet, hp, hempty] at h
    · simp [quiet, hp] at h
  · intro t lease r hp
    simp only [hp, quiet, Bool.and_eq_true, decide_eq_true_eq] at h
    exact .inl h.2
  · intro t r entry hp
    rw [hp] at h
    cases h

end

end TenantResourcePool

end Varco
