import Varco.Foundations.Custody
import Varco.Tenancy.Pool

/-!
# What a call does to the pool

What a call does between two awaits is one or two moves (`moves_of_next`). A move takes a lock where
it is free and gives it back where it keeps it (`Moves.poolLock`, `Moves.creationLock`), changes the
entries only under the pool lock (`Moves.resource_cases`), and moves resources between the entries,
the calls and the closer without losing one or keeping one twice (`custody_moves`).
-/

namespace Varco

open List

namespace TenantResourcePool

variable {cfg : Config} {ι : Type}

def State.resource (s : State) (tenant : String) : Option ℕ :=
  (s.entries.get? tenant).map (·.resource)

/-- What a call can do to the pool, and the phases it goes from and to. -/
inductive Moves (cfg : Config) (s : State) : Phase → State → Phase → Prop
  | waits (p : Phase) (hp : p = .returned ∨ p = .shutDown ∧ s.closed = true ∨
      p = .acloseLock ∨
      (∃ tenant lease, p = .creationLock tenant lease) ∨ (∃ tenant, p = .evictLock tenant) ∨
      ∃ called, p = .sweepLock called) : Moves cfg s .idle s p
  | touches (p : Phase) (now : ℚ) (tenant : String) (lease : Bool) (entry : Entry)
      (hp : p = .idle ∨ p = .creationLock tenant lease)
      (hget : s.entries.get? tenant = some entry) :
      Moves cfg s p { s with entries := s.entries.set tenant { entry with lastUsed := now } }
        (.returning tenant lease entry.resource)
  | creates (tenant : String) (lease : Bool) (hfree : tenant ∉ s.creationLocks)
      (hget : s.entries.get? tenant = none) :
      Moves cfg s (.creationLock tenant lease)
        { s with creationLocks := insert tenant s.creationLocks } (.factory tenant lease)
  | made (tenant : String) (lease : Bool) :
      Moves cfg s (.factory tenant lease) { s with made := s.made + 1 }
        (.poolLock tenant lease s.made)
  | fails (tenant : String) (lease : Bool) (e : Exc) :
      Moves cfg s (.factory tenant lease)
        { s with creationLocks := s.creationLocks.erase tenant } (.raised e)
  | installs (now : ℚ) (tenant : String) (lease : Bool) (resource : ℕ) (hfree : s.poolLock = false)
      (hover : overCapacity cfg tenant
        (s.entries.set tenant { resource := resource, lastUsed := now }) = none) :
      Moves cfg s (.poolLock tenant lease resource)
        { s with
          entries := s.entries.set tenant { resource := resource, lastUsed := now },
          creationLocks := s.creationLocks.erase tenant }
        (.returning tenant lease resource)
  | evicts (now : ℚ) (tenant : String) (lease : Bool) (resource : ℕ) (hfree : s.poolLock = false)
      (evicted : String) (entry : Entry)
      (hover : overCapacity cfg tenant
        (s.entries.set tenant { resource := resource, lastUsed := now }) = some (evicted, entry)) :
      Moves cfg s (.poolLock tenant lease resource)
        { s with
          entries :=
            (s.entries.set tenant { resource := resource, lastUsed := now }).erase evicted,
          poolLock := true, disposed := s.disposed ++ [entry.resource] }
        (.evicting tenant lease resource)
  | evicted (tenant : String) (lease : Bool) (resource : ℕ) :
      Moves cfg s (.evicting tenant lease resource)
        { s with poolLock := false, creationLocks := s.creationLocks.erase tenant }
        (.returning tenant lease resource)
  | returns (tenant : String) (resource : ℕ) :
      Moves cfg s (.returning tenant false resource) s .returned
  | enters (tenant : String) (resource : ℕ) (entry : Entry)
      (hget : s.entries.get? tenant = some entry) :
      Moves cfg s (.returning tenant true resource) (count 1 tenant entry.resource s)
        (.leased tenant resource entry.resource)
  | misses (tenant : String) (resource : ℕ) (hget : s.entries.get? tenant = none) :
      Moves cfg s (.returning tenant true resource) s (.keyError tenant)
  | leaves (tenant : String) (resource entry : ℕ) (p : Phase)
      (hp : p = .returned ∨ ∃ e, p = .raised e) :
      Moves cfg s (.leased tenant resource entry) (count (-1) tenant entry s) p
  | skips (tenant : String) (hfree : s.poolLock = false) :
      Moves cfg s (.evictLock tenant) s .returned
  | removes (p : Phase) (stale : List (String × Entry)) (hp : (∃ tenant, p = .evictLock tenant) ∨
      ∃ called, p = .sweepLock called) (hfree : s.poolLock = false)
      (hsub : stale.Sublist s.entries.entries) (hidle : ∀ q ∈ stale, q.2.refcount ≤ 0) :
      Moves cfg s p { s with entries := (stale.map Prod.fst).foldl Dict.erase s.entries }
        (.disposing (stale.map (·.2.resource)) false)
  | shuts (hfree : s.poolLock = false) :
      Moves cfg s .acloseLock { s with entries := .empty, closed := true }
        (.disposing (s.entries.values.map (·.resource)) true)
  | goesOn (resources : List ℕ) (shutdown : Bool) :
      Moves cfg s (.closing resources shutdown) s (.disposing resources shutdown)
  | ends (shutdown : Bool) :
      Moves cfg s (.disposing [] shutdown) s (if shutdown then .shutDown else .returned)
  | disposes (resource : ℕ) (resources : List ℕ) (shutdown : Bool) :
      Moves cfg s (.disposing (resource :: resources) shutdown)
        { s with disposed := s.disposed ++ [resource] } (.closing resources shutdown)

section

variable {s s' : State} {p p' : Phase} {a : ℚ × Input}

def Phase.passing : Phase → Prop
  | .returning _ _ _ | .disposing _ _ => True
  | _ => False

theorem finish_moves (q : State × Phase) :
    finish q = q ∨ q.2.passing ∧ Moves cfg q.1 q.2 (finish q).1 (finish q).2 := by
  obtain ⟨s, p⟩ := q
  cases p with
  | returning tenant lease resource =>
    cases lease with
    | false => exact .inr ⟨trivial, .returns tenant resource⟩
    | true =>
      refine .inr ⟨trivial, ?_⟩
      cases hget : s.entries.get? tenant with
      | none =>
        simp only [finish, hget]
        exact .misses tenant resource hget
      | some entry =>
        simp only [finish, hget]
        exact .enters tenant resource entry hget
  | disposing resources shutdown =>
    cases resources with
    | nil => exact .inr ⟨trivial, .ends shutdown⟩
    | cons resource resources => exact .inr ⟨trivial, .disposes resource resources shutdown⟩
  | _ => exact .inl rfl

theorem ensure_moves (now : ℚ) (tenant : String) (lease : Bool) (s : State) :
    Moves cfg s .idle (ensure now tenant lease s).1 (ensure now tenant lease s).2 := by
  unfold ensure
  cases hget : s.entries.get? tenant with
  | none => exact .waits _ (by simp)
  | some entry => exact .touches _ now tenant lease entry (.inl rfl) hget

theorem start_moves (now : ℚ) (call : Call) (s : State) :
    Moves cfg s .idle (start now call s).1 (start now call s).2 := by
  cases call with
  | ensure tenant => exact ensure_moves now tenant false s
  | lease tenant => exact ensure_moves now tenant true s
  | evict tenant => exact .waits _ (by simp [start])
  | sweep => exact .waits _ (by simp [start])
  | aclose =>
    by_cases hclosed : s.closed = true
    · simp only [start, hclosed, if_true]
      exact .waits _ (by simp [hclosed])
    · simp only [start, hclosed]
      exact .waits _ (by simp)

theorem install_moves (now : ℚ) (tenant : String) (lease : Bool) (resource : ℕ)
    (hfree : s.poolLock = false) :
    Moves cfg s (.poolLock tenant lease resource) (install cfg now tenant lease resource s).1
      (install cfg now tenant lease resource s).2 := by
  cases hover : overCapacity cfg tenant
      (s.entries.set tenant { resource := resource, lastUsed := now }) with
  | none =>
    simp only [install, hover]
    exact .installs now tenant lease resource hfree hover
  | some found =>
    simp only [install, hover]
    exact .evicts now tenant lease resource hfree found.1 found.2 hover

theorem evict_moves (tenant : String) (hfree : s.poolLock = false) :
    Moves cfg s (.evictLock tenant) (evict tenant s).1 (evict tenant s).2 := by
  unfold evict
  cases hget : s.entries.get? tenant with
  | none => exact .skips tenant hfree
  | some entry =>
    by_cases hpos : 0 < entry.refcount
    · simp only [hpos, if_true]
      exact .skips tenant hfree
    · simp only [hpos, if_false]
      refine .removes _ [(tenant, entry)] (.inl ⟨tenant, rfl⟩) hfree ?_ ?_
      · exact singleton_sublist.mpr (Dict.mem_entries.mpr hget)
      · simpa using hpos

variable {q : State × Phase}

/-- What needs the pool lock waits until the lock is free. -/
theorem free_of_resume {q' : State × Phase} (h : (if s.poolLock then none else some q') = some q) :
    s.poolLock = false ∧ q' = q := by
  simpa using h

theorem resume_moves {now : ℚ} {r : Except Exc Unit}
    (h : resume cfg now r s p = some q) : Moves cfg s p q.1 q.2 := by
  cases p with
  | creationLock tenant lease =>
    by_cases hheld : tenant ∈ s.creationLocks
    · simp [resume, hheld] at h
    · cases hget : s.entries.get? tenant with
      | none =>
        simp only [resume, hheld, if_false, hget, Option.some.injEq] at h
        subst h
        exact .creates tenant lease hheld hget
      | some entry =>
        simp only [resume, hheld, if_false, hget, Option.some.injEq] at h
        subst h
        exact .touches _ now tenant lease entry (.inr rfl) hget
  | factory tenant lease =>
    cases r with
    | ok =>
      cases h
      exact .made tenant lease
    | error e =>
      cases h
      exact .fails tenant lease e
  | poolLock tenant lease resource =>
    obtain ⟨hfree, rfl⟩ := free_of_resume h
    exact install_moves now tenant lease resource hfree
  | evicting tenant lease resource =>
    cases h
    exact .evicted tenant lease resource
  | leased tenant resource entry =>
    cases r with
    | ok =>
      cases h
      exact .leaves tenant resource entry _ (.inl rfl)
    | error e =>
      cases h
      exact .leaves tenant resource entry _ (.inr ⟨e, rfl⟩)
  | evictLock tenant =>
    obtain ⟨hfree, rfl⟩ := free_of_resume h
    exact evict_moves tenant hfree
  | sweepLock called =>
    obtain ⟨hfree, rfl⟩ := free_of_resume h
    refine .removes _ _ (.inr ⟨called, rfl⟩) hfree filter_sublist fun q hq => ?_
    have hidle := (mem_filter.mp hq).2
    simp only [decide_eq_true_eq] at hidle
    exact le_of_eq hidle.1
  | acloseLock =>
    obtain ⟨hfree, rfl⟩ := free_of_resume h
    exact .shuts hfree
  | closing resources shutdown =>
    cases h
    exact .goesOn resources shutdown
  | _ => cases h

/-- **What a task does from one await to the next**: a move, or two. -/
theorem moves_of_next (h : next cfg a s p = some q) :
    ∃ q₁, Moves cfg s p q₁.1 q₁.2 ∧
      (q = q₁ ∨ q₁.2.passing ∧ Moves cfg q₁.1 q₁.2 q.1 q.2) := by
  have hfinish : ∀ q₁, Moves cfg s p q₁.1 q₁.2 → finish q₁ = q →
      ∃ q₁, Moves cfg s p q₁.1 q₁.2 ∧
        (q = q₁ ∨ q₁.2.passing ∧ Moves cfg q₁.1 q₁.2 q.1 q.2) := by
    rintro q₁ hq₁ rfl
    exact ⟨q₁, hq₁, finish_moves q₁⟩
  obtain ⟨now, input⟩ := a
  cases input with
  | call c =>
    cases p with
    | idle => exact hfinish _ (start_moves now c s) (Option.some.inj h)
    | _ => cases h
  | resume r =>
    obtain ⟨q₁, hresume, hq⟩ := Option.map_eq_some_iff.mp h
    exact hfinish q₁ (resume_moves hresume) hq

/-- **What two moves keep one step keeps**: the first goes from where the call was suspended, the
second from a phase that is gone through. -/
theorem next_rule {I : State → Phase → Prop} (h : next cfg a s p = some q)
    (hfirst : ∀ s' p', Moves cfg s p s' p' → I s' p')
    (hthen : ∀ s₁ p₁ s' p', p₁.passing → Moves cfg s₁ p₁ s' p' → I s₁ p₁ → I s' p') :
    I q.1 q.2 := by
  obtain ⟨q₁, hmoves, rfl | ⟨hpassing, hmoves'⟩⟩ := moves_of_next h
  · exact hfirst _ _ hmoves
  · exact hthen _ _ _ _ hpassing hmoves' (hfirst _ _ hmoves)

theorem finish_not_passing (q : State × Phase) : ¬(finish q).2.passing := by
  obtain ⟨s, p⟩ := q
  cases p with
  | returning tenant lease resource =>
    cases lease with
    | false => exact not_false
    | true =>
      simp only [finish]
      split <;> exact not_false
  | disposing resources shutdown =>
    cases resources with
    | nil => cases shutdown <;> exact not_false
    | cons => exact not_false
  | _ => exact not_false

theorem next_not_passing (h : next cfg a s p = some q) : ¬q.2.passing := by
  obtain ⟨now, input⟩ := a
  cases input with
  | call c =>
    cases p with
    | idle =>
      cases h
      exact finish_not_passing _
    | _ => cases h
  | resume r =>
    obtain ⟨q₁, -, rfl⟩ := Option.map_eq_some_iff.mp h
    exact finish_not_passing q₁

theorem not_passing_of_next (h : next cfg a s p = some q) : ¬p.passing := by
  intro hp
  obtain ⟨now, input⟩ := a
  cases p <;> first | exact hp | (cases input <;> cases h)

theorem ensure_phase (now : ℚ) (tenant : String) (lease : Bool) (s : State) :
    (ensure now tenant lease s).2 = .creationLock tenant lease ∨
      ∃ resource, (ensure now tenant lease s).2 = .returning tenant lease resource := by
  unfold ensure
  cases s.entries.get? tenant with
  | none => exact .inl rfl
  | some entry => exact .inr ⟨entry.resource, rfl⟩

/-- Only `aclose` starts to close the pool, or finds it closed. -/
theorem aclose_of_start {now : ℚ} {c : Call}
    (h : (start now c s).2 = .acloseLock ∨ (start now c s).2 = .shutDown) : c = .aclose := by
  cases c with
  | ensure tenant =>
    rcases ensure_phase now tenant false s with hphase | ⟨resource, hphase⟩ <;>
      simp [start, hphase] at h
  | lease tenant =>
    rcases ensure_phase now tenant true s with hphase | ⟨resource, hphase⟩ <;>
      simp [start, hphase] at h
  | evict tenant => simp [start] at h
  | sweep => simp [start] at h
  | aclose => rfl

theorem Moves.ne_idle (h : Moves cfg s p s' p') : p' ≠ .idle := by
  rintro rfl
  generalize hq : Phase.idle = q at h
  cases h with
  | waits _ hp => simp [← hq] at hp
  | leaves _ _ _ _ hp => simp [← hq] at hp
  | ends shutdown => cases shutdown <;> cases hq
  | _ => cases hq

/-- Only a new call waits for the pool lock as `aclose`. -/
theorem Moves.idle_of_acloseLock (h : Moves cfg s p s' .acloseLock) : p = .idle := by
  generalize hq : Phase.acloseLock = q at h
  cases h with
  | waits => rfl
  | leaves _ _ _ _ hp => simp [← hq] at hp
  | ends shutdown => cases shutdown <;> cases hq
  | _ => cases hq

/-- `aclose` waits for the pool lock only where it was called. -/
theorem call_of_acloseLock (h : next cfg a s p = some (s', .acloseLock)) :
    a.2 = .call .aclose := by
  obtain ⟨now, input⟩ := a
  cases input with
  | call c =>
    cases p with
    | idle =>
      have hfinish : finish (start now c s) = (s', .acloseLock) := Option.some.inj h
      rcases @finish_moves cfg (start now c s) with hsame | ⟨-, hmoves⟩
      · rw [hsame] at hfinish
        exact congrArg Input.call (aclose_of_start (.inl (congrArg Prod.snd hfinish)))
      · rw [hfinish] at hmoves
        exact absurd hmoves.idle_of_acloseLock (@start_moves cfg now c s).ne_idle
    | _ => cases h
  | resume r =>
    obtain ⟨q₁, hmoves, rfl | ⟨-, hmoves'⟩⟩ := moves_of_next h
    · obtain rfl := hmoves.idle_of_acloseLock
      cases h
    · exact absurd hmoves'.idle_of_acloseLock hmoves.ne_idle

end

/-! ## What a move changes -/

section

variable {s s' : State} {p p' : Phase} {tenant : String}

theorem mem_idleEntries {exclude t : String} {entries : Dict String Entry} {entry : Entry} :
    (t, entry) ∈ idleEntries exclude entries ↔
      entries.get? t = some entry ∧ entry.refcount = 0 ∧ t ≠ exclude := by
  rw [idleEntries, mem_insertionSort, mem_filter, Dict.mem_entries]
  simp

/-- The entry that is evicted is an idle one, and another one than the new one. -/
theorem overCapacity_eq_some {exclude evicted : String} {entries : Dict String Entry}
    {entry : Entry}
    (h : overCapacity cfg exclude entries = some (evicted, entry)) :
    entries.get? evicted = some entry ∧ entry.refcount = 0 ∧ evicted ≠ exclude := by
  unfold overCapacity at h
  split at h
  · cases h
  · exact mem_idleEntries.mp (mem_of_mem_head? h)

theorem resource_touch (now : ℚ) {entry : Entry} (hget : s.entries.get? tenant = some entry) :
    State.resource { s with entries := s.entries.set tenant { entry with lastUsed := now } } =
      s.resource := by
  funext t
  simp only [State.resource, Dict.get?_set]
  split_ifs with ht
  · rw [ht, hget]
    rfl
  · rfl

theorem get?_recount (change : ℤ) (entry : ℕ) (entries : Dict String Entry) (t : String) :
    (recount change tenant entry entries).get? t = (entries.get? t).map fun found =>
      if t = tenant ∧ found.resource = entry then
        { found with refcount := found.refcount + change }
      else found := by
  unfold recount
  cases hget : entries.get? tenant with
  | none =>
    by_cases ht : t = tenant
    · rw [ht, hget]
      rfl
    · simp [ht]
  | some found =>
    by_cases hentry : found.resource = entry
    · simp only [if_pos hentry, Dict.get?_set]
      by_cases ht : t = tenant
      · simp [ht, hget, hentry]
      · simp [ht]
    · simp only [if_neg hentry]
      by_cases ht : t = tenant
      · simp [ht, hget, hentry]
      · simp [ht]

theorem resource_count (change : ℤ) (tenant : String) (entry : ℕ) (s : State) :
    (count change tenant entry s).resource = s.resource := by
  funext t
  simp only [State.resource, count, get?_recount, Option.map_map]
  congr 1
  funext found
  simp only [Function.comp_apply]
  split_ifs <;> rfl

section

variable (h : Moves cfg s p s' p')

include h

/-- **What a move does to the entries**: under the pool lock one is installed, or some are removed.
-/
theorem Moves.resource_cases (t : String) :
    s'.resource t = s.resource t ∨ s.poolLock = false ∧ (s'.resource t = none ∨
      ∃ lease resource, p = .poolLock t lease resource ∧ s'.resource t = some resource) := by
  cases h with
  | touches p now tenant lease entry hp hget => exact .inl (congrFun (resource_touch now hget) t)
  | enters | leaves => exact .inl (congrFun (resource_count ..) t)
  | installs now tenant lease resource hfree hover =>
    by_cases ht : t = tenant
    · subst ht
      refine .inr ⟨hfree, .inr ⟨lease, resource, rfl, ?_⟩⟩
      simp [State.resource]
    · left
      simp [State.resource, Dict.get?_set, ht]
  | evicts now tenant lease resource hfree evicted entry hover =>
    by_cases ht : t = evicted
    · exact .inr ⟨hfree, .inl (by simp [State.resource, ht])⟩
    · by_cases htt : t = tenant
      · subst htt
        refine .inr ⟨hfree, .inr ⟨lease, resource, rfl, ?_⟩⟩
        simp [State.resource, Dict.get?_erase, ht]
      · left
        simp [State.resource, Dict.get?_set, Dict.get?_erase, ht, htt]
  | removes p stale hp hfree =>
    by_cases ht : t ∈ stale.map Prod.fst
    · exact .inr ⟨hfree, .inl (by simp only [State.resource, Dict.get?_foldl_erase, ht]; rfl)⟩
    · left
      simp only [State.resource, Dict.get?_foldl_erase, ht, if_false]
  | shuts hfree => exact .inr ⟨hfree, .inl rfl⟩
  | _ => exact .inl rfl

/-- An entry is taken out of the pool where nobody is counted by it, or when the pool is closed. -/
theorem Moves.idle_of_removed {t : String} {entry : Entry} (hget : s.entries.get? t = some entry)
    (hgone : s'.resource t = none) : entry.refcount ≤ 0 ∨ s'.closed = true := by
  have hthere : s.resource t ≠ none := by simp [State.resource, hget]
  cases h with
  | touches _ now _ _ _ _ hentry =>
    rw [resource_touch now hentry] at hgone
    exact absurd hgone hthere
  | enters | leaves =>
    rw [resource_count] at hgone
    exact absurd hgone hthere
  | installs now tenant =>
    simp only [State.resource, Dict.get?_set] at hgone
    split_ifs at hgone
    · cases hgone
    · exact absurd hgone hthere
  | evicts now tenant lease resource hfree evicted found hover =>
    obtain ⟨hfound, hidle, hne⟩ := overCapacity_eq_some hover
    simp only [State.resource, Dict.get?_erase, Dict.get?_set] at hgone
    split_ifs at hgone with ht htt
    · rw [Dict.get?_set, if_neg hne, ← ht, hget] at hfound
      cases hfound
      exact .inl hidle.le
    · cases hgone
    · exact absurd hgone hthere
  | removes _ stale _ _ hsub hidle =>
    simp only [State.resource, Dict.get?_foldl_erase] at hgone
    split_ifs at hgone with ht
    · obtain ⟨q, hq, rfl⟩ := mem_map.mp ht
      have hfound := Dict.mem_entries.mp (hsub.subset hq)
      rw [hget] at hfound
      cases hfound
      exact .inl (hidle q hq)
    · exact absurd hgone hthere
  | shuts => exact .inr rfl
  | _ => exact absurd hgone hthere

/-- The pool is closed by `aclose`. -/
theorem Moves.closed_cases : s'.closed = s.closed ∨ p = .acloseLock := by
  cases h with
  | shuts => exact .inr rfl
  | _ => exact .inl rfl

theorem Moves.closed_mono (hclosed : s.closed = true) : s'.closed = true := by
  cases h with
  | shuts => rfl
  | _ => exact hclosed

theorem Moves.made_le : s.made ≤ s'.made := by
  cases h with
  | made => exact Nat.le_succ _
  | _ => exact le_rfl

end

theorem Moves.eq_made {lease : Bool} {resource : ℕ}
    (h : Moves cfg s p s' (.poolLock tenant lease resource)) : resource = s.made := by
  generalize hp' : Phase.poolLock tenant lease resource = p' at h
  cases h with
  | waits _ hp => simp [← hp'] at hp
  | made =>
    cases hp'
    rfl
  | leaves _ _ _ _ hp => simp [← hp'] at hp
  | ends shutdown => cases shutdown <;> cases hp'
  | _ => cases hp'

def Phase.creates (tenant : String) : Phase → Prop
  | .factory t _ | .poolLock t _ _ | .evicting t _ _ => t = tenant
  | _ => False

def Phase.evicts : Phase → Prop
  | .evicting _ _ _ => True
  | _ => False

/-- The pool lock is taken when it is free, and given back by who keeps it. -/
theorem Moves.poolLock (h : Moves cfg s p s' p') :
    (p'.evicts → p.evicts ∨ ¬s.poolLock = true ∧ s'.poolLock = true) ∧
      (s.poolLock = true → s'.poolLock = true ∨ p.evicts ∧ ¬p'.evicts) := by
  cases h with
  | waits _ hp => rcases hp with rfl | ⟨rfl, -⟩ | rfl | ⟨_, _, rfl⟩ | ⟨_, rfl⟩ | ⟨_, rfl⟩ <;>
      simp [Phase.evicts]
  | leaves _ _ _ _ hp => rcases hp with rfl | ⟨_, rfl⟩ <;> simp [Phase.evicts, count]
  | ends shutdown => cases shutdown <;> simp [Phase.evicts]
  | evicts _ _ _ _ hfree => simp [hfree]
  | evicted => simp [Phase.evicts]
  | _ => exact ⟨False.elim, .inl⟩

theorem Moves.creationLock (h : Moves cfg s p s' p') (tenant : String) :
    (p'.creates tenant → p.creates tenant ∨
        tenant ∉ s.creationLocks ∧ tenant ∈ s'.creationLocks) ∧
      (tenant ∈ s.creationLocks →
        tenant ∈ s'.creationLocks ∨ p.creates tenant ∧ ¬p'.creates tenant) := by
  cases h with
  | waits _ hp => rcases hp with rfl | ⟨rfl, -⟩ | rfl | ⟨_, _, rfl⟩ | ⟨_, rfl⟩ | ⟨_, rfl⟩ <;>
      simp [Phase.creates]
  | leaves _ _ _ _ hp => rcases hp with rfl | ⟨_, rfl⟩ <;> simp [Phase.creates, count]
  | ends shutdown => cases shutdown <;> simp [Phase.creates]
  | creates t lease hfree =>
    refine ⟨?_, fun hmem => .inl (Finset.mem_insert_of_mem hmem)⟩
    rintro rfl
    exact .inr ⟨hfree, Finset.mem_insert_self ..⟩
  | fails t | installs _ t | evicted t =>
    refine ⟨False.elim, fun hmem => ?_⟩
    by_cases ht : t = tenant
    · exact .inr ⟨ht, not_false⟩
    · exact .inl (Finset.mem_erase.mpr ⟨Ne.symm ht, hmem⟩)
  | made | evicts => exact ⟨.inl, .inl⟩
  | _ => exact ⟨False.elim, .inl⟩

def Phase.keeps : Phase → List ℕ
  | .poolLock _ _ resource => [resource]
  | .disposing resources _ | .closing resources _ => resources
  | _ => []

/-- Where a resource is. -/
inductive Place (ι : Type)
  | entry (tenant : String)
  | call (i : ι)
  | disposed

def keeps (w : Users ι) : Place ι → ℕ → Prop
  | .entry tenant, n => w.shared.resource tenant = some n
  | .call i, n => n ∈ (w.phase i).keeps
  | .disposed, n => n ∈ w.shared.disposed

end

/-! ## Custody -/

section

variable [DecidableEq ι] {w : Users ι} {i : ι} {s' : State} {p' : Phase}

theorem keeps_put (hres : s'.resource = w.shared.resource)
    (hdisposed : s'.disposed = w.shared.disposed) (hkeeps : p'.keeps = (w.phase i).keeps)
    (p : Place ι) (n : ℕ) : keeps (w.put i (s', p')) p n ↔ keeps w p n := by
  cases p with
  | entry tenant => simp [keeps, hres]
  | call j =>
    by_cases hj : j = i
    · subst hj
      simp [keeps, hkeeps]
    · simp [keeps, hj]
  | disposed => simp [keeps, hdisposed]

def Place.installed (i : ι) (tenant : String) : Place ι → Place ι
  | .call j => if j = i then .entry tenant else .call j
  | p => p

def Place.taken (i : ι) (tenants : List String) : Place ι → Place ι
  | .entry t => if t ∈ tenants then .call i else .entry t
  | p => p

def Place.passed (i : ι) (resource : ℕ) : Place ι → ℕ → Place ι
  | .call j, n => if j = i ∧ n = resource then .disposed else .call j
  | p, _ => p

theorem custody_install {made : ℕ} {tenant : String} (resource : ℕ) (h : Custody (keeps w) made)
    (hkeeps : (w.phase i).keeps = [resource]) (hkeeps' : p'.keeps = [])
    (habsent : w.shared.resource tenant = none) (hdisposed : s'.disposed = w.shared.disposed)
    (hres : ∀ t, s'.resource t = if t = tenant then some resource else w.shared.resource t) :
    Custody (keeps (w.put i (s', p'))) made := by
  refine h.move (fun p _ => p.installed i tenant) fun q n => ?_
  constructor
  · intro hq
    cases q with
    | entry t =>
      simp only [keeps, Tasks.put_shared, hres] at hq
      split_ifs at hq with ht
      · refine ⟨.call i, ?_, by simp [Place.installed, ht]⟩
        simpa [keeps, hkeeps, eq_comm] using hq
      · exact ⟨.entry t, hq, rfl⟩
    | call j =>
      by_cases hj : j = i
      · subst hj
        simp [keeps, hkeeps'] at hq
      · refine ⟨.call j, ?_, by simp [Place.installed, hj]⟩
        simpa [keeps, hj] using hq
    | disposed => exact ⟨.disposed, by simpa [keeps, hdisposed] using hq, rfl⟩
  · rintro ⟨p, hp, rfl⟩
    cases p with
    | entry t =>
      have ht : t ≠ tenant := by
        rintro rfl
        rw [keeps, habsent] at hp
        cases hp
      simpa [Place.installed, keeps, hres, ht] using hp
    | call j =>
      by_cases hj : j = i
      · subst hj
        simp only [keeps, hkeeps, mem_singleton] at hp
        simp [Place.installed, keeps, hres, hp]
      · simpa [Place.installed, keeps, hj] using hp
    | disposed => simpa [Place.installed, keeps, hdisposed] using hp

theorem custody_take {made : ℕ} (tenants : List String) (h : Custody (keeps w) made)
    (hkeeps : (w.phase i).keeps = [])
    (hkeeps' : ∀ n, n ∈ p'.keeps ↔ ∃ t ∈ tenants, w.shared.resource t = some n)
    (hdisposed : s'.disposed = w.shared.disposed)
    (hres : ∀ t, s'.resource t = if t ∈ tenants then none else w.shared.resource t) :
    Custody (keeps (w.put i (s', p'))) made := by
  refine h.move (fun p _ => p.taken i tenants) fun q n => ?_
  constructor
  · intro hq
    cases q with
    | entry t =>
      simp only [keeps, Tasks.put_shared, hres] at hq
      split_ifs at hq with ht
      exact ⟨.entry t, hq, by simp [Place.taken, ht]⟩
    | call j =>
      by_cases hj : j = i
      · subst hj
        simp only [keeps, Tasks.put_phase, Function.update_self] at hq
        obtain ⟨t, ht, hn⟩ := (hkeeps' n).mp hq
        exact ⟨.entry t, hn, by simp [Place.taken, ht]⟩
      · exact ⟨.call j, by simpa [keeps, hj] using hq, rfl⟩
    | disposed => exact ⟨.disposed, by simpa [keeps, hdisposed] using hq, rfl⟩
  · rintro ⟨p, hp, rfl⟩
    cases p with
    | entry t =>
      by_cases ht : t ∈ tenants
      · simp only [Place.taken, ht, if_true, keeps, Tasks.put_phase, Function.update_self]
        exact (hkeeps' n).mpr ⟨t, ht, hp⟩
      · simpa [Place.taken, keeps, hres, ht] using hp
    | call j =>
      have hj : j ≠ i := by
        rintro rfl
        simp [keeps, hkeeps] at hp
      simpa [Place.taken, keeps, hj] using hp
    | disposed => simpa [Place.taken, keeps, hdisposed] using hp

theorem custody_pass {made : ℕ} (resource : ℕ) (h : Custody (keeps w) made)
    (hkeeps : (w.phase i).keeps = resource :: p'.keeps) (hnodup : (w.phase i).keeps.Nodup)
    (hdisposed : s'.disposed = w.shared.disposed ++ [resource])
    (hres : s'.resource = w.shared.resource) : Custody (keeps (w.put i (s', p'))) made := by
  rw [hkeeps, nodup_cons] at hnodup
  refine h.move (Place.passed i resource) fun q n => ?_
  constructor
  · intro hq
    cases q with
    | entry t => exact ⟨.entry t, by simpa [keeps, hres] using hq, rfl⟩
    | call j =>
      by_cases hj : j = i
      · subst hj
        simp only [keeps, Tasks.put_phase, Function.update_self] at hq
        have hn : n ≠ resource := by
          rintro rfl
          exact hnodup.1 hq
        exact ⟨.call j, by simp [keeps, hkeeps, hq], by simp [Place.passed, hn]⟩
      · exact ⟨.call j, by simpa [keeps, hj] using hq, by simp [Place.passed, hj]⟩
    | disposed =>
      simp only [keeps, Tasks.put_shared, hdisposed, mem_append, mem_singleton] at hq
      rcases hq with hq | rfl
      · exact ⟨.disposed, hq, rfl⟩
      · exact ⟨.call i, by simp [keeps, hkeeps], by simp [Place.passed]⟩
  · rintro ⟨p, hp, rfl⟩
    cases p with
    | entry t => simpa [Place.passed, keeps, hres] using hp
    | call j =>
      by_cases hj : j = i
      · subst hj
        simp only [keeps, hkeeps, mem_cons] at hp
        by_cases hn : n = resource
        · simp [Place.passed, hn, keeps, hdisposed]
        · simpa [Place.passed, hn, keeps] using hp.resolve_left hn
      · simpa [Place.passed, keeps, hj] using hp
    | disposed => simp [Place.passed, keeps, hdisposed, show n ∈ w.shared.disposed from hp]

theorem mem_resources {s : State} {stale : List (String × Entry)}
    (hsub : stale.Sublist s.entries.entries) (n : ℕ) :
    n ∈ stale.map (·.2.resource) ↔ ∃ t ∈ stale.map Prod.fst, s.resource t = some n := by
  have hget : ∀ q ∈ stale, s.resource q.1 = some q.2.resource := by
    intro q hq
    rw [State.resource, Dict.mem_entries.mp (hsub.subset hq)]
    rfl
  constructor
  · intro hn
    obtain ⟨q, hq, rfl⟩ := mem_map.mp hn
    exact ⟨q.1, mem_map_of_mem hq, hget q hq⟩
  · rintro ⟨t, ht, hn⟩
    obtain ⟨q, hq, rfl⟩ := mem_map.mp ht
    rw [hget q hq] at hn
    cases hn
    exact mem_map_of_mem hq

def Phase.awaits (tenant : String) : Phase → Prop
  | .factory t _ | .poolLock t _ _ => t = tenant
  | _ => False

/-- **Each resource is in one place**, whatever a call does. -/
theorem custody_moves (h : Custody (keeps w) w.shared.made) (hnodup : (w.phase i).keeps.Nodup)
    (habsent : ∀ t, (w.phase i).awaits t → w.shared.resource t = none)
    (hm : Moves cfg w.shared (w.phase i) s' p') :
    Custody (keeps (w.put i (s', p'))) s'.made := by
  generalize hp : w.phase i = p at hm
  cases hm with
  | waits _ hphase =>
    refine h.same (keeps_put rfl rfl ?_)
    rw [hp]
    rcases hphase with rfl | ⟨rfl, -⟩ | rfl | ⟨_, _, rfl⟩ | ⟨_, rfl⟩ | ⟨_, rfl⟩ <;> rfl
  | touches _ now _ _ _ hphase hget =>
    refine h.same (keeps_put (resource_touch now hget) rfl ?_)
    rw [hp]
    rcases hphase with rfl | rfl <;> rfl
  | enters => exact h.same (keeps_put (resource_count ..) rfl (by rw [hp]; rfl))
  | leaves _ _ _ _ hphase =>
    refine h.same (keeps_put (resource_count ..) rfl ?_)
    rw [hp]
    rcases hphase with rfl | ⟨_, rfl⟩ <;> rfl
  | made tenant lease =>
    refine h.fresh (.call i) fun q n => ?_
    cases q with
    | entry t => simp [keeps, State.resource]
    | call j =>
      by_cases hj : j = i
      · subst hj
        simp [keeps, hp, Phase.keeps]
      · simp [keeps, hj]
    | disposed => simp [keeps]
  | installs now tenant lease resource =>
    refine custody_install resource h ?_ rfl (habsent tenant ?_) rfl fun t => ?_
    · rw [hp]
      rfl
    · rw [hp]
      rfl
    · simp only [State.resource, Dict.get?_set]
      split_ifs <;> rfl
  | evicts now tenant lease resource hfree evicted entry hover =>
    obtain ⟨hget, -, -⟩ := overCapacity_eq_some hover
    -- the new entry is installed, the evicted one is taken, and its resource passed to the closer
    have hinstall : Custody (keeps (w.put i
        ({ w.shared with
            entries := w.shared.entries.set tenant { resource := resource, lastUsed := now } },
          .returning tenant lease resource))) w.shared.made := by
      refine custody_install resource h ?_ rfl (habsent tenant ?_) rfl fun t => ?_
      · rw [hp]
        rfl
      · rw [hp]
        rfl
      · simp only [State.resource, Dict.get?_set]
        split_ifs <;> rfl
    have htake : Custody (keeps (w.put i
        ({ w.shared with
            entries := (w.shared.entries.set tenant
              { resource := resource, lastUsed := now }).erase evicted },
          .disposing [entry.resource] false))) w.shared.made := by
      rw [← Tasks.put_put]
      refine custody_take [evicted] hinstall ?_ (fun n => ?_) rfl fun t => ?_
      · rw [Tasks.put_phase_self]
        rfl
      · simp [Phase.keeps, State.resource, hget, eq_comm]
      · simp only [State.resource, Tasks.put_shared, Dict.get?_erase, mem_singleton]
        split_ifs <;> rfl
    rw [← Tasks.put_put]
    refine custody_pass entry.resource htake ?_ ?_ rfl rfl
    · rw [Tasks.put_phase_self]
      rfl
    · rw [Tasks.put_phase_self]
      exact nodup_singleton _
  | removes _ stale hphase hfree hsub hidle =>
    refine custody_take _ h ?_ (mem_resources hsub) rfl fun t => ?_
    · rw [hp]
      rcases hphase with ⟨_, rfl⟩ | ⟨_, rfl⟩ <;> rfl
    · simp only [State.resource, Dict.get?_foldl_erase]
      split_ifs <;> rfl
  | shuts =>
    have hvalues : w.shared.entries.values.map (·.resource) =
        w.shared.entries.entries.map (·.2.resource) := by
      simp [Dict.values]
    rw [hvalues]
    refine custody_take _ h ?_ (mem_resources (List.Sublist.refl _)) rfl fun t => ?_
    · rw [hp]
      rfl
    · split_ifs with ht
      · rfl
      · cases hget : w.shared.entries.get? t with
        | none => simp [State.resource, hget]
        | some entry => exact absurd (mem_map_of_mem (Dict.mem_entries.mpr hget)) ht
  | ends shutdown => exact h.same (keeps_put rfl rfl (by rw [hp]; cases shutdown <;> rfl))
  | disposes resource resources =>
    refine custody_pass resource h ?_ hnodup rfl rfl
    rw [hp]
    rfl
  | _ => exact h.same (keeps_put rfl rfl (by rw [hp]; rfl))

end

end TenantResourcePool

end Varco
