import Varco.Tenancy.PoolMoves
import Mathlib.Data.Finset.Card

/-!
# A leased resource is not closed

What every move keeps (`Sound`): who holds the locks, that the factory is at work for a tenant that
has no entry, where each resource is, and that an entry counts the leases on it. So an entry that is
leased is never taken out of the pool, and its resource is not closed.
-/

namespace Varco

open List

namespace TenantResourcePool

variable {cfg : Config} {ι : Type}

/-- The call is in the body of a `lease` that is counted by the entry with this resource. -/
def Phase.leases (entry : ℕ) : Phase → Prop
  | .leased _ _ e => e = entry
  | _ => False

/-- A lease is on the resource of the entry that counts it; that resource is no longer on its way
into the pool, it is under no other tenant, and while the pool is open it is there. -/
structure Leased (w : Users ι) (tenant : String) (resource entry : ℕ) : Prop where
  eq : resource = entry
  known : entry < w.shared.made
  installed : ∀ i t lease, w.phase i ≠ .poolLock t lease entry
  only : ∀ t, w.shared.resource t = some entry → t = tenant
  present : w.shared.closed = false → w.shared.resource tenant = some entry

/-- What every move keeps. -/
structure Sound (w : Users ι) : Prop where
  pool : Mutex (w.shared.poolLock = true) Phase.evicts w.phase
  creation : ∀ t, Mutex (t ∈ w.shared.creationLocks) (Phase.creates t) w.phase
  absent : ∀ i t, (w.phase i).awaits t → w.shared.resource t = none
  installed : ∀ i t lease resource, w.phase i = .evicting t lease resource →
    w.shared.resource t = some resource
  custody : Custody (keeps w) w.shared.made
  once : w.shared.disposed.Nodup
  kept : ∀ i, (w.phase i).keeps.Nodup
  counted : ∀ t entry, w.shared.entries.get? t = some entry → ∃ lessees : Finset ι,
    (∀ i, i ∈ lessees ↔ (w.phase i).leases entry.resource) ∧ entry.refcount = lessees.card
  leased : ∀ i t resource entry, w.phase i = .leased t resource entry → Leased w t resource entry

theorem sound_fresh : Sound (fresh ι) := by
  constructor
  · exact ⟨fun i hi => hi.elim, fun i j hi => hi.elim⟩
  · exact fun t => ⟨fun i hi => hi.elim, fun i j hi => hi.elim⟩
  · exact fun i t => False.elim
  · intro i t lease resource h
    cases h
  · refine ⟨fun p n hp => ?_, fun p q n hp => ?_, fun n hn => absurd hn (Nat.not_lt_zero n)⟩
    · cases p with
      | entry t => cases hp
      | _ => exact absurd hp not_mem_nil
    · cases p with
      | entry t => cases hp
      | _ => exact absurd hp not_mem_nil
  · exact nodup_nil
  · exact fun i => nodup_nil
  · intro t entry h
    cases h
  · intro i t resource entry h
    cases h

section

variable [DecidableEq ι] {w : Users ι} {i : ι} {s' : State} {p' : Phase}

theorem absent_moves (h : Sound w) (hm : Moves cfg w.shared (w.phase i) s' p') (j : ι) (t : String)
    (hj : ((w.put i (s', p')).phase j).awaits t) : s'.resource t = none := by
  by_cases hji : j = i
  · rw [hji, Tasks.put_phase_self] at hj
    generalize hp : w.phase i = p at hm
    cases hm with
    | waits _ hphase =>
      rcases hphase with rfl | ⟨rfl, -⟩ | rfl | ⟨_, _, rfl⟩ | ⟨_, rfl⟩ | ⟨_, rfl⟩ <;>
        cases hj
    | creates tenant lease hfree hget =>
      cases hj
      simp [State.resource, hget]
    | made tenant lease => exact h.absent i t (by rw [hp]; exact hj)
    | leaves _ _ _ _ hphase => rcases hphase with rfl | ⟨_, rfl⟩ <;> cases hj
    | ends shutdown => cases shutdown <;> cases hj
    | _ => cases hj
  · rw [Tasks.put_phase_of_ne hji] at hj
    have hnone := h.absent j t hj
    rcases hm.resource_cases t with hsame | ⟨-, hgone | ⟨lease, resource, hp, -⟩⟩
    · rw [hsame, hnone]
    · exact hgone
    · -- the task that installs keeps the creation lock of the tenant
      refine absurd ((h.creation t).unique j i ?_ ?_) hji
      · cases hpj : w.phase j <;> rw [hpj] at hj <;> first | exact hj | exact hj.elim
      · rw [hp]
        rfl

theorem installed_moves (h : Sound w) (hm : Moves cfg w.shared (w.phase i) s' p') (j : ι)
    (t : String) (lease : Bool) (resource : ℕ)
    (hj : (w.put i (s', p')).phase j = .evicting t lease resource) :
    s'.resource t = some resource := by
  by_cases hji : j = i
  · rw [hji, Tasks.put_phase_self] at hj
    subst hj
    generalize hp : w.phase i = p at hm
    generalize hp' : Phase.evicting t lease resource = p' at hm
    cases hm with
    | waits _ hphase => simp [← hp'] at hphase
    | evicts now tenant lease resource hfree evicted entry hover =>
      cases hp'
      obtain ⟨-, -, hne⟩ := overCapacity_eq_some hover
      simp [State.resource, Dict.get?_erase, hne.symm]
    | leaves _ _ _ _ hphase => simp [← hp'] at hphase
    | ends shutdown => cases shutdown <;> cases hp'
    | _ => cases hp'
  · rw [Tasks.put_phase_of_ne hji] at hj
    -- the pool lock is held
    have hheld := h.pool.locked_of_holds j (by rw [hj]; trivial)
    rcases hm.resource_cases t with hsame | ⟨hfree, -⟩
    · rw [hsame, h.installed j t lease resource hj]
    · rw [hfree] at hheld
      cases hheld

variable {resource : ℕ} {t : String}

/-- An `ensure` that returns has found or made the entry of its tenant. -/
theorem returning_moves (h : Sound w) {lease : Bool}
    (hm : Moves cfg w.shared (w.phase i) s' (.returning t lease resource)) :
    s'.resource t = some resource := by
  generalize hp : w.phase i = p at hm
  generalize hp' : Phase.returning t lease resource = p' at hm
  cases hm with
  | waits _ hphase => simp [← hp'] at hphase
  | touches | installs =>
    cases hp'
    simp [State.resource]
  | evicted =>
    cases hp'
    exact h.installed i t lease resource hp
  | leaves _ _ _ _ hphase => simp [← hp'] at hphase
  | ends shutdown => cases shutdown <;> cases hp'
  | _ => cases hp'

/-- A resource is passed to the closer by who keeps it, and nobody else keeps it. -/
theorem once_moves (h : Sound w) (hm : Moves cfg w.shared (w.phase i) s' p') :
    s'.disposed.Nodup := by
  have hnew : ∀ resource, resource ∉ w.shared.disposed →
      (w.shared.disposed ++ [resource]).Nodup := by
    intro resource hres
    refine nodup_append.mpr ⟨h.once, nodup_singleton _, ?_⟩
    rintro n hn m hm rfl
    rw [mem_singleton] at hm
    exact hres (hm ▸ hn)
  have hkept : ∀ (q : Place ι) resource, q ≠ .disposed → keeps w q resource →
      resource ∉ w.shared.disposed :=
    fun q resource hne hq hres => hne (h.custody.unique q .disposed resource hq hres)
  generalize hp : w.phase i = p at hm
  cases hm with
  | evicts now tenant lease resource hfree evicted entry hover =>
    obtain ⟨hget, -, hne⟩ := overCapacity_eq_some hover
    rw [Dict.get?_set, if_neg hne] at hget
    exact hnew _ (hkept (.entry evicted) _ (by simp) (by simp [keeps, State.resource, hget]))
  | disposes resource resources =>
    exact hnew _ (hkept (.call i) _ (by simp) (by simp [keeps, hp, Phase.keeps]))
  | _ => exact h.once

theorem kept_moves (h : Sound w) (hm : Moves cfg w.shared (w.phase i) s' p') (j : ι) :
    ((w.put i (s', p')).phase j).keeps.Nodup := by
  have hstale : ∀ stale : List (String × Entry), stale.Sublist w.shared.entries.entries →
      (stale.map (·.2.resource)).Nodup := by
    intro stale hsub
    have hnodup : (stale.map Prod.fst).Nodup :=
      w.shared.entries.nodup.sublist (hsub.map Prod.fst)
    refine List.Nodup.map_on (fun q hq q' hq' he => ?_) (List.Nodup.of_map _ hnodup)
    -- two entries with one resource are one entry
    have hget := Dict.mem_entries.mp (hsub.subset hq)
    have hget' := Dict.mem_entries.mp (hsub.subset hq')
    have hplace := h.custody.unique (.entry q.1) (.entry q'.1) q.2.resource
      (by simp [keeps, State.resource, hget]) (by simp [keeps, State.resource, hget', he])
    exact inj_on_of_nodup_map hnodup hq hq' (Place.entry.inj hplace)
  by_cases hji : j = i
  · rw [hji, Tasks.put_phase_self]
    have hi := h.kept i
    generalize hp : w.phase i = p at hm hi
    cases hm with
    | waits _ hphase =>
      rcases hphase with rfl | ⟨rfl, -⟩ | rfl | ⟨_, _, rfl⟩ | ⟨_, rfl⟩ | ⟨_, rfl⟩ <;>
        exact nodup_nil
    | made => exact nodup_singleton _
    | leaves _ _ _ _ hphase => rcases hphase with rfl | ⟨_, rfl⟩ <;> exact nodup_nil
    | removes _ stale _ _ hsub => exact hstale stale hsub
    | shuts =>
      have hall := hstale _ (List.Sublist.refl _)
      simpa [Phase.keeps, Dict.values, Function.comp_def] using hall
    | goesOn => exact hi
    | ends shutdown => cases shutdown <;> exact nodup_nil
    | disposes => exact (nodup_cons.mp hi).2
    | _ => exact nodup_nil
  · rw [Tasks.put_phase_of_ne hji]
    exact h.kept j

/-! ## Leases -/

/-- The entry counts the calls that lease its resource. -/
def Counts (w : Users ι) (entry : Entry) : Prop :=
  ∃ lessees : Finset ι, (∀ i, i ∈ lessees ↔ (w.phase i).leases entry.resource) ∧
    entry.refcount = lessees.card

variable {entry' : Entry}

/-- Somebody is counted by an entry that is counted by the entry as it was before. -/
theorem counted_put (h : Sound w) {entry : Entry}
    (hget : w.shared.entries.get? t = some entry) (hres : entry'.resource = entry.resource)
    (hcount : entry'.refcount = entry.refcount)
    (hleases : p'.leases entry.resource ↔ (w.phase i).leases entry.resource) :
    Counts (w.put i (s', p')) entry' := by
  obtain ⟨lessees, hmem, hcard⟩ := h.counted t entry hget
  refine ⟨lessees, fun j => ?_, by rw [hcount, hcard]⟩
  rw [hmem, hres]
  by_cases hj : j = i
  · rw [hj, Tasks.put_phase_self, hleases]
  · rw [Tasks.put_phase_of_ne hj]

/-- Nobody has a lease on a resource that is not installed yet. -/
theorem not_leases_of_poolLock (h : Sound w) {tenant : String} {lease : Bool}
    (hp : w.phase i = .poolLock tenant lease resource) (j : ι) : ¬(w.phase j).leases resource := by
  intro hj
  cases hpj : w.phase j with
  | leased t r entry =>
    rw [hpj] at hj
    cases hj
    exact (h.leased j t r _ hpj).installed i tenant lease hp
  | _ =>
    rw [hpj] at hj
    exact hj

/-- A new entry is leased by nobody, and the others are counted as before. -/
theorem counted_install (h : Sound w) {tenant : String} {lease : Bool} {now : ℚ}
    (hp : w.phase i = .poolLock tenant lease resource)
    (hleases : ∀ n, ¬p'.leases n)
    (ht : (w.shared.entries.set tenant { resource := resource, lastUsed := now }).get? t =
      some entry') :
    Counts (w.put i (s', p')) entry' := by
  rw [Dict.get?_set] at ht
  split_ifs at ht
  · cases ht
    refine ⟨∅, fun j => ?_, rfl⟩
    by_cases hj : j = i
    · subst hj
      simp [hleases]
    · simp [hj, not_leases_of_poolLock h hp j]
  · exact counted_put h ht rfl rfl ⟨fun hl => absurd hl (hleases _), by rw [hp]; exact False.elim⟩

theorem get?_of_foldl_erase {entries : Dict String Entry} {ts : List String}
    {entry : Entry} (h : (ts.foldl Dict.erase entries).get? t = some entry) :
    entries.get? t = some entry := by
  rw [Dict.get?_foldl_erase] at h
  split_ifs at h
  exact h

variable (h : Sound w)

include h

omit [DecidableEq ι] in
/-- Two entries with one resource are entries of one tenant. -/
theorem tenant_unique {t' : String} {entry : Entry}
    (ht : w.shared.entries.get? t = some entry) (ht' : w.shared.entries.get? t' = some entry')
    (he : entry.resource = entry'.resource) : t = t' := by
  have hplace := h.custody.unique (.entry t) (.entry t') entry.resource
    (by simp [keeps, State.resource, ht]) (by simp [keeps, State.resource, ht', he])
  exact Place.entry.inj hplace

theorem counted_enter {tenant : String} {entry : Entry}
    (hp : w.phase i = .returning tenant true resource)
    (hget : w.shared.entries.get? tenant = some entry)
    (ht : (recount 1 tenant entry.resource w.shared.entries).get? t = some entry') :
    Counts (w.put i (s', .leased tenant resource entry.resource)) entry' := by
  rw [get?_recount] at ht
  obtain ⟨found, hfound, rfl⟩ := Option.map_eq_some_iff.mp ht
  have hi : ∀ n, ¬(w.phase i).leases n := fun n => by rw [hp]; exact not_false
  split_ifs with hcase
  · -- the entry counts one lease more
    obtain ⟨lessees, hmem, hcard⟩ := h.counted t found hfound
    have hnot : i ∉ lessees := fun hm => hi _ ((hmem i).mp hm)
    refine ⟨insert i lessees, fun j => ?_, ?_⟩
    · by_cases hj : j = i
      · subst hj
        simp [Phase.leases, hcase.2]
      · simp [hj, hmem]
    · rw [Finset.card_insert_of_notMem hnot]
      push_cast
      rw [hcard]
  · refine counted_put h hfound rfl rfl ⟨fun hl => absurd ?_ hcase, fun hl => absurd hl (hi _)⟩
    exact ⟨tenant_unique h hfound hget (Eq.symm hl), Eq.symm hl⟩

theorem counted_leave {tenant : String} {entry : ℕ}
    (hp : w.phase i = .leased tenant resource entry) (hleases : ∀ n, ¬p'.leases n)
    (ht : (recount (-1) tenant entry w.shared.entries).get? t = some entry') :
    Counts (w.put i (s', p')) entry' := by
  rw [get?_recount] at ht
  obtain ⟨found, hfound, rfl⟩ := Option.map_eq_some_iff.mp ht
  split_ifs with hcase
  · -- the entry counts one lease less
    obtain ⟨lessees, hmem, hcard⟩ := h.counted t found hfound
    have hi : i ∈ lessees := by
      rw [hmem, hp]
      exact hcase.2.symm
    refine ⟨lessees.erase i, fun j => ?_, ?_⟩
    · by_cases hj : j = i
      · subst hj
        simp [hleases]
      · simp [hj, hmem]
    · have hpos := Finset.card_pos.mpr ⟨i, hi⟩
      rw [Finset.card_erase_of_mem hi]
      simp only [hcard]
      omega
  · refine counted_put h hfound rfl rfl ⟨fun hl => absurd hl (hleases _), fun hl => ?_⟩
    rw [hp] at hl
    have hres : w.shared.resource t = some entry := by
      simp [State.resource, hfound, show entry = found.resource from hl]
    exact absurd ⟨(h.leased i tenant resource entry hp).only t hres, Eq.symm hl⟩ hcase

theorem counted_moves (hm : Moves cfg w.shared (w.phase i) s' p') (t : String) (entry' : Entry)
    (ht : s'.entries.get? t = some entry') : Counts (w.put i (s', p')) entry' := by
  generalize hp : w.phase i = p at hm
  cases hm with
  | waits _ hphase =>
    refine counted_put h ht rfl rfl ?_
    rw [hp]
    rcases hphase with rfl | ⟨rfl, -⟩ | rfl | ⟨_, _, rfl⟩ | ⟨_, rfl⟩ | ⟨_, rfl⟩ <;> rfl
  | touches _ now tenant lease entry hphase hget =>
    have hleases : ∀ n, ¬(w.phase i).leases n := by
      rw [hp]
      rcases hphase with rfl | rfl <;> exact fun _ => not_false
    rw [Dict.get?_set] at ht
    split_ifs at ht with htt
    · cases ht
      subst htt
      exact counted_put h hget rfl rfl ⟨False.elim, fun hl => absurd hl (hleases _)⟩
    · exact counted_put h ht rfl rfl ⟨False.elim, fun hl => absurd hl (hleases _)⟩
  | installs now tenant lease resource => exact counted_install h hp (fun _ => not_false) ht
  | evicts now tenant lease resource =>
    rw [Dict.get?_erase] at ht
    split_ifs at ht
    exact counted_install h hp (fun _ => not_false) ht
  | enters tenant resource entry hget => exact counted_enter h hp hget ht
  | leaves tenant resource entry _ hphase =>
    refine counted_leave h hp (fun n => ?_) ht
    rcases hphase with rfl | ⟨_, rfl⟩ <;> exact not_false
  | removes _ stale hphase =>
    refine counted_put h (get?_of_foldl_erase ht) rfl rfl ?_
    rw [hp]
    rcases hphase with ⟨_, rfl⟩ | ⟨_, rfl⟩ <;> rfl
  | shuts => cases ht
  | ends shutdown =>
    refine counted_put h ht rfl rfl ?_
    rw [hp]
    cases shutdown <;> rfl
  | _ => exact counted_put h ht rfl rfl (by rw [hp]; rfl)

theorem leased_other (hm : Moves cfg w.shared (w.phase i) s' p') {j : ι} {entry : ℕ}
    (hj : w.phase j = .leased t resource entry) : Leased (w.put i (s', p')) t resource entry := by
  have hleased := h.leased j t resource entry hj
  have hnot : ∀ t' lease, w.phase i ≠ .poolLock t' lease entry := hleased.installed i
  constructor
  · exact hleased.eq
  · exact lt_of_lt_of_le hleased.known hm.made_le
  · intro k t' lease hk
    by_cases hki : k = i
    · rw [hki, Tasks.put_phase_self] at hk
      subst hk
      exact absurd hm.eq_made hleased.known.ne
    · rw [Tasks.put_phase_of_ne hki] at hk
      exact hleased.installed k t' lease hk
  · intro t' ht'
    rcases hm.resource_cases t' with hsame | ⟨-, hgone | ⟨lease, r, hp, hr⟩⟩
    · exact hleased.only t' (hsame.symm.trans ht')
    · cases hgone.symm.trans ht'
    · cases hr.symm.trans ht'
      exact absurd hp (hnot t' lease)
  · intro hopen
    have hwas : w.shared.closed = false := by
      by_contra hclosed
      cases hopen.symm.trans (hm.closed_mono (eq_true_of_ne_false hclosed))
    have hthere := hleased.present hwas
    rcases hm.resource_cases t with hsame | ⟨-, hgone | ⟨lease, r, hp, hr⟩⟩
    · exact hsame.trans hthere
    · -- the entry counts the lease
      obtain ⟨found, hget, hfound⟩ := Option.map_eq_some_iff.mp hthere
      obtain ⟨lessees, hmem, hcard⟩ := h.counted t found hget
      have hpos := Finset.card_pos.mpr ⟨j, (hmem j).mpr (by rw [hj, hfound]; rfl)⟩
      rcases hm.idle_of_removed hget hgone with hidle | hclosed
      · omega
      · cases hopen.symm.trans hclosed
    · have habsent := h.absent i t (by rw [hp]; rfl)
      cases hthere.symm.trans habsent

/-- A call gets its lease on the entry that its `ensure` has returned. -/
theorem leased_enter {entry : ℕ}
    (hm : Moves cfg w.shared (w.phase i) s' (.leased t resource entry))
    (hret : ∀ t lease r, w.phase i = .returning t lease r → w.shared.resource t = some r) :
    Leased (w.put i (s', .leased t resource entry)) t resource entry := by
  generalize hp : w.phase i = p at hm
  generalize hp' : Phase.leased t resource entry = p' at hm
  cases hm with
  | waits _ hphase => simp [← hp'] at hphase
  | enters tenant resource found hget =>
    cases hp'
    have hthere := hret _ _ _ hp
    have hfound : w.shared.resource t = some found.resource := by simp [State.resource, hget]
    cases hthere.symm.trans hfound
    have hres : (count 1 t found.resource w.shared).resource = w.shared.resource :=
      resource_count ..
    constructor
    · rfl
    · exact h.custody.known (.entry t) _ hfound
    · intro j t' lease hj
      have hne : j ≠ i := by
        rintro rfl
        rw [Tasks.put_phase_self] at hj
        cases hj
      rw [Tasks.put_phase_of_ne hne] at hj
      have hkeeps : keeps w (.call j) found.resource := by simp [keeps, hj, Phase.keeps]
      cases h.custody.unique (.entry t) (.call j) _ hfound hkeeps
    · intro t' ht'
      rw [Tasks.put_shared, hres] at ht'
      have hplace := h.custody.unique (.entry t') (.entry t) _ ht' hfound
      exact Place.entry.inj hplace
    · intro _
      rw [Tasks.put_shared, hres]
      exact hfound
  | leaves _ _ _ _ hphase => simp [← hp'] at hphase
  | ends shutdown => cases shutdown <;> cases hp'
  | _ => cases hp'

/-- **The invariant is kept by every move.** -/
theorem Sound.moves (hm : Moves cfg w.shared (w.phase i) s' p')
    (hret : ∀ t lease r, w.phase i = .returning t lease r → w.shared.resource t = some r) :
    Sound (w.put i (s', p')) where
  pool := h.pool.update hm.poolLock.1 hm.poolLock.2
  creation t := (h.creation t).update (hm.creationLock t).1 (hm.creationLock t).2
  absent := absent_moves h hm
  installed := installed_moves h hm
  custody := custody_moves h.custody (h.kept i) (h.absent i) hm
  once := once_moves h hm
  kept := kept_moves h hm
  counted := counted_moves h hm
  leased := by
    intro j t resource entry hj
    by_cases hji : j = i
    · rw [hji, Tasks.put_phase_self] at hj
      subst hj
      exact leased_enter h hm hret
    · rw [Tasks.put_phase_of_ne hji] at hj
      exact leased_other h hm hj

end

section

variable [DecidableEq ι] {w w' : Users ι} {a : ι × ℚ × Input} {l : List (ι × ℚ × Input)}
  {t : String}

theorem next_returning {cfg : Config} {x : ℚ × Input} {s : State} {lease : Bool}
    {resource : ℕ} : next cfg x s (.returning t lease resource) = none := by
  obtain ⟨now, input⟩ := x
  cases input <;> rfl

/-- Only a `lease` that finds no entry ends with a `KeyError`. -/
theorem Moves.returning_of_keyError {s s' : State} {p : Phase}
    (h : Moves cfg s p s' (.keyError t)) :
    (∃ resource, p = .returning t true resource) ∧ s.resource t = none := by
  generalize hp' : Phase.keyError t = p' at h
  cases h with
  | waits _ hp => simp [← hp'] at hp
  | misses tenant resource hget =>
    cases hp'
    exact ⟨⟨resource, rfl⟩, by simp [State.resource, hget]⟩
  | leaves _ _ _ _ hp => simp [← hp'] at hp
  | ends shutdown => cases shutdown <;> cases hp'
  | _ => cases hp'

/-- **What a task does from one await to the next keeps the invariant**, and it finds the entry of
its lease. -/
theorem sound_step (h : Sound w) (hst : Step cfg w a w') :
    Sound w' ∧ ∀ t, w'.phase a.1 ≠ .keyError t := by
  obtain ⟨q, hnext, rfl⟩ := hst
  have hret : ∀ t lease r, w.phase a.1 = .returning t lease r →
      w.shared.resource t = some r := by
    intro t lease r hp
    rw [hp, next_returning] at hnext
    cases hnext
  obtain ⟨q₁, hmoves, rfl | ⟨-, hmoves'⟩⟩ := moves_of_next hnext
  · refine ⟨h.moves hmoves hret, fun t hkey => ?_⟩
    rw [Tasks.put_phase_self] at hkey
    rw [hkey] at hmoves
    obtain ⟨⟨r, hp⟩, hnone⟩ := hmoves.returning_of_keyError
    cases (hret t true r hp).symm.trans hnone
  · -- the second move goes on from where the first one has led
    have h₁ := h.moves hmoves hret
    have hret₁ : ∀ t lease r, q₁.2 = .returning t lease r → q₁.1.resource t = some r := by
      intro t lease r hq
      rw [hq] at hmoves
      exact returning_moves h hmoves
    have hsound := h₁.moves (i := a.1) (by rwa [Tasks.put_phase_self])
      (by rwa [Tasks.put_phase_self])
    rw [Tasks.put_put] at hsound
    refine ⟨hsound, fun t hkey => ?_⟩
    rw [Tasks.put_phase_self] at hkey
    rw [hkey] at hmoves'
    obtain ⟨⟨r, hp⟩, hnone⟩ := hmoves'.returning_of_keyError
    cases (hret₁ t true r hp).symm.trans hnone

/-- While `aclose` is not called the pool is open. -/
structure Open (w : Users ι) : Prop where
  closed : w.shared.closed = false
  calls : ∀ i, w.phase i ≠ .acloseLock

theorem open_step (h : Open w) (hst : Step cfg w a w') (ha : a.2.2 ≠ .call .aclose) : Open w' := by
  obtain ⟨q, hnext, rfl⟩ := hst
  constructor
  · obtain ⟨q₁, hmoves, rfl | ⟨hpassing, hmoves'⟩⟩ := moves_of_next hnext
    · exact (hmoves.closed_cases.resolve_right (h.calls a.1)).trans h.closed
    · have h₁ := (hmoves.closed_cases.resolve_right (h.calls a.1)).trans h.closed
      refine (hmoves'.closed_cases.resolve_right fun hlock => ?_).trans h₁
      rw [hlock] at hpassing
      exact hpassing
  · intro j hj
    by_cases hji : j = a.1
    · rw [hji, Tasks.put_phase_self] at hj
      have hcall : next cfg a.2 w.shared (w.phase a.1) = some (q.1, .acloseLock) := by
        rw [hnext, ← hj]
      exact ha (call_of_acloseLock hcall)
    · rw [Tasks.put_phase_of_ne hji] at hj
      exact h.calls j hj

/-- A call raises where its factory or the body of its `lease` has raised. -/
theorem raised_step (hst : Step cfg w a w') {e : Exc} (he : w'.phase a.1 = .raised e) :
    (∃ t lease, w.phase a.1 = .factory t lease) ∨
      ∃ t resource entry, w.phase a.1 = .leased t resource entry := by
  have hfrom : ∀ (s s' : State) (p : Phase), Moves cfg s p s' (.raised e) →
      (∃ t lease, p = .factory t lease) ∨ ∃ t resource entry, p = .leased t resource entry := by
    intro s s' p hm
    generalize hp' : Phase.raised e = p' at hm
    cases hm with
    | waits _ hp => simp [← hp'] at hp
    | fails t lease => exact .inl ⟨t, lease, rfl⟩
    | leaves t resource entry => exact .inr ⟨t, resource, entry, rfl⟩
    | ends shutdown => cases shutdown <;> cases hp'
    | _ => cases hp'
  obtain ⟨q, hnext, rfl⟩ := hst
  rw [Tasks.put_phase_self] at he
  obtain ⟨q₁, hmoves, rfl | ⟨hpassing, hmoves'⟩⟩ := moves_of_next hnext
  · rw [he] at hmoves
    exact hfrom _ _ _ hmoves
  · rw [he] at hmoves'
    rcases hfrom _ _ _ hmoves' with ⟨t, lease, hq⟩ | ⟨t, resource, entry, hq⟩ <;>
    · rw [hq] at hpassing
      exact hpassing.elim

/-- What is promised of a pool that is not closed: no resource is closed while it is leased; a
`lease` finds its entry, and raises only what its factory or its body has raised; the closer gets
each resource once; one factory is at work for a tenant, and if it fails there is no entry. -/
structure LeaseSafe (cfg : Config) (w : Users ι) : Prop where
  leased : ∀ i t resource entry, w.phase i = .leased t resource entry →
    resource ∉ w.shared.disposed
  entered : ∀ i t, w.phase i ≠ .keyError t
  raised : ∀ a w' e, Step cfg w a w' → w'.phase a.1 = .raised e →
    (∃ t lease, w.phase a.1 = .factory t lease) ∨
      ∃ t resource entry, w.phase a.1 = .leased t resource entry
  once : w.shared.disposed.Nodup
  one_factory : ∀ i j t lease lease', w.phase i = .factory t lease →
    w.phase j = .factory t lease' → i = j
  failed : ∀ i t lease now e w', w.phase i = .factory t lease →
    Step cfg w (i, now, .resume (.error e)) w' →
      w'.phase i = .raised e ∧ w'.shared.entries.get? t = none

theorem resource_eq_none {s : State} :
    s.resource t = none ↔ s.entries.get? t = none := by
  simp [State.resource]

end

end TenantResourcePool

end Varco
