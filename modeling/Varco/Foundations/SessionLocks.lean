import Mathlib.Data.Nat.Basic
import Mathlib.Logic.Function.Basic

/-!
# Sessions that are pinned, and the locks they hold

Resources that are taken from a pool and given back (`Pinned`): each one has at most one owner, and
none while it lies in the pool. And the counted locks of database sessions (`SessionLocks`), where a
key is held by one session, as often as that session has taken it.
-/

namespace Varco

open Function

/-! ## Pinned resources -/

/-- No two owners have the same resource, and what is in the pool has no owner. -/
structure Pinned {O S : Type*} (owned : O → Option S) (inPool : S → Bool) : Prop where
  unique : ∀ o o' c, owned o = some c → owned o' = some c → o = o'
  out : ∀ o c, owned o = some c → inPool c = false

namespace Pinned

variable {O S : Type*} [DecidableEq O] {owned : O → Option S} {inPool : S → Bool} {o o' : O} {c : S}

theorem drop (h : Pinned owned inPool) (o : O) : Pinned (update owned o none) inPool := by
  have hold : ∀ {o' c}, update owned o none o' = some c → owned o' = some c := by
    intro o' c hc
    by_cases ho : o' = o
    · rw [ho, update_self] at hc
      cases hc
    · rwa [update_of_ne ho] at hc
  exact ⟨fun o' o'' c h₁ h₂ => h.unique o' o'' c (hold h₁) (hold h₂),
    fun o' c h₁ => h.out o' c (hold h₁)⟩

theorem give (h : Pinned owned inPool) (hfree : ∀ o', owned o' ≠ some c) (hout : inPool c = false)
    (o : O) : Pinned (update owned o (some c)) inPool := by
  have hcases : ∀ {o' c'}, update owned o (some c) o' = some c' →
      o' = o ∧ c' = c ∨ o' ≠ o ∧ owned o' = some c' := by
    intro o' c' hc
    by_cases ho : o' = o
    · subst ho
      rw [update_self] at hc
      exact Or.inl ⟨rfl, (Option.some.inj hc).symm⟩
    · rw [update_of_ne ho] at hc
      exact Or.inr ⟨ho, hc⟩
  constructor
  · intro o₁ o₂ c' h₁ h₂
    rcases hcases h₁ with ⟨rfl, rfl⟩ | ⟨-, hold₁⟩
    · rcases hcases h₂ with ⟨rfl, -⟩ | ⟨-, hold₂⟩
      · rfl
      · exact absurd hold₂ (hfree o₂)
    · rcases hcases h₂ with ⟨rfl, rfl⟩ | ⟨-, hold₂⟩
      · exact absurd hold₁ (hfree o₁)
      · exact h.unique o₁ o₂ c' hold₁ hold₂
  · intro o' c' h'
    rcases hcases h' with ⟨rfl, rfl⟩ | ⟨-, h'⟩
    · exact hout
    · exact h.out o' c' h'

variable [DecidableEq S]

theorem take (h : Pinned owned inPool) (hc : inPool c = true) (o : O) :
    Pinned (update owned o (some c)) (update inPool c false) := by
  have hout : Pinned owned (update inPool c false) := by
    refine ⟨h.unique, fun o' c' h' => ?_⟩
    by_cases hcc : c' = c
    · rw [hcc, update_self]
    · rw [update_of_ne hcc]
      exact h.out o' c' h'
  refine hout.give (fun o' ho' => ?_) (update_self ..) o
  rw [h.out o' c ho'] at hc
  cases hc

theorem giveBack (h : Pinned owned inPool) (ho : owned o = some c) :
    Pinned (update owned o none) (update inPool c true) := by
  refine ⟨(h.drop o).unique, fun o' c' h' => ?_⟩
  have hne : c' ≠ c := by
    rintro rfl
    by_cases hoo : o' = o
    · rw [hoo, update_self] at h'
      cases h'
    · rw [update_of_ne hoo] at h'
      exact hoo (h.unique o' o c' h' ho)
  rw [update_of_ne hne]
  exact (h.drop o).out o' c' h'

omit [DecidableEq S] in
theorem pass (h : Pinned owned inPool) (ho : owned o = some c) (o' : O) :
    Pinned (update (update owned o none) o' (some c)) inPool := by
  refine (h.drop o).give (fun o'' h'' => ?_) (h.out o c ho) o'
  by_cases hoo : o'' = o
  · rw [hoo, update_self] at h''
    cases h''
  · rw [update_of_ne hoo] at h''
    exact hoo (h.unique o'' o c h'' ho)

end Pinned

/-! ## Locks of sessions -/

/-- The session that holds a key, and how often it has taken it beyond the first time. -/
abbrev SessionLocks (K S : Type*) := K → Option (S × ℕ)

namespace SessionLocks

variable {K S : Type*} {locks : SessionLocks K S} {c c' : S} {k k' : K} {n : ℕ}

def Holds (locks : SessionLocks K S) (c : S) (k : K) : Prop := ∃ n, locks k = some (c, n)

theorem Holds.unique (h : locks.Holds c k) (h' : locks.Holds c' k) : c = c' := by
  obtain ⟨n, hn⟩ := h
  obtain ⟨n', hn'⟩ := h'
  cases hn.symm.trans hn'
  rfl

variable [DecidableEq S]

def tryLock [DecidableEq K] (locks : SessionLocks K S) (c : S) (k : K) : Bool × SessionLocks K S :=
  match locks k with
  | none => (true, update locks k (some (c, 0)))
  | some (c', n) =>
    if c' = c then (true, update locks k (some (c, n + 1))) else (false, locks)

def unlock [DecidableEq K] (locks : SessionLocks K S) (c : S) (k : K) : SessionLocks K S :=
  match locks k with
  | none => locks
  | some (c', n) =>
    if c' = c then update locks k (if n = 0 then none else some (c, n - 1)) else locks

def clear (locks : SessionLocks K S) (c : S) : SessionLocks K S :=
  fun k => if (locks k).map (·.1) = some c then none else locks k

theorem clear_eq_some : locks.clear c k = some (c', n) ↔ locks k = some (c', n) ∧ c' ≠ c := by
  unfold clear
  cases hk : locks k with
  | none => simp
  | some x =>
    obtain ⟨c'', n'⟩ := x
    by_cases hc : c'' = c
    · subst hc
      simp only [Option.map_some, ↓reduceIte, Option.some.injEq, Prod.mk.injEq]
      refine iff_of_false nofun fun h => h.2 h.1.1.symm
    · simp only [Option.map_some, Option.some.injEq, hc, ↓reduceIte, Prod.mk.injEq]
      constructor
      · rintro ⟨rfl, rfl⟩
        exact ⟨⟨rfl, rfl⟩, hc⟩
      · exact fun h => h.1

theorem holds_clear (h : locks.Holds c' k) (hne : c' ≠ c) : (locks.clear c).Holds c' k := by
  obtain ⟨n, hn⟩ := h
  exact ⟨n, clear_eq_some.mpr ⟨hn, hne⟩⟩

variable [DecidableEq K]

theorem holds_tryLock (h : (locks.tryLock c k).1 = true) : (locks.tryLock c k).2.Holds c k := by
  unfold tryLock at h ⊢
  split at h
  · exact ⟨0, update_self ..⟩
  · split_ifs at h with hc
    · rw [if_pos hc]
      exact ⟨_, update_self ..⟩

theorem Holds.tryLock (h : locks.Holds c' k') (c : S) (k : K) :
    (locks.tryLock c k).2.Holds c' k' := by
  obtain ⟨n, hn⟩ := h
  by_cases hk : k' = k
  · subst hk
    unfold SessionLocks.tryLock
    rw [hn]
    dsimp only
    split_ifs with hc
    · exact ⟨n + 1, hc ▸ update_self ..⟩
    · exact ⟨n, hn⟩
  · refine ⟨n, ?_⟩
    unfold SessionLocks.tryLock
    cases locks k with
    | none => exact (update_of_ne hk ..).trans hn
    | some x =>
      dsimp only
      split_ifs
      · exact (update_of_ne hk ..).trans hn
      · exact hn

/-- What is held after a `tryLock`. -/
theorem tryLock_eq_some (h : (locks.tryLock c k).2 k' = some (c', n)) :
    locks k' = some (c', n) ∨
      (locks.tryLock c k).1 = true ∧ k' = k ∧ c' = c ∧ (locks k = none → n = 0) := by
  unfold tryLock at h ⊢
  cases hk : locks k with
  | none =>
    rw [hk] at h
    change update locks k (some (c, 0)) k' = _ at h
    by_cases hkk : k' = k
    · subst hkk
      rw [update_self] at h
      cases h
      exact Or.inr ⟨rfl, rfl, rfl, fun _ => rfl⟩
    · rw [update_of_ne hkk] at h
      exact Or.inl h
  | some x =>
    rw [hk] at h
    dsimp only at h ⊢
    split_ifs at h ⊢ with hc
    · change update locks k (some (c, x.2 + 1)) k' = _ at h
      by_cases hkk : k' = k
      · subst hkk
        rw [update_self] at h
        cases h
        exact Or.inr ⟨rfl, rfl, rfl, nofun⟩
      · rw [update_of_ne hkk] at h
        exact Or.inl h
    · exact Or.inl h

theorem tryLock_refused (h : (locks.tryLock c k).1 = false) : (locks.tryLock c k).2 = locks := by
  unfold tryLock at h ⊢
  split at h
  · cases h
  · split_ifs at h ⊢ with hc
    · rfl

theorem Holds.unlock (h : locks.Holds c' k') (hne : c' ≠ c) (k : K) :
    (locks.unlock c k).Holds c' k' := by
  obtain ⟨n, hn⟩ := h
  refine ⟨n, ?_⟩
  unfold SessionLocks.unlock
  cases hk : locks k with
  | none => exact hn
  | some x =>
    dsimp only
    by_cases hc : x.1 = c
    · have hkk : k' ≠ k := by
        rintro rfl
        cases hn.symm.trans hk
        exact hne hc
      rw [if_pos hc, update_of_ne hkk]
      exact hn
    · rw [if_neg hc]
      exact hn

/-- What is held after an `unlock` of a key that was taken at most once. -/
theorem unlock_eq_some (honce : ∀ m, locks k = some (c, m) → m = 0)
    (h : locks.unlock c k k' = some (c', n)) :
    locks k' = some (c', n) ∧ ¬(k' = k ∧ c' = c) := by
  unfold unlock at h
  cases hk : locks k with
  | none =>
    rw [hk] at h
    refine ⟨h, ?_⟩
    rintro ⟨rfl, -⟩
    cases hk.symm.trans h
  | some x =>
    rw [hk] at h
    dsimp only at h
    by_cases hc : x.1 = c
    · have hzero : x.2 = 0 := honce x.2 (hk.trans (congrArg some (Prod.ext hc rfl)))
      rw [if_pos hc, if_pos hzero] at h
      by_cases hkk : k' = k
      · rw [hkk, update_self] at h
        cases h
      · rw [update_of_ne hkk] at h
        exact ⟨h, fun heq => hkk heq.1⟩
    · rw [if_neg hc] at h
      refine ⟨h, ?_⟩
      rintro ⟨rfl, rfl⟩
      cases hk.symm.trans h
      exact hc rfl

end SessionLocks

end Varco
