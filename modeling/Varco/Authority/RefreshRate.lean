import Mathlib.Data.List.ReduceOption
import Mathlib.Tactic.Linarith
import Varco.Authority.Registry

/-!
# Key-set refresh is rate limited

Between the end of a refresh and the start of a later one `min_refresh_interval` elapses
(`RateLimited`), in the runs in which no refresh has ended between a call's test of the interval and
the moment at which it gets the lock with its key still missing (`Undisturbed`). A key that the last
refresh brought in is found by every call (`finds_brought`).
-/

namespace Varco

open List

namespace TrustedIssuerRegistry

variable {K : Type} {cfg : Config} {ι : Type} [DecidableEq ι]
  {keysets : List (Option (JsonWebKeySet K))} {lastRefresh : ℚ}

/-! ## What is promised -/

/-- A refresh starts `min_refresh_interval` after any that was before it. -/
def RateLimited (cfg : Config) (s : State K) : Prop :=
  s.refreshes.Pairwise fun x y => ∀ time, y = .started time →
    cfg.minRefreshInterval ≤ time - x.time

/-- In a run with these labels, each call for a key that the last refresh has brought in returns a
key. -/
def FindsBrought (cfg : Config) (keysets : List (Option (JsonWebKeySet K))) (lastRefresh : ℚ)
    (l : List (ι × ℚ × Input K)) : Prop :=
  ∀ l₀ a l₁ u u' kid found, l = l₀ ++ a :: l₁ →
    Run (Step cfg) (fresh ι keysets lastRefresh) l₀ u → Step cfg u a u' →
    u'.phase a.1 = .resolved kid found → (∃ key ∈ u'.shared.brought, key.kid = some kid) →
    found.isSome

def Undisturbed (s : State K) : Phase K → Prop
  | .waiting kid tested => (searchCaches kid s.keysets).isNone → s.lastRefresh = tested
  | _ => True

instance (s : State K) (p : Phase K) : Decidable (Undisturbed s p) := by
  unfold Undisturbed
  split <;> infer_instance

/-! ## Searching -/

theorem findKey_isSome {kid : String} {keyset : JsonWebKeySet K} {key : JsonWebKey K}
    (hkey : key ∈ keyset) (hkid : key.kid = some kid) : (findKey kid (some keyset)).isSome := by
  simp only [findKey, Option.bind_some, JsonWebKeySet.findByKid, List.find?_isSome]
  exact ⟨key, hkey, by simp [hkid]⟩

/-- A key with the `kid` in one of the keysets is enough for the search. -/
theorem searchCaches_isSome {kid : String} {keysets : List (Option (JsonWebKeySet K))}
    {keyset : JsonWebKeySet K} {key : JsonWebKey K} (hin : some keyset ∈ keysets)
    (hkey : key ∈ keyset) (hkid : key.kid = some kid) : (searchCaches kid keysets).isSome := by
  obtain ⟨i, hi, hget⟩ := mem_iff_getElem.mp hin
  simp only [searchCaches, List.findSome?_isSome_iff, Option.isSome_map]
  refine ⟨(some keyset, i), mem_zipIdx_iff_getElem?.mpr ?_, findKey_isSome hkey hkid⟩
  rw [List.getElem?_eq_getElem hi, hget]

theorem mem_zipWith_or {results keysets : List (Option (JsonWebKeySet K))}
    (hlength : results.length = keysets.length) {keyset : JsonWebKeySet K}
    (hin : some keyset ∈ results) : some keyset ∈ List.zipWith Option.or results keysets := by
  induction results generalizing keysets with
  | nil => cases hin
  | cons r results ih =>
    cases keysets with
    | nil => cases hlength
    | cons old keysets =>
      rcases mem_cons.mp hin with rfl | hin
      · exact mem_cons_self
      · exact mem_cons_of_mem _ (ih (Nat.succ.inj hlength) hin)

theorem brought_refreshed {results : List (Option (JsonWebKeySet K))} {s : State K}
    (hlength : results.length = s.keysets.length) :
    ∀ key ∈ (refreshed results s).brought,
      ∃ keyset, some keyset ∈ (refreshed results s).keysets ∧ key ∈ keyset := by
  intro key hkey
  obtain ⟨keyset, hkeyset, hin⟩ := mem_flatten.mp hkey
  exact ⟨keyset, mem_zipWith_or hlength (reduceOption_mem_iff.mp hkeyset), hin⟩

/-- What a call does in one step, with the clock set. -/
inductive Moves (cfg : Config) (s : State K) : Phase K → State K → Phase K → Prop
  | answers (kid : String) (found : Option (JsonWebKey K × ℕ))
      (hfound : found = searchCaches kid s.keysets) : Moves cfg s .idle s (.resolved kid found)
  | waits (kid : String) (hdue : cfg.minRefreshInterval ≤ s.clock - s.lastRefresh) :
      Moves cfg s .idle s (.waiting kid s.lastRefresh)
  | unknown : Moves cfg s .idle s .unknownKid
  | finds (kid : String) (tested : ℚ) (found : JsonWebKey K × ℕ) :
      Moves cfg s (.waiting kid tested) s (.resolved kid (some found))
  | starts (kid : String) (tested : ℚ) (hfree : s.locked = false)
      (hnone : searchCaches kid s.keysets = none) :
      Moves cfg s (.waiting kid tested)
        { s with locked := true, refreshes := s.refreshes ++ [.started s.clock] } (.refreshing kid)
  | ends (kid : String) (results : List (Option (JsonWebKeySet K)))
      (hlength : results.length = s.keysets.length) :
      Moves cfg s (.refreshing kid) (refreshed results s)
        (.resolved kid (searchCaches kid (refreshed results s).keysets))

section

variable {s s' : State K} {p p' : Phase K}

theorem resolveKey_moves (kid : String) (s : State K) :
    Moves cfg s .idle s (resolveKey cfg kid s) := by
  unfold resolveKey
  cases hsearch : searchCaches kid s.keysets with
  | some found => exact .answers kid _ hsearch.symm
  | none =>
    by_cases hearly : s.clock - s.lastRefresh < cfg.minRefreshInterval
    · simp only [if_pos hearly]
      exact .answers kid _ hsearch.symm
    · simp only [if_neg hearly]
      exact .waits kid (not_lt.mp hearly)

theorem acquire_moves (kid : String) (tested : ℚ) (hfree : s.locked = false) :
    Moves cfg s (.waiting kid tested) (acquire kid s).1 (acquire kid s).2 := by
  unfold acquire
  cases hsearch : searchCaches kid s.keysets with
  | some found => exact .finds kid tested found
  | none => exact .starts kid tested hfree hsearch

theorem moves_of_act {x : Input K} (h : act cfg x s p = some (s', p')) : Moves cfg s p s' p' := by
  cases x with
  | call c =>
    cases c with
    | getKey kid =>
      cases p with
      | idle =>
        cases h
        exact resolveKey_moves kid s
      | _ => cases h
    | verify kid =>
      cases kid with
      | some kid =>
        cases p with
        | idle =>
          cases h
          exact resolveKey_moves kid s
        | _ => cases h
      | none =>
        cases p with
        | idle =>
          cases h
          exact .unknown
        | _ => cases h
  | acquire =>
    cases p with
    | waiting kid tested =>
      simp only [act] at h
      split_ifs at h with hlocked
      have hmoves := @acquire_moves K cfg s kid tested (Bool.not_eq_true _ ▸ hlocked)
      rwa [Option.some.inj h] at hmoves
    | _ => cases h
  | refreshed results =>
    cases p with
    | refreshing kid =>
      simp only [act] at h
      split_ifs at h with hlength
      cases h
      exact .ends kid results hlength
    | _ => cases h

/-- **What one step does.** -/
theorem moves_of_next {a : ℚ × Input K} (h : next cfg a s p = some (s', p')) :
    s.clock ≤ a.1 ∧ Moves cfg { s with clock := a.1 } p s' p' := by
  unfold next at h
  split_ifs at h with hclock
  exact ⟨not_lt.mp hclock, moves_of_act h⟩

end

/-- **The invariant.** -/
structure Limited (cfg : Config) (w : Callers ι K) : Prop where
  limited : RateLimited cfg w.shared
  past : ∀ x ∈ w.shared.refreshes, x.time ≤ w.shared.clock
  last : w.shared.locked = false → ∀ x ∈ w.shared.refreshes, x.time ≤ w.shared.lastRefresh
  waiting : ∀ i kid tested, w.phase i = .waiting kid tested →
    cfg.minRefreshInterval ≤ w.shared.clock - tested
  brought : ∀ key ∈ w.shared.brought, ∃ keyset, some keyset ∈ w.shared.keysets ∧ key ∈ keyset

section

variable {w : Callers ι K} {s' : State K} {p' : Phase K} {i : ι} {now : ℚ}

theorem Limited.passes (h : Limited cfg w) (hnow : w.shared.clock ≤ now)
    (hp' : ∀ kid tested, p' = .waiting kid tested → cfg.minRefreshInterval ≤ now - tested) :
    Limited cfg (w.put i ({ w.shared with clock := now }, p')) where
  limited := h.limited
  past x hx := (h.past x hx).trans hnow
  last := h.last
  waiting := by
    intro j kid tested hj
    by_cases hji : j = i
    · rw [hji, Tasks.put_phase_self] at hj
      exact hp' kid tested hj
    · rw [Tasks.put_phase_of_ne hji] at hj
      have hbefore := h.waiting j kid tested hj
      simp only [Tasks.put_shared]
      linarith
  brought := h.brought

theorem limited_moves (h : Limited cfg w) (hnow : w.shared.clock ≤ now)
    (hok : Undisturbed w.shared (w.phase i))
    (hm : Moves cfg { w.shared with clock := now } (w.phase i) s' p') :
    Limited cfg (w.put i (s', p')) := by
  generalize hp : w.phase i = p at hm hok
  cases hm with
  | answers kid found hfound => exact h.passes hnow (by simp)
  | waits kid hdue =>
    refine h.passes hnow fun kid' tested hp' => ?_
    cases hp'
    exact hdue
  | unknown => exact h.passes hnow (by simp)
  | finds kid tested found => exact h.passes hnow (by simp)
  | starts kid tested hfree hnone =>
    have htested : w.shared.lastRefresh = tested := hok (by rw [hnone]; rfl)
    have hdue := h.waiting i kid tested hp
    have hphase : Limited cfg (w.put i ({ w.shared with clock := now }, .refreshing kid)) :=
      h.passes hnow (by simp)
    refine { hphase with limited := ?_, past := ?_, last := by simp }
    · refine pairwise_append.mpr ⟨h.limited, pairwise_singleton .., ?_⟩
      rintro x hx y hy time rfl
      cases mem_singleton.mp hy
      have hlast := h.last hfree x hx
      dsimp only
      linarith
    · intro x hx
      rcases mem_append.mp hx with hx | hx
      · exact (h.past x hx).trans hnow
      · rw [mem_singleton.mp hx]
        exact le_rfl
  | ends kid results hlength =>
    have hphase : Limited cfg (w.put i ({ w.shared with clock := now },
        .resolved kid (searchCaches kid (refreshed results w.shared).keysets))) :=
      h.passes hnow (by simp)
    have hpast : ∀ x ∈ w.shared.refreshes ++ [Refresh.ended now], x.time ≤ now := by
      intro x hx
      rcases mem_append.mp hx with hx | hx
      · exact (h.past x hx).trans hnow
      · rw [mem_singleton.mp hx]
        exact le_rfl
    refine { hphase with limited := ?_, past := hpast, last := fun _ => hpast, brought := ?_ }
    · refine pairwise_append.mpr ⟨h.limited, pairwise_singleton .., ?_⟩
      rintro x - y hy time rfl
      cases mem_singleton.mp hy
    · exact brought_refreshed hlength

end

section

variable {l : List (ι × ℚ × Input K)} {w w' : Callers ι K} {a : ι × ℚ × Input K}

/-- The keys that the last refresh has brought in are in the keysets. -/
theorem brought_run (hrun : Run (Step cfg) (fresh ι keysets lastRefresh) l w) :
    ∀ key ∈ w.shared.brought, ∃ keyset, some keyset ∈ w.shared.keysets ∧ key ∈ keyset := by
  refine hrun.invariant (I := fun w : Callers ι K => ∀ key ∈ w.shared.brought,
    ∃ keyset, some keyset ∈ w.shared.keysets ∧ key ∈ keyset) ?_ (by simp [fresh])
  rintro w a w' - ⟨⟨s', p'⟩, hnext, rfl⟩ h
  generalize w.phase a.1 = p at hnext
  cases (moves_of_next hnext).2 with
  | ends kid results hlength => exact brought_refreshed hlength
  | _ => exact h

theorem finds_brought (hrun : Run (Step cfg) (fresh ι keysets lastRefresh) l w)
    (hst : Step cfg w a w') {kid : String} {found : Option (JsonWebKey K × ℕ)}
    (hresolved : w'.phase a.1 = .resolved kid found)
    (hbrought : ∃ key ∈ w'.shared.brought, key.kid = some kid) : found.isSome := by
  obtain ⟨key, hkey, hkid⟩ := hbrought
  obtain ⟨keyset, hkeyset, hin⟩ := brought_run (hrun.append (.single hst)) key hkey
  have hsearch := searchCaches_isSome hkeyset hin hkid
  obtain ⟨⟨s', p'⟩, hnext, rfl⟩ := hst
  rw [Tasks.put_phase_self] at hresolved
  subst hresolved
  generalize w.phase a.1 = p at hnext
  generalize hp' : Phase.resolved kid found = p' at hnext
  cases (moves_of_next hnext).2 with
  | answers kid' found' hfound =>
    cases hp'
    rw [hfound]
    exact hsearch
  | finds kid' tested found' =>
    cases hp'
    rfl
  | ends kid' results hlength =>
    cases hp'
    exact hsearch
  | _ => cases hp'

/-- **Key-set refresh is rate limited**, in every run that is not disturbed, and what the last
refresh has brought in is found. -/
theorem rate_limited
    (hrun : Guarded (Step cfg) (fun _ w a => Undisturbed w.shared (w.phase a.1))
      (fresh ι keysets lastRefresh) l w) :
    RateLimited cfg w.shared ∧ FindsBrought cfg keysets lastRefresh l := by
  constructor
  · refine (hrun.invariant (I := fun _ w => Limited cfg w) ?_ ?_).limited
    · constructor <;> simp [fresh, RateLimited]
    · rintro l w a w' - hok ⟨⟨s', p'⟩, hnext, rfl⟩ h
      obtain ⟨hnow, hm⟩ := moves_of_next hnext
      exact limited_moves h hnow hok hm
  · rintro l₀ a l₁ u u' kid found - hu hst hresolved hbrought
    exact finds_brought hu hst hresolved hbrought

end

/-- Two calls look up a key that the sources have not had before: the second one waits and finds
what the first one brings. A key that is unknown is looked up ten seconds later. -/
theorem rate_limited_twoCalls :
    ∃ (l : List (Fin 3 × ℚ × Input ℕ)) (w : Callers (Fin 3) ℕ),
      w.phase 1 = .resolved "k2" (some (⟨some "k2", 2⟩, 0)) ∧ w.phase 2 = .resolved "k3" none ∧
      w.shared.refreshes = [.started 20, .ended 21, .started 31, .ended 32] ∧
      RateLimited { minRefreshInterval := 10 } w.shared ∧
      FindsBrought { minRefreshInterval := 10 } [some [⟨some "k1", 1⟩]] 0 l := by
  let keys : List (Option (JsonWebKeySet ℕ)) := [some [⟨some "k1", 1⟩, ⟨some "k2", 2⟩]]
  have hrun : Guarded (Step { minRefreshInterval := 10 })
      (fun _ w a => Undisturbed w.shared (w.phase a.1))
      (fresh (Fin 3) [some [⟨some "k1", 1⟩]] 0)
      [(0, 20, .call (.getKey "k2")), (1, 20, .call (.getKey "k2")), (0, 20, .acquire),
        (0, 21, .refreshed keys), (1, 21, .acquire), (2, 31, .call (.getKey "k3")),
        (2, 31, .acquire), (2, 32, .refreshed keys)] _ :=
    Tasks.guarded_of_isSome (fun _ _ _ h => h) (by decide +kernel)
  exact ⟨_, _, by decide +kernel, by decide +kernel, by decide +kernel, rate_limited hrun⟩

/-- Two calls with unknown keys: the second one waits while the first one refreshes, and refreshes
again right after that. -/
theorem refreshes_twice :
    ∃ (l : List (Fin 2 × ℚ × Input ℕ)) (w : Callers (Fin 2) ℕ),
      Run (Step { minRefreshInterval := 10 }) (fresh (Fin 2) [some []] 0) l w ∧
      ¬(RateLimited { minRefreshInterval := 10 } w.shared ∧
        FindsBrought { minRefreshInterval := 10 } [some []] 0 l) := by
  let l : List (Fin 2 × ℚ × Input ℕ) :=
    [(0, 20, .call (.getKey "x")), (0, 20, .acquire), (1, 20, .call (.getKey "y")),
      (0, 21, .refreshed [some []]), (1, 21, .acquire)]
  have hrefreshes : (Tasks.advance (next { minRefreshInterval := 10 }) (fresh (Fin 2) [some []] 0)
      l).map (·.shared.refreshes) = some [.started 20, .ended 21, .started 21] := by
    decide +kernel
  obtain ⟨w, hw, hrefreshes⟩ := Option.map_eq_some_iff.mp hrefreshes
  refine ⟨l, w, Tasks.run_of_advance hw, fun hlimited => ?_⟩
  have hpairs := hlimited.1
  rw [RateLimited, hrefreshes] at hpairs
  have hlast := pairwise_cons.mp (pairwise_cons.mp hpairs).2
  have hearly := hlast.1 (.started 21) (mem_singleton_self _) 21 rfl
  exact absurd hearly (by decide +kernel)

end TrustedIssuerRegistry

end Varco
