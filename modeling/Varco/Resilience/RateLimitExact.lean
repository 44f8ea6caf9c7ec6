import Mathlib.Data.Finset.Dedup
import Mathlib.Data.Finset.Order
import Mathlib.Data.Real.Basic
import Varco.Resilience.RateLimitRefinement

/-!
# The sliding window is exact

`InMemoryRateLimiter` under any calls of `acquire` one after the other, at any times in order. What
it has granted for a key leaves room whenever a call is granted (`Spaced`), so no interval of the
length of the period, wherever it ends, holds more than `rate` grants (`Spaced.length_le`); a call
that is refused finds the window full; and `retry_after` names the very moment at which a call is
granted again.
-/

namespace Varco.InMemoryRateLimiter

open List SlidingWindow

/-! ## Grants with room between them -/

/-- Each call was granted when fewer than `rate` others were recent. -/
inductive Spaced (config : RateLimitConfig) : List ℚ → Prop
  | nil : Spaced config []
  | snoc {granted : List ℚ} {now : ℚ} : Spaced config granted →
      (recent config now granted).length < config.rate → Spaced config (granted ++ [now])

variable {config : RateLimitConfig} {now t : ℚ} {granted window : List ℚ}

/-- **No interval holds too many grants**: `l` is what lies in the one that ends with `t`. -/
theorem Spaced.length_le (h : Spaced config granted) {t : ℝ} {l : List ℚ} (hl : l.Sublist granted)
    (hin : ∀ x ∈ l, t - config.period.val < x ∧ (x : ℝ) ≤ t) : l.length ≤ config.rate := by
  induction h generalizing l with
  | nil => simp [sublist_nil.mp hl]
  | @snoc granted now _ hroom ih =>
    obtain ⟨l₁, l₂, rfl, hl₁, hl₂⟩ := sublist_append_iff.mp hl
    rcases sublist_singleton.mp hl₂ with rfl | rfl
    · rw [append_nil] at hin ⊢
      exact ih hl₁ hin
    · -- the last grant lies in the interval, so the others were recent at its time
      have hnow : (now : ℝ) ≤ t := (hin now (by simp)).2
      have hrecent : ∀ x ∈ l₁, now - config.period.val < x := by
        intro x hx
        have hlow := (hin x (mem_append_left _ hx)).1
        have hcast : ((now - config.period.val : ℚ) : ℝ) < x := by
          push_cast
          linarith
        exact_mod_cast hcast
      have hsub : l₁.Sublist (recent config now granted) := by
        have hfilter := hl₁.filter (fun x => decide (now - config.period.val < x))
        rwa [filter_eq_self.mpr fun x hx => decide_eq_true (hrecent x hx)] at hfilter
      have hle := hsub.length_le
      rw [length_append, length_singleton]
      omega

/-- A call of `acquire`. -/
structure AcquireCall where
  time : ℚ
  key : String

/-- The limiter, with the calls that it has granted. -/
structure Granting where
  granted : List AcquireCall := []
  windows : Windows := .empty

def Granting.times (s : Granting) (key : String) : List ℚ :=
  (s.granted.filter (·.key = key)).map (·.time)

def Granting.acquire (config : RateLimitConfig) (s : Granting) (c : AcquireCall) : Granting :=
  let out := InMemoryRateLimiter.acquire config c.time c.key s.windows
  ⟨if out.1 then s.granted ++ [c] else s.granted, out.2⟩

def acquireAll (config : RateLimitConfig) (calls : List AcquireCall) : Granting :=
  calls.foldl (Granting.acquire config) {}

/-- **What is asked of the limiter** after some calls: in every interval of the length of the period
there are at most `rate` grants for a key; a call that is refused comes when exactly `rate` grants
lie in the interval that ends with it; and a positive `retry_after` is the time until a call is
granted. -/
structure Exact (config : RateLimitConfig) (calls : List AcquireCall) : Prop where
  bounded : ∀ (key : String) (t : ℝ) (l : List ℚ),
    l.Sublist ((acquireAll config calls).times key) →
      (∀ x ∈ l, t - config.period.val < x ∧ (x : ℝ) ≤ t) → l.length ≤ config.rate
  denied : ∀ (key : String) (t : ℚ), (∀ c ∈ calls, c.time ≤ t) →
    (acquire config t key (acquireAll config calls).windows).1 = false →
      (((acquireAll config calls).times key).filter
        fun x => t - config.period.val < x ∧ x ≤ t).length = config.rate
  retry : ∀ (key : String) (t r : ℚ), (∀ c ∈ calls, c.time ≤ t) →
    retryAfter config t key (acquireAll config calls).windows = r → 0 < r →
      (acquire config (t + r) key (acquireAll config calls).windows).1 = true ∧
        ∀ t', t ≤ t' → t' < t + r →
          (acquire config t' key (acquireAll config calls).windows).1 = false

/-- The windows hold what was granted, which is spaced. -/
structure Granting.Good (config : RateLimitConfig) (now : ℚ) (s : Granting) : Prop where
  windowed : ∀ key, Windowed config now ((s.windows.get? key).getD []) (s.times key)
  spaced : ∀ key, Spaced config (s.times key)
  past : ∀ key, ∀ x ∈ s.times key, x ≤ now

variable {s : Granting} {c : AcquireCall} {key : String}

theorem Granting.Good.later (h : s.Good config now) (ht : now ≤ t) : s.Good config t :=
  ⟨fun key => (h.windowed key).later ht, h.spaced, fun key x hx => (h.past key x hx).trans ht⟩

theorem acquire_fst (key : String) (windows : Windows) :
    (acquire config now key windows).1 =
      decide (HasRoom config now ((windows.get? key).getD [])) := by
  rw [acquire_eq, getWindow_fst]
  split_ifs with h <;> simp [h]

theorem times_append (granted : List AcquireCall) (windows : Windows) :
    (⟨granted ++ [c], windows⟩ : Granting).times key =
      (⟨granted, windows⟩ : Granting).times key ++ if c.key = key then [c.time] else [] := by
  unfold Granting.times
  split_ifs with h <;> simp [h]

/-- **A call keeps the invariant.** -/
theorem Granting.Good.acquire (h : s.Good config c.time) :
    (s.acquire config c).Good config c.time := by
  have hroom := (h.windowed c.key).hasRoom_iff
  by_cases hyes : HasRoom config c.time ((s.windows.get? c.key).getD [])
  · have hnext : s.acquire config c = ⟨s.granted ++ [c], (getWindow s.windows c.key).2.set c.key
        (append config.rate ((s.windows.get? c.key).getD []) c.time)⟩ := by
      rw [Granting.acquire, acquire_eq, getWindow_fst, if_pos hyes]
      rfl
    rw [hnext]
    refine ⟨fun key => ?_, fun key => ?_, fun key => ?_⟩
    · rw [times_append, Dict.get?_set]
      by_cases hkey : key = c.key
      · rw [if_pos hkey, if_pos hkey.symm, hkey, Option.getD_some]
        exact (h.windowed c.key).append_of_hasRoom hyes
      · rw [if_neg hkey, if_neg (Ne.symm hkey), append_nil, getWindow_snd]
        exact h.windowed key
    · rw [times_append]
      split_ifs with hkey
      · exact .snoc (h.spaced key) (hkey ▸ hroom.mp hyes)
      · rw [append_nil]
        exact h.spaced key
    · rw [times_append]
      intro x hx
      rcases mem_append.mp hx with hx | hx
      · exact h.past key x hx
      · split_ifs at hx with hkey
        · exact (mem_singleton.mp hx).le
        · exact absurd hx not_mem_nil
  · have hnext : s.acquire config c = ⟨s.granted, (getWindow s.windows c.key).2⟩ := by
      rw [Granting.acquire, acquire_eq, getWindow_fst, if_neg hyes]
      rfl
    rw [hnext]
    refine ⟨fun key => ?_, h.spaced, h.past⟩
    rw [getWindow_snd]
    exact h.windowed key

theorem good_empty (now : ℚ) : ({} : Granting).Good config now :=
  ⟨fun _ => windowed_nil now, fun _ => .nil, fun _ _ hx => absurd hx not_mem_nil⟩

/-- **A run keeps the invariant**, up to any later time. -/
theorem good_foldl {calls : List AcquireCall} (horder : calls.Pairwise (·.time ≤ ·.time))
    (hs : s.Good config now) (hnow : ∀ c ∈ calls, now ≤ c.time) (ht : ∀ c ∈ calls, c.time ≤ t)
    (hle : now ≤ t) : (calls.foldl (Granting.acquire config) s).Good config t := by
  induction calls generalizing s now with
  | nil => exact hs.later hle
  | cons c calls ih =>
    obtain ⟨hlater, horder⟩ := pairwise_cons.mp horder
    rw [foldl_cons]
    exact ih horder (hs.later (hnow c mem_cons_self)).acquire hlater
      (fun c' hc' => ht c' (mem_cons_of_mem _ hc')) (ht c mem_cons_self)

theorem good_acquireAll {calls : List AcquireCall} (horder : calls.Pairwise (·.time ≤ ·.time))
    (ht : ∀ c ∈ calls, c.time ≤ t) : (acquireAll config calls).Good config t := by
  cases calls with
  | nil => exact good_empty t
  | cons c calls =>
    refine good_foldl horder (good_empty c.time) (fun c' hc' => ?_) ht (ht c mem_cons_self)
    rcases mem_cons.mp hc' with rfl | hc'
    · exact le_rfl
    · exact (pairwise_cons.mp horder).1 c' hc'

/-! ## Exactness -/

/-- A refused call finds `rate` grants in the interval that ends with it. -/
theorem Granting.Good.denied (h : s.Good config t)
    (hno : (InMemoryRateLimiter.acquire config t key s.windows).1 = false) :
    ((s.times key).filter fun x => t - config.period.val < x ∧ x ≤ t).length = config.rate := by
  rw [acquire_fst, decide_eq_false_iff_not] at hno
  have hw := h.windowed key
  have hfull := mt hw.hasRoom_iff.mpr hno
  have hle : (recent config t (s.times key)).length ≤ config.rate := by
    rw [← hw.recent_eq t le_rfl]
    exact length_recent_le.trans hw.bounded
  have hfilter : (s.times key).filter (fun x => t - config.period.val < x ∧ x ≤ t) =
      recent config t (s.times key) :=
    filter_congr fun x hx => by simp [h.past key x hx]
  rw [hfilter]
  omega

/-- With a positive `retry_after`, a call is granted from that moment on, and not before. -/
theorem hasRoom_of_retryAfter {windows : Windows} {r : ℚ}
    (hr : retryAfter config t key windows = r) (hpos : 0 < r) (t' : ℚ) :
    HasRoom config t' ((windows.get? key).getD []) ↔ t + r ≤ t' := by
  unfold retryAfter at hr
  cases hkey : windows.get? key with
  | none =>
    rw [hkey] at hr
    exact absurd hr.symm hpos.ne'
  | some window =>
    rw [hkey] at hr
    dsimp only at hr
    by_cases hless : window.length < config.rate
    · rw [if_pos hless] at hr
      exact absurd hr.symm hpos.ne'
    · obtain ⟨oldest, rest, rfl⟩ := exists_oldest hless
      rw [if_neg hless, List.head?_cons, Option.getD_some] at hr
      have hwait : r = config.period.val - (t - oldest) := by
        rw [← hr] at hpos ⊢
        exact max_eq_right (le_of_lt (by simpa using hpos))
      unfold HasRoom
      rw [Option.getD_some, List.head?_cons, Option.getD_some]
      constructor
      · intro h
        linarith [h.resolve_left hless]
      · intro h
        exact .inr (by linarith)

/-- **The sliding window is exact.** -/
theorem acquire_exact (calls : List AcquireCall) (horder : calls.Pairwise (·.time ≤ ·.time)) :
    Exact config calls where
  bounded key t l hl hin := by
    obtain ⟨last, hlast⟩ := (calls.map (·.time)).toFinset.exists_le
    have hpast : ∀ c ∈ calls, c.time ≤ last := fun c hc =>
      hlast c.time (mem_toFinset.mpr (mem_map_of_mem hc))
    exact ((good_acquireAll horder hpast).spaced key).length_le hl hin
  denied key t ht hno := (good_acquireAll horder ht).denied hno
  retry key t r _ hr hpos := by
    have hroom := hasRoom_of_retryAfter hr hpos
    refine ⟨?_, fun t' _ hlt => ?_⟩
    · rw [acquire_fst]
      exact decide_eq_true ((hroom (t + r)).mpr le_rfl)
    · rw [acquire_fst]
      exact decide_eq_false fun h => absurd ((hroom t').mp h) (not_le.mpr hlt)

theorem acquire_exact_three :
    Exact ⟨2, ⟨1, "1.0"⟩, by decide, by decide⟩ [⟨0, "a"⟩, ⟨1 / 2, "a"⟩, ⟨1, "a"⟩] :=
  acquire_exact _ (by decide +kernel)

end Varco.InMemoryRateLimiter
