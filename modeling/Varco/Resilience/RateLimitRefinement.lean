import Varco.Resilience.RateLimit

/-!
# The two rate limiters agree

Both limiters are compared with the sliding window that they are meant to be. Neither keeps all
calls that it has granted: the one keeps the last `rate`, the other drops what lies outside the
window whenever a script runs, and all of it when the key expires. What either has dropped lies
outside every later window, so at every later time the recent calls are the same (`Windowed`,
`Scored`).

The Redis limiter reports a wait as Lua writes it, with 14 significant digits.
-/

namespace Varco

open List

/-! ## Calls in order -/

/-- The calls come one after the other, and not before `now`. -/
structure InOrder (now : ℚ) (l : List TimedCall) : Prop where
  later : ∀ c ∈ l, now ≤ c.time
  sorted : l.Pairwise (·.time ≤ ·.time)

variable {l : List TimedCall}

theorem InOrder.tail {now : ℚ} {c : TimedCall} (h : InOrder now (c :: l)) :
    now ≤ c.time ∧ InOrder c.time l := by
  obtain ⟨hlater, hsorted⟩ := h
  rw [pairwise_cons] at hsorted
  exact ⟨hlater c mem_cons_self, hsorted.1, hsorted.2⟩

/-- **The simulation rule**: `R` relates the limiters for the calls that are left. -/
theorem answers_eq {σ σ' : Type} {step : σ → TimedCall → LimiterAnswer × σ}
    {step' : σ' → TimedCall → LimiterAnswer × σ'} {f : LimiterAnswer → LimiterAnswer}
    {R : List TimedCall → σ → σ' → Prop}
    (hstep : ∀ c l s s', R (c :: l) s s' →
      (step s c).1 = f (step' s' c).1 ∧ R l (step s c).2 (step' s' c).2)
    {s : σ} {s' : σ'} (h : R l s s') :
    answers step s l = (answers step' s' l).map f := by
  induction l generalizing s s' with
  | nil => rfl
  | cons c l ih =>
    obtain ⟨hanswer, hnext⟩ := hstep c l s s' h
    rw [answers, answers, map_cons, hanswer, ih hnext]

namespace SlidingWindow

variable {config : RateLimitConfig} {now t : ℚ} {l l₁ l₂ : List ℚ}

theorem mem_recent {x : ℚ} : x ∈ recent config t l ↔ x ∈ l ∧ t - config.period.val < x := by
  simp [recent]

theorem recent_append : recent config t (l₁ ++ l₂) = recent config t l₁ ++ recent config t l₂ :=
  filter_append ..

/-- What lies outside a window lies outside every later one. -/
theorem recent_recent (h : now ≤ t) :
    recent config t (recent config now l) = recent config t l := by
  unfold recent
  rw [filter_filter]
  refine filter_congr fun x _ => ?_
  have hle : t - config.period.val < x → now - config.period.val < x := by
    intro hx
    linarith
  simpa using hle

theorem recent_eq_self (h : ∀ x ∈ l, t - config.period.val < x) : recent config t l = l :=
  filter_eq_self.mpr fun x hx => decide_eq_true (h x hx)

theorem recent_eq_nil (h : ∀ x ∈ l, x ≤ t - config.period.val) : recent config t l = [] :=
  filter_eq_nil_iff.mpr fun x hx => by simpa using h x hx

theorem length_recent_le : (recent config t l).length ≤ l.length := length_filter_le ..

end SlidingWindow

/-! ## `InMemoryRateLimiter` -/

namespace InMemoryRateLimiter

open SlidingWindow

variable {config : RateLimitConfig} {now t : ℚ} {window granted : List ℚ}

/-- The deque holds at most `rate` calls in order, and all those that are recent from now on. -/
structure Windowed (config : RateLimitConfig) (now : ℚ) (window granted : List ℚ) : Prop where
  sorted : window.Pairwise (· ≤ ·)
  past : ∀ x ∈ window, x ≤ now
  bounded : window.length ≤ config.rate
  recent_eq : ∀ t, now ≤ t → recent config t window = recent config t granted

theorem Windowed.later (h : Windowed config now window granted) (ht : now ≤ t) :
    Windowed config t window granted :=
  ⟨h.sorted, fun x hx => (h.past x hx).trans ht, h.bounded,
    fun t' ht' => h.recent_eq t' (ht.trans ht')⟩

theorem exists_oldest (h : ¬window.length < config.rate) :
    ∃ oldest rest, window = oldest :: rest := by
  cases window with
  | nil => exact absurd config.rate_pos h
  | cons oldest rest => exact ⟨oldest, rest, rfl⟩

theorem recent_of_oldest {oldest : ℚ} {rest : List ℚ}
    (h : Windowed config now (oldest :: rest) granted)
    (hrecent : ¬config.period.val ≤ t - oldest) :
    recent config t (oldest :: rest) = oldest :: rest := by
  refine recent_eq_self fun x hx => ?_
  have hle : oldest ≤ x := by
    rcases mem_cons.mp hx with rfl | hx
    · exact le_rfl
    · exact (pairwise_cons.mp h.sorted).1 x hx
  linarith [not_le.mp hrecent]

/-- The oldest call is not recent, so it is not counted. -/
theorem recent_of_stale {oldest : ℚ} {rest : List ℚ} (hstale : config.period.val ≤ t - oldest) :
    recent config t (oldest :: rest) = recent config t rest := by
  unfold recent
  rw [filter_cons_of_neg]
  simp only [decide_eq_true_eq, not_lt]
  linarith

/-- A call is recorded, in the place of the oldest one if the deque is full. -/
theorem Windowed.append (h : Windowed config now window granted)
    (hroom : window.length < config.rate ∨
      ∃ oldest rest, window = oldest :: rest ∧ config.period.val ≤ now - oldest) :
    Windowed config now (append config.rate window now) (granted ++ [now]) := by
  have hall : (window ++ [now]).Pairwise (· ≤ ·) := by
    refine pairwise_append.mpr ⟨h.sorted, pairwise_singleton _ _, fun x hx y hy => ?_⟩
    rw [mem_singleton.mp hy]
    exact h.past x hx
  have hpast : ∀ x ∈ window ++ [now], x ≤ now := by
    intro x hx
    rcases mem_append.mp hx with hx | hx
    · exact h.past x hx
    · exact (mem_singleton.mp hx).le
  have hdrop : ∀ t, now ≤ t →
      recent config t (InMemoryRateLimiter.append config.rate window now) =
        recent config t (window ++ [now]) := by
    intro t ht
    unfold InMemoryRateLimiter.append
    rcases hroom with hroom | ⟨oldest, rest, rfl, hstale⟩
    · rw [Nat.sub_eq_zero_of_le hroom, drop_zero]
    · have hbound := h.bounded
      have hcases : (oldest :: rest).length + 1 - config.rate = 0 ∨
          (oldest :: rest).length + 1 - config.rate = 1 := by omega
      rcases hcases with hzero | hone
      · rw [hzero, drop_zero]
      · rw [hone]
        exact (recent_of_stale (hstale.trans (by linarith))).symm
  refine ⟨hall.sublist (drop_sublist ..), fun x hx => hpast x (mem_of_mem_drop hx), ?_,
    ?_⟩
  · unfold InMemoryRateLimiter.append
    rw [length_drop, length_append, length_singleton]
    omega
  · intro t ht
    rw [hdrop t ht, recent_append, recent_append, h.recent_eq t ht]

def Holds (config : RateLimitConfig) (l : List TimedCall) (windows : Windows)
    (granted : String → List ℚ) : Prop :=
  ∃ now, InOrder now l ∧
    ∀ key, Windowed config now ((windows.get? key).getD []) (granted key)

theorem windowed_nil (now : ℚ) : Windowed config now [] [] :=
  ⟨.nil, by simp, Nat.zero_le _, fun _ _ => rfl⟩

theorem getWindow_fst (windows : Windows) (key : String) :
    (getWindow windows key).1 = (windows.get? key).getD [] := by
  unfold getWindow
  cases windows.get? key <;> rfl

theorem getWindow_snd (windows : Windows) (key key' : String) :
    ((getWindow windows key).2.get? key').getD [] = (windows.get? key').getD [] := by
  unfold getWindow
  cases hkey : windows.get? key with
  | none =>
    by_cases h : key' = key
    · simp [h, hkey]
    · simp [Dict.get?_set, h]
  | some window => rfl

/-- The deque lets a call through: it is not full, or its oldest call is not recent. -/
def HasRoom (config : RateLimitConfig) (now : ℚ) (window : List ℚ) : Prop :=
  window.length < config.rate ∨ config.period.val ≤ now - window.head?.getD now

instance : Decidable (HasRoom config now window) := inferInstanceAs (Decidable (_ ∨ _))

theorem acquire_eq (key : String) (windows : Windows) : acquire config now key windows =
    if HasRoom config now (getWindow windows key).1 then
      (true, (getWindow windows key).2.set key (append config.rate (getWindow windows key).1 now))
    else (false, (getWindow windows key).2) := by
  unfold acquire HasRoom
  by_cases hroom : (getWindow windows key).1.length < config.rate
  · simp [hroom]
  · simp [hroom]

/-- **The deque lets through what the sliding window does.** -/
theorem Windowed.hasRoom_iff (h : Windowed config now window granted) :
    HasRoom config now window ↔ (recent config now granted).length < config.rate := by
  rw [← h.recent_eq now le_rfl]
  by_cases hroom : window.length < config.rate
  · exact ⟨fun _ => length_recent_le.trans_lt hroom, fun _ => .inl hroom⟩
  · obtain ⟨oldest, rest, rfl⟩ := exists_oldest hroom
    by_cases hstale : config.period.val ≤ now - oldest
    · refine ⟨fun _ => ?_, fun _ => .inr hstale⟩
      rw [recent_of_stale hstale]
      exact length_recent_le.trans_lt (Nat.lt_of_succ_le h.bounded)
    · rw [recent_of_oldest h hstale]
      exact ⟨fun hor => hor.resolve_right hstale, fun hlt => absurd hlt hroom⟩

theorem Windowed.append_of_hasRoom (h : Windowed config now window granted)
    (hroom : HasRoom config now window) :
    Windowed config now (InMemoryRateLimiter.append config.rate window now) (granted ++ [now]) := by
  refine h.append ?_
  by_cases hless : window.length < config.rate
  · exact .inl hless
  · obtain ⟨oldest, rest, rfl⟩ := exists_oldest hless
    exact .inr ⟨oldest, rest, rfl, hroom.resolve_left hless⟩

/-- **`retry_after`** reports the wait of the sliding window. -/
theorem Windowed.retryAfter_eq {key : String} {windows : Windows}
    (h : Windowed config now ((windows.get? key).getD []) granted) :
    retryAfter config now key windows = wait config now granted := by
  have hwait : wait config now granted = wait config now ((windows.get? key).getD []) := by
    unfold wait
    rw [h.recent_eq now le_rfl]
  rw [hwait]
  unfold retryAfter wait
  cases hkey : windows.get? key with
  | none => exact (if_pos config.rate_pos).symm
  | some window =>
    rw [hkey] at h
    simp only [Option.getD_some] at h ⊢
    by_cases hroom : window.length < config.rate
    · rw [if_pos hroom, if_pos (length_recent_le.trans_lt hroom)]
    · obtain ⟨oldest, rest, rfl⟩ := exists_oldest hroom
      rw [if_neg hroom, List.head?_cons, Option.getD_some]
      by_cases hstale : config.period.val ≤ now - oldest
      · have hless := h.hasRoom_iff.mp (.inr hstale)
        rw [← h.recent_eq now le_rfl] at hless
        rw [if_pos hless]
        exact max_eq_left (by linarith)
      · rw [recent_of_oldest h hstale, if_neg hroom, List.head?_cons, Option.elim_some,
          max_eq_right (by linarith [not_le.mp hstale])]
        ring

/-- **A call** is answered as the sliding window answers it. -/
theorem step_holds {c : TimedCall} {windows : Windows}
    {granted : String → List ℚ} (h : Holds config (c :: l) windows granted) :
    (step config windows c).1 = (SlidingWindow.step config granted c).1 ∧
      Holds config l (step config windows c).2 (SlidingWindow.step config granted c).2 := by
  obtain ⟨now, horder, hall⟩ := h
  obtain ⟨hnow, horder⟩ := horder.tail
  have hlater : ∀ key, Windowed config c.time ((windows.get? key).getD []) (granted key) :=
    fun key => (hall key).later hnow
  unfold step SlidingWindow.step
  cases c.call with
  | acquire key member =>
    have hw := hlater key
    have hroom := hw.hasRoom_iff
    simp only [acquire_eq, getWindow_fst]
    by_cases hyes : HasRoom config c.time ((windows.get? key).getD [])
    · simp only [if_pos hyes, if_pos (hroom.mp hyes)]
      refine ⟨trivial, c.time, horder, fun key' => ?_⟩
      by_cases hkey : key' = key
      · subst hkey
        simpa using hw.append_of_hasRoom hyes
      · simpa [Dict.get?_set, hkey, getWindow_snd] using hlater key'
    · simp only [if_neg hyes, if_neg (mt hroom.mpr hyes)]
      refine ⟨trivial, c.time, horder, fun key' => ?_⟩
      rw [getWindow_snd]
      exact hlater key'
  | reset key =>
    refine ⟨rfl, c.time, horder, fun key' => ?_⟩
    by_cases hkey : key' = key
    · subst hkey
      simpa using windowed_nil c.time
    · simpa [Dict.get?_erase, hkey] using hlater key'
  | retryAfter key => exact ⟨congrArg _ (hlater key).retryAfter_eq, c.time, horder, hlater⟩

/-- **The in-memory limiter is the sliding window.** -/
theorem answers_inMemory (h : InOrder 0 l) :
    answers (step config) .empty l =
      answers (SlidingWindow.step config) (fun _ => []) l := by
  have hsim : answers (step config) .empty l =
      (answers (SlidingWindow.step config) (fun _ => []) l).map id :=
    answers_eq (R := Holds config) (fun _ _ _ _ => step_holds) ⟨0, h, fun _ => windowed_nil 0⟩
  rwa [map_id] at hsim

end InMemoryRateLimiter

/-! ## `RedisRateLimiter` -/

def LimiterAnswer.throughLua : LimiterAnswer → LimiterAnswer
  | .wait seconds => .wait (luaText seconds)
  | answer => answer

def TimedCall.member? (c : TimedCall) : Option String :=
  match c.call with
  | .acquire _ member => some member
  | _ => none

def drawn (l : List TimedCall) : List String := l.filterMap TimedCall.member?

theorem drawn_cons (c : TimedCall) (l : List TimedCall) :
    drawn (c :: l) = c.member?.toList ++ drawn l := by
  unfold drawn
  cases h : c.member? with
  | none => simp [h]
  | some member => simp [h]

theorem roundHalfEven_nonneg {n : ℤ} {d : ℕ} (h : 0 ≤ n) : 0 ≤ roundHalfEven n d := by
  have hbelow : 0 ≤ n / (d : ℤ) := Int.ediv_nonneg h (Int.natCast_nonneg d)
  unfold roundHalfEven
  dsimp only
  split
  · exact hbelow
  · split
    · omega
    · split <;> omega

theorem luaText_nonneg {x : ℚ} (h : 0 ≤ x) : 0 ≤ luaText x := by
  unfold luaText significant
  split
  · exact le_rfl
  · have hscale : (0 : ℚ) ≤ 10 ^ ((14 : ℕ) - 1 - Int.log 10 |x|) :=
      zpow_nonneg (by norm_num) _
    have hscaled := Rat.num_nonneg.mpr (mul_nonneg h hscale)
    have hround : (0 : ℚ) ≤ (roundHalfEven _ (x * 10 ^ ((14 : ℕ) - 1 - Int.log 10 |x|)).den : ℤ) :=
      Int.cast_nonneg (roundHalfEven_nonneg hscaled)
    exact div_nonneg hround hscale

namespace RedisRateLimiter

open SlidingWindow SortedKeys

variable {config : RateLimitConfig} {channelPrefix : String} {now t : ℚ} {granted : List ℚ}
  {server : Server} {key key' : String}

theorem redisKey_inj : redisKey channelPrefix key' = redisKey channelPrefix key ↔ key' = key :=
  String.append_right_inj _

/-- The scores under a key are of calls that were granted, and all those that are recent from now on
are found. -/
structure Scored (config : RateLimitConfig) (now : ℚ) (scores : ℚ → List ℚ) (granted : List ℚ) :
    Prop where
  range : ∀ t, now ≤ t → ∀ x ∈ scores t, 0 ≤ x ∧ x ≤ now
  past : ∀ x ∈ granted, x ≤ now
  recent_eq : ∀ t, now ≤ t → recent config t (scores t) = recent config t granted

theorem Scored.later {scores : ℚ → List ℚ} (h : Scored config now scores granted) (ht : now ≤ t) :
    Scored config t scores granted where
  range t' ht' x hx := by
    obtain ⟨hzero, hle⟩ := h.range t' (ht.trans ht') x hx
    exact ⟨hzero, hle.trans ht⟩
  past x hx := (h.past x hx).trans ht
  recent_eq t' ht' := h.recent_eq t' (ht.trans ht')

section

variable (h : Scored config now (scoresAt server · key) granted)

include h

/-- What a script finds after it has dropped what is not recent. -/
theorem scoresAt_trim (ht : now ≤ t) :
    scoresAt (zremrangebyscore server now key 0 (now - config.period.val)) t key =
      recent config now (scoresAt server t key) := by
  rw [scoresAt_zremrangebyscore ht, if_pos rfl]
  refine filter_congr fun x hx => ?_
  have hzero := (h.range t ht x hx).1
  simp [hzero]

/-- Dropping what is not recent changes nothing from now on. -/
theorem Scored.trim :
    Scored config now
      (scoresAt (zremrangebyscore server now key 0 (now - config.period.val)) · key) granted where
  range t ht x hx := by
    rw [scoresAt_trim h ht] at hx
    exact h.range t ht x (mem_recent.mp hx).1
  past := h.past
  recent_eq t ht := by
    rw [scoresAt_trim h ht, recent_recent ht]
    exact h.recent_eq t ht

/-- **A call is recorded**: when the key expires, no call is recent. -/
theorem Scored.record {member : String} (hnow : 0 ≤ now) (hnew : member ∉ membersOf server key) :
    Scored config now
      (scoresAt (expireat (zadd server now key now member) now key
        (now + ((⌊config.period.val⌋ + 1 : ℤ) : ℚ))) · key) (granted ++ [now]) := by
  have hlast : ∀ x ∈ scoresAt server now key, x ≤ now :=
    fun x hx => (h.range now le_rfl x hx).2
  have hpast : ∀ x ∈ granted ++ [now], x ≤ now := by
    intro x hx
    rcases mem_append.mp hx with hx | hx
    · exact h.past x hx
    · exact (mem_singleton.mp hx).le
  refine ⟨fun t ht x hx => ?_, hpast, fun t ht => ?_⟩
  · rw [scoresAt_zadd_expireat hnew hlast, if_pos rfl] at hx
    split at hx
    · rcases mem_append.mp hx with hx | hx
      · exact h.range now le_rfl x hx
      · rw [mem_singleton.mp hx]
        exact ⟨hnow, le_rfl⟩
    · cases hx
  · rw [scoresAt_zadd_expireat hnew hlast, if_pos rfl]
    split
    case isTrue =>
      have hkept : recent config t (scoresAt server now key) = recent config t granted := by
        rw [← recent_recent ht, h.recent_eq now le_rfl, recent_recent ht]
      rw [recent_append, recent_append, hkept]
    case isFalse hexpired =>
      have hperiod := Int.lt_floor_add_one config.period.val
      push_cast at hexpired
      refine (recent_eq_nil fun x hx => ?_).symm
      linarith [hpast x hx, not_le.mp hexpired]

end

/-- The server holds what was granted, and none of the names that are still to be drawn. -/
def Holds (config : RateLimitConfig) (channelPrefix : String) (l : List TimedCall)
    (server : Server) (granted : String → List ℚ) : Prop :=
  ∃ now, InOrder now l ∧
    (∀ key, Scored config now (scoresAt server · (redisKey channelPrefix key)) (granted key)) ∧
    (drawn l).Nodup ∧ ∀ k, (membersOf server k).Disjoint (drawn l)

theorem Scored.congr {scores scores' : ℚ → List ℚ} (h : Scored config now scores granted)
    (heq : ∀ t, now ≤ t → scores' t = scores t) : Scored config now scores' granted where
  range t ht := by
    rw [heq t ht]
    exact h.range t ht
  past := h.past
  recent_eq t ht := by
    rw [heq t ht]
    exact h.recent_eq t ht

theorem scored_nil (now : ℚ) : Scored config now (fun _ => []) [] :=
  ⟨fun _ _ => by simp, by simp, fun _ _ => rfl⟩

/-- The server after a script has dropped what is not recent under a key. -/
def trimmed (config : RateLimitConfig) (now : ℚ) (k : String) (server : Server) : Server :=
  zremrangebyscore server now k 0 (now - config.period.val)

section

variable {k : String} (h : Scored config now (scoresAt server · k) granted)

include h

theorem scoresAt_trimmed : scoresAt (trimmed config now k server) now k =
    recent config now granted :=
  (scoresAt_trim h le_rfl).trans (h.recent_eq now le_rfl)

/-- **The sliding window script** grants what the sliding window grants. -/
theorem slidingWindowScript_eq (member : String) (ttl : ℤ) :
    slidingWindowScript k now (now - config.period.val) config.rate member ttl server =
      if (recent config now granted).length < config.rate then
        (1, expireat (zadd (trimmed config now k server) now k now member) now k (now + ttl))
      else (0, trimmed config now k server) := by
  unfold slidingWindowScript
  rw [← scoresAt_trimmed h, ← zcard_eq]
  rfl

/-- **The retry-after script** reports the wait of the sliding window. -/
theorem retryAfterScript_eq :
    retryAfterScript k now (now - config.period.val) config.rate config.period.val server =
      (luaText (wait config now granted), trimmed config now k server) := by
  have hcard : zcard (trimmed config now k server) now k = (recent config now granted).length := by
    rw [zcard_eq, scoresAt_trimmed h]
  have holdest : zrangeOldest (trimmed config now k server) now k =
      (recent config now granted).head? := by
    rw [zrangeOldest_eq, scoresAt_trimmed h]
  unfold trimmed at hcard holdest ⊢
  unfold retryAfterScript wait
  dsimp only
  rw [hcard, holdest]
  split
  case isTrue => rfl
  case isFalse hfull =>
    cases hrecent : recent config now granted with
    | nil =>
      rw [hrecent] at hfull
      exact absurd config.rate_pos hfull
    | cons oldest rest =>
      have hmem : oldest ∈ recent config now granted := by simp [hrecent]
      have hlt := (mem_recent.mp hmem).2
      exact if_neg (by linarith)

end

theorem wait_nonneg : 0 ≤ wait config now granted := by
  unfold wait
  split
  · exact le_rfl
  · cases hrecent : recent config now granted with
    | nil => exact le_rfl
    | cons oldest rest =>
      have hmem : oldest ∈ recent config now granted := by simp [hrecent]
      have hlt := (mem_recent.mp hmem).2
      exact (by linarith : (0 : ℚ) ≤ oldest + config.period.val - now)

theorem scoresAt_trimmed_ne {k k' : String} (hk : k' ≠ k) (ht : now ≤ t) :
    scoresAt (trimmed config now k server) t k' = scoresAt server t k' :=
  (scoresAt_zremrangebyscore ht).trans (if_neg hk)

theorem membersOf_trimmed_subset {k k' : String} :
    membersOf (trimmed config now k server) k' ⊆ membersOf server k' :=
  membersOf_zremrangebyscore_subset

theorem membersOf_record_subset {k k' member : String} {expiry : ℚ} :
    membersOf (expireat (zadd (trimmed config now k server) now k now member) now k expiry) k' ⊆
      member :: membersOf server k' := by
  rw [membersOf_expireat]
  exact List.Subset.trans membersOf_zadd_subset
    (cons_subset_cons _ membersOf_trimmed_subset)

/-- The names that are still to be drawn are new after a call. -/
theorem disjoint_drawn {c : TimedCall} {members members' : List String}
    (hnodup : (drawn (c :: l)).Nodup) (hdisjoint : members.Disjoint (drawn (c :: l)))
    (hsub : members' ⊆ c.member?.toList ++ members) : members'.Disjoint (drawn l) := by
  rw [drawn_cons] at hnodup hdisjoint
  intro m hm hl
  rcases mem_append.mp (hsub hm) with hm | hm
  · exact (nodup_append.mp hnodup).2.2 m hm m hl rfl
  · exact hdisjoint hm (mem_append_right _ hl)

/-- **A call** is answered as the sliding window answers it, with its wait as Lua writes it. -/
theorem step_holds {c : TimedCall} {granted : String → List ℚ}
    (h : Holds config channelPrefix (c :: l) server granted) :
    (step config channelPrefix server c).1 =
        (SlidingWindow.step config granted c).1.throughLua ∧
      Holds config channelPrefix l (step config channelPrefix server c).2
        (SlidingWindow.step config granted c).2 := by
  obtain ⟨now, horder, hall, hnodup, hdisjoint⟩ := h
  obtain ⟨hnow, horder⟩ := horder.tail
  have hlater : ∀ key, Scored config c.time (scoresAt server · (redisKey channelPrefix key))
      (granted key) := fun key => (hall key).later hnow
  have hne : ∀ {key key'}, key' ≠ key →
      redisKey channelPrefix key' ≠ redisKey channelPrefix key :=
    fun hkey heq => hkey (redisKey_inj.mp heq)
  have hrest : (drawn l).Nodup := by
    rw [drawn_cons] at hnodup
    exact (nodup_append.mp hnodup).2.1
  -- a key that was trimmed, and the others
  have htrim : ∀ key key', Scored config c.time
      (scoresAt (trimmed config c.time (redisKey channelPrefix key) server) ·
        (redisKey channelPrefix key')) (granted key') := by
    intro key key'
    by_cases hkey : key' = key
    · subst hkey
      exact (hlater key').trim
    · exact (hlater key').congr fun t ht => scoresAt_trimmed_ne (hne hkey) ht
  unfold step SlidingWindow.step
  cases hcall : c.call with
  | acquire key member =>
    have hmember : c.member? = some member := by simp [TimedCall.member?, hcall]
    have hnew : member ∉
        membersOf (trimmed config c.time (redisKey channelPrefix key) server)
          (redisKey channelPrefix key) := by
      refine fun hmem => hdisjoint _ (membersOf_trimmed_subset hmem) ?_
      rw [drawn_cons, hmember]
      exact mem_cons_self
    have hlast := fun x hx => ((htrim key key).range c.time le_rfl x hx).2
    simp only [acquire, slidingWindowScript_eq (hlater key)]
    by_cases hroom : (recent config c.time (granted key)).length < config.rate
    · simp only [if_pos hroom]
      refine ⟨rfl, c.time, horder, fun key' => ?_, hrest, fun k => ?_⟩
      · by_cases hkey : key' = key
        · subst hkey
          rw [Function.update_self]
          exact (htrim key' key').record c.time_nonneg hnew
        · rw [Function.update_of_ne hkey]
          refine (htrim key key').congr fun t _ => ?_
          rw [scoresAt_zadd_expireat hnew hlast, if_neg (hne hkey)]
      · refine disjoint_drawn hnodup (hdisjoint k) ?_
        rw [hmember]
        exact membersOf_record_subset
    · simp only [if_neg hroom]
      refine ⟨rfl, c.time, horder, htrim key, hrest, fun k => ?_⟩
      exact disjoint_drawn hnodup (hdisjoint k)
        (List.Subset.trans membersOf_trimmed_subset (subset_append_right _ _))
  | reset key =>
    dsimp only
    refine ⟨rfl, c.time, horder, fun key' => ?_, hrest, fun k => ?_⟩
    · by_cases hkey : key' = key
      · subst hkey
        rw [Function.update_self]
        exact (scored_nil c.time).congr fun t _ => by rw [scoresAt_del, if_pos rfl]
      · rw [Function.update_of_ne hkey]
        exact (hlater key').congr fun t _ => by rw [scoresAt_del, if_neg (hne hkey)]
    · exact disjoint_drawn hnodup (hdisjoint k)
        (List.Subset.trans membersOf_del_subset (subset_append_right _ _))
  | retryAfter key =>
    simp only [retryAfter, retryAfterScript_eq (hlater key)]
    refine ⟨?_, c.time, horder, htrim key, hrest, fun k => ?_⟩
    · rw [max_eq_right (luaText_nonneg wait_nonneg)]
      rfl
    · exact disjoint_drawn hnodup (hdisjoint k)
        (List.Subset.trans membersOf_trimmed_subset (subset_append_right _ _))

/-- **The Redis limiter is the sliding window**, with waits as Lua writes them. -/
theorem answers_redis (h : InOrder 0 l) (hnodup : (drawn l).Nodup) :
    answers (step config channelPrefix) .empty l =
      (answers (SlidingWindow.step config) (fun _ => []) l).map .throughLua := by
  refine answers_eq (R := Holds config channelPrefix) (fun _ _ _ _ => step_holds) ?_
  exact ⟨0, h, fun _ => scored_nil 0, hnodup, fun _ => by simp [membersOf, Expiring.empty]⟩

end RedisRateLimiter

/-! ## Both -/

def oncePerMinute : RateLimitConfig where
  rate := 1
  period := ⟨60, "60.0"⟩
  rate_pos := Nat.one_pos
  period_pos := by decide +kernel

/-- A call is granted, and the next resolvable instant of that time asked for the wait. -/
def waitAtOnce : List TimedCall :=
  [⟨1700000000, .acquire "user" "a", by decide +kernel⟩,
    ⟨1700000000 + 1 / 4194304, .retryAfter "user", by decide +kernel⟩]

end Varco
